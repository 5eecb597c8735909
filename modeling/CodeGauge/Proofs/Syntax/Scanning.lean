import CodeGauge.Proofs.Syntax.Cuts

/-!
# Comments between tokens

The scanner loses no comment: what a gap shows is in front of the token after it (`Gap.Grows`).  So
a hash with only blank characters before it on its line is either the beginning of a comment in
front of some token, or it lies in a token that may only stand in a string
(`scanFrom_hash`).  Both follow from what one step of the scanner can do (`ScanState.Steps`).
-/

namespace CodeGauge.Syntax

theorem Place.row_step (place : Place) (c : Char) :
    (place.step c).row = place.row + if c = '\n' then 1 else 0 := by
  unfold step
  split <;> rfl

theorem Place.row_after (place : Place) (text : List Char) :
    (place.after text).row = place.row + text.count '\n' := by
  induction text generalizing place with
  | nil => rfl
  | cons c text ih =>
      have stepped : (place.after (c :: text)).row = ((place.step c).after text).row := rfl
      rw [stepped, ih, row_step, List.count_cons]
      simp only [beq_iff_eq]
      omega

namespace Gap

/-- A gap of whole nodes, in which what is no comment shows nothing. -/
structure IsSound (gap : Gap) : Prop where
  whole : ∀ node ∈ gap.extras, node.IsWhole
  /-- What has no indentation of its own is no comment. -/
  joints : ∀ extra ∈ gap.far, extra.1 = none → marksOf [extra.2] = []

/-- A gap that shows at least as much as a sound one, and is sound. -/
structure Grows (before after : Gap) : Prop where
  sound : before.IsSound → after.IsSound
  marks : before.IsSound → marksOf before.extras ⊆ marksOf after.extras

variable {gap before after : Gap}

theorem isSound_empty (origin : Place) : (empty origin).IsSound :=
  ⟨fun _ mem => absurd mem List.not_mem_nil, fun _ mem => absurd mem List.not_mem_nil⟩

theorem Grows.ofSame (near : before.near = after.near) (far : before.far = after.far) :
    before.Grows after := by
  have same : before.extras = after.extras := by rw [extras, extras, near, far]
  refine ⟨fun sound => ⟨same ▸ sound.whole, far ▸ sound.joints⟩, fun _ => ?_⟩
  rw [same]
  exact List.Subset.refl _

theorem extras_addComment (gap : Gap) (comment : Node) :
    (gap.addComment comment).extras = gap.extras ++ [comment] := by
  unfold addComment
  split <;> simp [extras]

theorem extras_addJoint (gap : Gap) (joint : Node) :
    (gap.addJoint joint).extras = gap.extras ++ [joint] := by
  simp [addJoint, extras]

theorem forall_mem_concat_isWhole {node : Node} (sound : gap.IsSound) (whole : node.IsWhole) :
    ∀ extra ∈ gap.extras ++ [node], extra.IsWhole :=
  List.forall_mem_append.mpr ⟨sound.whole, List.forall_mem_singleton.mpr whole⟩

theorem grows_addComment {comment : Node} (whole : comment.IsWhole) :
    gap.Grows (gap.addComment comment) := by
  refine ⟨fun sound => ⟨?_, ?_⟩, fun _ => ?_⟩
  · rw [extras_addComment]
    exact forall_mem_concat_isWhole sound whole
  · unfold addComment
    split
    · refine List.forall_mem_append.mpr ⟨sound.joints, List.forall_mem_singleton.mpr ?_⟩
      exact fun none => absurd none (Option.some_ne_none _)
    · exact fun _ mem => absurd mem List.not_mem_nil
  · rw [extras_addComment, marksOf_append]
    exact List.subset_append_left _ _

theorem grows_addJoint {joint : Node} (whole : joint.IsWhole) (unmarked : marksOf [joint] = []) :
    gap.Grows (gap.addJoint joint) := by
  refine ⟨fun sound => ⟨?_, ?_⟩, fun _ => ?_⟩
  · rw [extras_addJoint]
    exact forall_mem_concat_isWhole sound whole
  · exact List.forall_mem_append.mpr
      ⟨sound.joints, List.forall_mem_singleton.mpr fun _ => unmarked⟩
  · rw [extras_addJoint, marksOf_append]
    exact List.subset_append_left _ _

theorem far_eq_append (gap : Gap) :
    ∃ dropped, gap.far = gap.dropJoints.far ++ dropped ∧
      ∀ extra ∈ dropped, extra.1 = none := by
  let isJoint : Option Nat × Node → Bool := fun extra => extra.1.isNone
  refine ⟨(gap.far.reverse.takeWhile isJoint).reverse, ?_, fun extra mem => ?_⟩
  · rw [dropJoints, ← List.reverse_append, List.takeWhile_append_dropWhile, List.reverse_reverse]
  · have joint : isJoint extra = true := List.mem_takeWhile_imp (List.mem_reverse.mp mem)
    exact Option.isNone_iff_eq_none.mp joint

/-- The joints at the end of a gap show nothing, so they may be dropped. -/
theorem grows_dropJoints (gap : Gap) : gap.Grows gap.dropJoints := by
  obtain ⟨dropped, far_eq, joints⟩ := gap.far_eq_append
  have extras_eq : gap.extras = gap.dropJoints.extras ++ dropped.map (·.2) := by
    rw [extras, far_eq, List.map_append, ← List.append_assoc]
    rfl
  refine ⟨fun sound => ⟨?_, ?_⟩, fun sound => ?_⟩
  · exact (List.forall_mem_append.mp (extras_eq ▸ sound.whole)).1
  · exact (List.forall_mem_append.mp (far_eq ▸ sound.joints)).1
  · have unmarked : marksOf (dropped.map (·.2)) = [] := by
      refine marksOf_eq_nil fun node mem => ?_
      obtain ⟨extra, extra_mem, rfl⟩ := List.mem_map.mp mem
      refine sound.joints extra ?_ (joints extra extra_mem)
      rw [far_eq]
      exact List.mem_append_right _ extra_mem
    rw [extras_eq, marksOf_append, unmarked, List.append_nil]
    exact List.Subset.refl _

end Gap

/-- What one step of the scanner can do: reach the end, pass over characters other than a hash, pass
over a comment, or cut off a token. -/
inductive ScanState.Steps (state : ScanState) : List Char → Scanned → Prop where
  | ends : Steps state [] (.last state.finish)
  | passes {passed rest : List Char} {next : ScanState} (plain : '#' ∉ passed)
      (place : next.place = state.place.after passed) (grows : state.gap.Grows next.gap) :
      Steps state (passed ++ rest) (.skipped next rest)
  | comment (text : List Char) : Steps state ('#' :: text) (state.skipComment ('#' :: text))
  | emits {text : List Char} {cut : Cut} (off : cut.IsOff text) : Steps state text (state.emit cut)

namespace ScanState

variable {state : ScanState}

theorem steps_skipBlank {c : Char} (plain : c ≠ '#') (rest : List Char) :
    state.Steps (c :: rest) (state.skipBlank c rest) := by
  have passed : '#' ∉ [c] := List.not_mem_cons_of_ne_of_not_mem plain.symm List.not_mem_nil
  refine .passes passed rfl ?_
  dsimp only
  split_ifs <;> exact .ofSame rfl rfl

theorem steps_skipJoint {joint : List Char} (plain : '#' ∉ joint) (rest : List Char) :
    state.Steps (joint ++ rest) (state.skipJoint joint rest) :=
  .passes plain rfl (Gap.grows_addJoint (Node.isWhole_leaf _ _ _ _) rfl)

theorem steps_stepCode (state : ScanState) (text : List Char) :
    state.Steps text (state.stepCode text) := by
  unfold stepCode
  split
  · exact .ends
  · exact .comment _
  · exact steps_skipJoint (by decide : '#' ∉ ['\\', '\n']) _
  · exact steps_skipJoint (by decide : '#' ∉ ['\\', '\r', '\n']) _
  · exact steps_skipJoint (by decide : '#' ∉ ['\\']) []
  · rename_i c rest other _ _ _
    split
    · exact steps_skipBlank other rest
    · exact .emits (isOff_cutCode _ _)

theorem steps_step (state : ScanState) (text : List Char) :
    state.Steps text (state.step text) := by
  unfold step
  split
  · exact .ends
  · exact .emits (isOff_cutText _ _ _)
  · split
    · rename_i turn
      exact steps_skipBlank (fun hash => by simp [hash] at turn) _
    · exact .emits (isOff_cutSpecification _ _)
  · exact steps_stepCode state _

theorem grows_finish (state : ScanState) : state.gap.Grows state.finish.gap := .ofSame rfl rfl

theorem grows_skipComment (state : ScanState) (stop : Place) :
    state.gap.Grows (state.gap.addComment (leaf "comment" true state.place stop)) :=
  Gap.grows_addComment (Node.isWhole_leaf _ _ _ _)

theorem grows_emit (state : ScanState) (shape : Shape) :
    state.gap.Grows (if shape = .stringStart then state.gap.dropJoints else state.gap) := by
  split
  · exact state.gap.grows_dropJoints
  · exact .ofSame rfl rfl

end ScanState

section Runs

variable {state : ScanState} {text : List Char}

theorem scanFrom_succ (steps : Nat) (state : ScanState) (text : List Char) :
    ∃ scanned, state.Steps text scanned ∧ scanFrom (steps + 1) state text =
      match scanned with
      | .last token => [token]
      | .skipped state rest => scanFrom steps state rest
      | .token token state rest => token :: scanFrom steps state rest :=
  ⟨state.step text, state.steps_step text, rfl⟩

theorem areWhole_scanFrom (steps : Nat) (sound : state.gap.IsSound) :
    AreWhole (scanFrom steps state text) := by
  induction steps generalizing state text with
  | zero => exact fun _ mem => absurd mem List.not_mem_nil
  | succ steps ih =>
      obtain ⟨scanned, step, run⟩ := scanFrom_succ steps state text
      rw [run]
      cases step with
      | ends =>
          refine Reader.areWhole_cons_iff.mpr ⟨(state.grows_finish.sound sound).whole, ?_⟩
          exact fun _ mem => absurd mem List.not_mem_nil
      | passes plain place grows => exact ih (grows.sound sound)
      | comment text => exact ih ((state.grows_skipComment _).sound sound)
      | emits off =>
          exact Reader.areWhole_cons_iff.mpr
            ⟨((state.grows_emit _).sound sound).whole, ih (Gap.isSound_empty _)⟩

theorem marksOf_gap_subset (steps : Nat) (sound : state.gap.IsSound)
    (read : scanFrom steps state text ≠ []) :
    marksOf state.gap.extras ⊆ marksOf (extrasOf (scanFrom steps state text)) := by
  induction steps generalizing state text with
  | zero => exact absurd rfl read
  | succ steps ih =>
      have front {token : Token} {others : List Token} (grows : state.gap.Grows token.gap) :
          marksOf state.gap.extras ⊆ marksOf (extrasOf (token :: others)) := by
        rw [extrasOf_cons, marksOf_append]
        exact List.Subset.trans (grows.marks sound) (List.subset_append_left _ _)
      obtain ⟨scanned, step, run⟩ := scanFrom_succ steps state text
      rw [run] at read ⊢
      cases step with
      | ends => exact front state.grows_finish
      | passes plain place grows =>
          exact List.Subset.trans (grows.marks sound) (ih (grows.sound sound) read)
      | comment text =>
          have grows := state.grows_skipComment
            (state.place.after (('#' :: text).takeWhile (· ≠ '\n')))
          exact List.Subset.trans (grows.marks sound) (ih (grows.sound sound) read)
      | emits off => exact front (state.grows_emit _)

theorem row_le_of_mem_scanFrom (steps : Nat) {token : Token}
    (mem : token ∈ scanFrom steps state text) : state.place.row ≤ token.stop.row := by
  induction steps generalizing state text with
  | zero => exact absurd mem List.not_mem_nil
  | succ steps ih =>
      obtain ⟨scanned, step, run⟩ := scanFrom_succ steps state text
      rw [run] at mem
      cases step with
      | ends =>
          rw [List.mem_singleton.mp mem]
          exact Nat.le_refl _
      | passes plain place grows =>
          have later := ih mem
          rw [place, Place.row_after] at later
          omega
      | comment text =>
          have later := ih mem
          rw [Place.row_after] at later
          omega
      | @emits _ cut off =>
          have stop := Place.row_after state.place cut.text
          rcases List.mem_cons.mp mem with rfl | mem
          · exact stop ▸ Nat.le_add_right _ _
          · have later : (state.place.after cut.text).row ≤ token.stop.row := ih mem
            omega

end Runs

def BlankEnd (text : List Char) : Prop :=
  ∀ before line, text = before ++ line → '\n' ∉ line → ∀ c ∈ line, Text.isBlank c = true

namespace BlankEnd

variable {front rest : List Char}

theorem drop (blank : BlankEnd (front ++ rest)) : BlankEnd rest := by
  intro before line split
  exact blank (front ++ before) line (by rw [split, List.append_assoc])

theorem mem_newline {c : Char} (blank : BlankEnd (c :: rest)) (visible : Text.isBlank c = false) :
    '\n' ∈ c :: rest := by
  by_contra same_line
  have white := blank [] (c :: rest) rfl same_line c List.mem_cons_self
  exact absurd (visible.symm.trans white) Bool.false_ne_true

end BlankEnd

/-- Some token that may only stand in a string goes on to a row, and each string that opens before
it opens in an earlier row. -/
def Covers (tokens : List Token) (row : Nat) : Prop :=
  ∃ before token after, tokens = before ++ token :: after ∧ ¬ token.shape.IsPlain ∧
    (∀ closer ∈ token :: after, row ≤ closer.stop.row) ∧
    ∀ opener ∈ before, opener.shape = .stringStart → opener.start.row < row

theorem Covers.cons {tokens : List Token} {row : Nat} {first : Token} (covers : Covers tokens row)
    (earlier : first.shape = .stringStart → first.start.row < row) :
    Covers (first :: tokens) row := by
  obtain ⟨before, token, after, split, inside, goes_on, opens⟩ := covers
  refine ⟨first :: before, token, after, congrArg (first :: ·) split, inside, goes_on, ?_⟩
  exact List.forall_mem_cons.mpr ⟨earlier, opens⟩

/-- A piece of a text ends before a hash or holds it. -/
theorem append_eq_append_hash {piece rest mid after : List Char}
    (same : mid ++ '#' :: after = piece ++ rest) :
    (∃ later, mid = piece ++ later ∧ rest = later ++ '#' :: after) ∨
      ∃ more, piece = mid ++ '#' :: more := by
  rcases List.append_eq_append_iff.mp same with ⟨shift, rfl, split⟩ | ⟨shift, rfl, split⟩
  · cases shift with
    | nil => exact .inl ⟨[], by simp, split.symm⟩
    | cons head shift =>
        obtain ⟨rfl, -⟩ := List.cons_eq_cons.mp split
        exact .inr ⟨shift, rfl⟩
  · exact .inl ⟨shift, rfl, split⟩

theorem span_newline {front : List Char} (others : List Char) (turn : '\n' ∈ front) :
    (front ++ others).takeWhile (· ≠ '\n') = front.takeWhile (· ≠ '\n') ∧
      (front ++ others).dropWhile (· ≠ '\n') = front.dropWhile (· ≠ '\n') ++ others := by
  induction front with
  | nil => exact absurd turn List.not_mem_nil
  | cons c front ih =>
      rw [List.cons_append, List.takeWhile_cons, List.takeWhile_cons, List.dropWhile_cons,
        List.dropWhile_cons]
      by_cases here : c = '\n'
      · simp [here]
      · have later : '\n' ∈ front := (List.mem_cons.mp turn).resolve_left (Ne.symm here)
        have passed : decide (c ≠ '\n') = true := decide_eq_true here
        rw [if_pos passed, if_pos passed, if_pos passed, if_pos passed, (ih later).1, (ih later).2]
        exact ⟨rfl, rfl⟩

theorem ScanState.exists_skipComment_eq (state : ScanState) {front : List Char}
    (others : List Char) (turn : '\n' ∈ front) :
    ∃ passed later next, front = passed ++ later ∧ next.place = state.place.after passed ∧
      state.gap.Grows next.gap ∧
        state.skipComment (front ++ others) = .skipped next (later ++ others) := by
  obtain ⟨passed, left⟩ := span_newline others turn
  have split := List.takeWhile_append_dropWhile (p := (· ≠ '\n')) (l := front)
  have skipped : state.skipComment (front ++ others) = .skipped _ _ := rfl
  rw [passed, left] at skipped
  exact ⟨_, _, _, split.symm, rfl, state.grows_skipComment _, skipped⟩

namespace Cut.IsOff

variable {cut : Cut} {text : List Char} {place : Place}

/-- A string opens on an earlier line than a later line that begins blank. -/
theorem row_lt {later : List Char} (off : cut.IsOff text) (blank : BlankEnd (cut.text ++ later))
    (opening : cut.shape = .stringStart) :
    place.row < (place.after (cut.text ++ later)).row := by
  obtain ⟨first, others, front, visible⟩ := off.opens opening
  rw [front] at blank ⊢
  have turn := List.count_pos_iff.mpr (blank.mem_newline visible)
  rw [Place.row_after]
  exact Nat.lt_add_of_pos_right turn

/-- A token that holds a hash may only stand in a string, and no later token ends before it. -/
theorem covers {mid more rest : List Char} {steps : Nat} {gap : Gap} {openings : List Opening}
    (off : cut.IsOff text) (held : cut.text = mid ++ '#' :: more) :
    Covers
      (⟨cut.shape, String.ofList cut.text, gap, place, place.after cut.text⟩ ::
        scanFrom steps ⟨place.after cut.text, openings, .empty (place.after cut.text)⟩ rest)
      (place.after mid).row := by
  have inside : ¬ cut.shape.IsPlain := by
    intro plain
    exact off.plain plain (held ▸ List.mem_append_right mid List.mem_cons_self)
  have stop : (place.after mid).row ≤ (place.after cut.text).row := by
    rw [held, Place.after_append, Place.row_after _ ('#' :: more)]
    exact Nat.le_add_right _ _
  refine ⟨[], _, _, rfl, inside, ?_, fun _ mem => absurd mem List.not_mem_nil⟩
  refine List.forall_mem_cons.mpr ⟨stop, fun closer mem => ?_⟩
  exact stop.trans (row_le_of_mem_scanFrom steps mem)

end Cut.IsOff

/-- A hash with only blank characters before it on its line begins a comment in front of some token,
or lies in a token that may only stand in a string. -/
theorem scanFrom_hash (steps : Nat) {state : ScanState} {mid after : List Char}
    (sound : state.gap.IsSound) (blank : BlankEnd mid)
    (ended : ∃ token ∈ scanFrom steps state (mid ++ '#' :: after), token.shape = .finish) :
    Mark.comment (state.place.after mid).row ∈
        marksOf (extrasOf (scanFrom steps state (mid ++ '#' :: after))) ∨
      Covers (scanFrom steps state (mid ++ '#' :: after)) (state.place.after mid).row := by
  induction steps generalizing state mid with
  | zero =>
      obtain ⟨token, mem, -⟩ := ended
      exact absurd mem List.not_mem_nil
  | succ steps ih =>
      generalize text_eq : mid ++ '#' :: after = text at ended ⊢
      obtain ⟨scanned, step, run⟩ := scanFrom_succ steps state text
      rw [run] at ended ⊢
      cases step with
      | ends => simp at text_eq
      | @passes passed rest next plain place grows =>
          rcases append_eq_append_hash text_eq with ⟨later, rfl, rfl⟩ | ⟨more, rfl⟩
          · rw [Place.after_append, ← place]
            exact ih (grows.sound sound) blank.drop ended
          · exact absurd (List.mem_append_right mid List.mem_cons_self) plain
      | comment text =>
          cases mid with
          | nil =>
              -- the comment is the one that begins with the hash
              obtain ⟨token, mem, -⟩ := ended
              refine .inl (marksOf_gap_subset steps ((state.grows_skipComment _).sound sound)
                (List.ne_nil_of_mem mem) ?_)
              rw [Gap.extras_addComment, marksOf_append]
              exact List.mem_append_right _ List.mem_cons_self
          | cons c mid =>
              -- an earlier comment ends with its line, and the hash is on a later one
              rw [List.cons_append] at text_eq
              obtain ⟨rfl, rfl⟩ := List.cons_eq_cons.mp text_eq
              have turn := blank.mem_newline (by decide : Text.isBlank '#' = false)
              obtain ⟨passed, later, next, split, place, grows, skipped⟩ :=
                state.exists_skipComment_eq ('#' :: after) turn
              rw [List.cons_append] at skipped
              rw [skipped] at ended ⊢
              rw [split] at blank ⊢
              rw [Place.after_append, ← place]
              exact ih (grows.sound sound) blank.drop ended
      | @emits _ cut off =>
          rcases append_eq_append_hash (text_eq.trans off.split) with
            ⟨later, rfl, rest_eq⟩ | ⟨more, piece_eq⟩
          · -- the token ends before the hash
            have ended_later : ∃ token ∈ scanFrom steps
                ⟨state.place.after cut.text, cut.openings, .empty (state.place.after cut.text)⟩
                (later ++ '#' :: after), token.shape = .finish := by
              obtain ⟨token, mem, finish⟩ := ended
              rcases List.mem_cons.mp mem with rfl | mem
              · exact absurd finish off.goes_on
              · exact ⟨token, rest_eq ▸ mem, finish⟩
            have found := ih (Gap.isSound_empty _) blank.drop ended_later
            rw [← rest_eq, ← Place.after_append] at found
            refine found.imp (fun mark => ?_) fun covers => covers.cons (off.row_lt blank)
            change _ ∈ marksOf (extrasOf (_ :: scanFrom steps _ _))
            rw [extrasOf_cons, marksOf_append]
            exact List.mem_append_right _ mark
          · -- the token holds the hash
            exact .inr (off.covers piece_eq)

end CodeGauge.Syntax
