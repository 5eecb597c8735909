import CodeGauge.Proofs.Measurement.Lines
import CodeGauge.Proofs.Syntax.Statements
import CodeGauge.Measurement.Analyzer

/-!
# Lines that hold nothing but a comment

Whether a line holds nothing but a comment is decided by its text: its first character that is not
blank is a hash.  Such a line of a text that parses holds a comment of the tree, or it lies in a
string literal that begins on an earlier line (`holdsComment_or_inLiteral`).  The second case is
real (`hashInString`), so the lines of only a comment can be more than the rows of comments, but by
no more than such lines of literals (`only_comment_lines_hold_comments`).
-/

namespace CodeGauge

open Syntax Text

namespace Text

theorem trim_prefix (line : List Char) : trim line <+: trimLeft line := by
  have rest : trimLeft (trimLeft line).reverse <:+ (trimLeft line).reverse :=
    List.dropWhile_suffix isBlank
  have front := List.reverse_prefix.mpr rest
  rwa [List.reverse_reverse] at front

theorem head?_trimLeft_of_trim {line : List Char} {c : Char} (first : (trim line).head? = some c) :
    (trimLeft line).head? = some c := by
  obtain ⟨others, split⟩ := trim_prefix line
  rw [← split, List.head?_append, first, Option.some_or]

theorem eq_or_of_head?_trimLeft {c first : Char} {line : List Char}
    (starts : (trimLeft (c :: line)).head? = some first) :
    c = first ∨ isBlank c = true ∧ (trimLeft line).head? = some first := by
  rw [trimLeft, List.dropWhile_cons] at starts
  split at starts
  · rename_i white
    exact .inr ⟨white, starts⟩
  · exact .inl (Option.some.inj starts)

end Text

namespace Syntax

theorem blankEnd_nil : BlankEnd [] := by
  intro before line split _ c mem
  obtain ⟨-, rfl⟩ := List.append_eq_nil_iff.mp split.symm
  exact absurd mem List.not_mem_nil

theorem BlankEnd.cons {c : Char} {text : List Char} (blank : BlankEnd text)
    (harmless : isBlank c = true ∨ '\n' ∈ text) : BlankEnd (c :: text) := by
  intro before line split same_line
  cases before with
  | nil =>
      obtain rfl : c :: text = line := split
      have no_turn : '\n' ∉ text := fun turn => same_line (List.mem_cons_of_mem c turn)
      exact List.forall_mem_cons.mpr ⟨harmless.resolve_right no_turn, blank [] text rfl no_turn⟩
  | cons head before =>
      obtain ⟨rfl, rest⟩ := List.cons_eq_cons.mp split
      exact blank before line rest same_line

end Syntax

namespace Measurement

theorem exists_hash_of_line {text line : List Char} {row : Nat}
    (at_row : (lines text)[row]? = some line) (hash : (trimLeft line).head? = some '#') :
    ∃ mid after, text = mid ++ '#' :: after ∧ BlankEnd mid ∧ mid.count '\n' = row := by
  induction text using lines.induct generalizing row line with
  | case1 => simp [lines] at at_row
  | case2 rest ih =>
      rw [lines] at at_row
      cases row with
      | zero =>
          obtain rfl := Option.some.inj at_row
          simp [trimLeft] at hash
      | succ row =>
          obtain ⟨mid, after, rfl, blank, rows⟩ := ih at_row hash
          exact ⟨'\r' :: '\n' :: mid, after, rfl,
            (blank.cons (.inl (by decide))).cons (.inl (by decide)), by simp [rows]⟩
  | case3 rest ih =>
      rw [lines] at at_row
      cases row with
      | zero =>
          obtain rfl := Option.some.inj at_row
          simp [trimLeft] at hash
      | succ row =>
          obtain ⟨mid, after, rfl, blank, rows⟩ := ih at_row hash
          exact ⟨'\n' :: mid, after, rfl, blank.cons (.inl (by decide)), by simp [rows]⟩
  | case4 c rest no_return no_feed ended ih =>
      rw [lines, ended] at at_row
      · cases row with
        | zero =>
            obtain rfl := Option.some.inj at_row
            rcases eq_or_of_head?_trimLeft hash with rfl | ⟨-, hash⟩
            · exact ⟨[], rest, rfl, blankEnd_nil, rfl⟩
            · simp [trimLeft] at hash
        | succ row => simp at at_row
      · exact no_return
      · exact no_feed
  | case5 c rest no_return no_feed first others goes_on ih =>
      have count_cons (mid : List Char) : (c :: mid).count '\n' = mid.count '\n' :=
        List.count_cons_of_ne no_feed
      rw [lines, goes_on] at at_row
      · cases row with
        | zero =>
            obtain rfl := Option.some.inj at_row
            rcases eq_or_of_head?_trimLeft hash with rfl | ⟨white, hash⟩
            · exact ⟨[], rest, rfl, blankEnd_nil, rfl⟩
            · obtain ⟨mid, after, rfl, blank, rows⟩ := @ih _ 0 (by rw [goes_on]; rfl) hash
              exact ⟨c :: mid, after, rfl, blank.cons (.inl white), (count_cons mid).trans rows⟩
        | succ row =>
            obtain ⟨mid, after, rfl, blank, rows⟩ :=
              @ih _ (row + 1) (by rw [goes_on]; exact at_row) hash
            have turn : '\n' ∈ mid := List.count_pos_iff.mp (rows ▸ Nat.succ_pos row)
            exact ⟨c :: mid, after, rfl, blank.cons (.inr turn), (count_cons mid).trans rows⟩
      · exact no_return
      · exact no_feed

def HoldsComment (root : Node) (row : Nat) : Prop :=
  ∃ site ∈ root.uncommented, isComment site.node = true ∧ site.node.label.start.row = row

/-- A row lies in a string literal that begins on an earlier row. -/
def InLiteral (root : Node) (row : Nat) : Prop :=
  ∃ site ∈ root.uncommented, site.node.kind = "string" ∧
    site.node.label.start.row < row ∧ row ≤ site.node.label.stopRow

instance InLiteral.instDecidable (root : Node) (row : Nat) : Decidable (InLiteral root row) :=
  inferInstanceAs (Decidable (∃ site ∈ _, _))

instance HoldsComment.instDecidable (root : Node) (row : Nat) :
    Decidable (HoldsComment root row) :=
  inferInstanceAs (Decidable (∃ site ∈ _, _))

theorem exists_site_of_mem_marksOf {root : Node} {mark : Mark} (mem : mark ∈ marksOf [root]) :
    ∃ site ∈ root.uncommented, site.node.label.mark? = some mark := by
  obtain ⟨node, node_mem, mark_eq⟩ := List.mem_filterMap.mp mem
  rw [List.flatMap_singleton, Node.outsideComments_eq_map] at node_mem
  obtain ⟨site, site_mem, rfl⟩ := List.mem_map.mp node_mem
  exact ⟨site, site_mem, mark_eq⟩

theorem holdsComment_of_mem_marksOf {root : Node} {row : Nat}
    (mem : Mark.comment row ∈ marksOf [root]) : HoldsComment root row := by
  obtain ⟨site, site_mem, mark_eq⟩ := exists_site_of_mem_marksOf mem
  refine ⟨site, site_mem, ?_⟩
  unfold Label.mark? at mark_eq
  split_ifs at mark_eq with comment
  · exact ⟨beq_iff_eq.mpr comment, Mark.comment.inj (Option.some.inj mark_eq)⟩
  · exact Mark.noConfusion (Option.some.inj mark_eq)

theorem inLiteral_of_mem_marksOf {root : Node} {first last row : Nat}
    (mem : Mark.string first last ∈ marksOf [root]) (begun : first < row) (open_ : row ≤ last) :
    InLiteral root row := by
  obtain ⟨site, site_mem, mark_eq⟩ := exists_site_of_mem_marksOf mem
  refine ⟨site, site_mem, ?_⟩
  unfold Label.mark? at mark_eq
  split_ifs at mark_eq with comment string
  · exact Mark.noConfusion (Option.some.inj mark_eq)
  · obtain ⟨rfl, rfl⟩ := Mark.string.inj (Option.some.inj mark_eq)
    exact ⟨string, begun, open_⟩

/-- A line of a parsed text that holds nothing but a comment, judged by its characters, holds a
comment of the tree or lies in a string literal that begins on an earlier line. -/
theorem holdsComment_or_inLiteral {text line : List Char} {root : Node} {row : Nat}
    (parsed : parse text = .ok root) (at_row : (lines text)[row]? = some line)
    (only : classOf root row line = .comment) : HoldsComment root row ∨ InLiteral root row := by
  obtain ⟨unflagged, rfl⟩ := Node.accept_eq_ok_iff.mp parsed
  have hash : (trim line).head? = some '#' := by
    unfold classOf at only
    split_ifs at only with _ _ hash
    exact hash
  obtain ⟨mid, after, text_eq, blank, rows⟩ :=
    exists_hash_of_line at_row (head?_trimLeft_of_trim hash)
  rcases read_eq text with error | ⟨children, root_eq, accounts⟩
  · rw [error] at unflagged
    exact Bool.noConfusion unflagged
  · rw [root_eq]
    rw [text_eq] at accounts
    have found := mark_of_hash blank accounts
    rw [rows, ← marksOf_moduleRoot text] at found
    rcases found with mark | ⟨first, last, mark, begun, ends⟩
    · exact .inl (holdsComment_of_mem_marksOf mark)
    · exact .inr (inLiteral_of_mem_marksOf mark begun ends)

/-- The lines of a text that hold nothing but a comment, judged by their characters, with their
rows. -/
def onlyCommentLines (text : List Char) (root : Node) : List (List Char × Nat) :=
  (lines text).zipIdx.filter fun (line, row) => classOf root row line = .comment

theorem onlyComment_countLines (text : List Char) (root : Node) :
    (countLines text root).onlyComment = (onlyCommentLines text root).length := by
  obtain ⟨-, -, -, onlyComment, -⟩ := countLines_eq text root
  rw [onlyComment, lineClasses_eq_map, onlyCommentLines, ← List.countP_eq_length_filter,
    List.count, List.countP_map]
  refine List.countP_congr fun entry _ => ?_
  simp

theorem nodup_rows_onlyCommentLines (text : List Char) (root : Node) :
    ((onlyCommentLines text root).map Prod.snd).Nodup := by
  have rows : ((lines text).zipIdx.map Prod.snd).Nodup := by
    rw [List.zipIdx_map_snd]
    exact List.nodup_range'
  exact rows.sublist (List.filter_sublist.map Prod.snd)

theorem length_le_comments {text : List Char} {root : Node} {rows : List Nat} (nodup : rows.Nodup)
    (holds : ∀ row ∈ rows, HoldsComment root row) :
    rows.length ≤ (countLines text root).comments := by
  rw [comments_countLines_eq_card, ← List.toFinset_card_of_nodup nodup]
  refine Finset.card_le_card fun row mem => ?_
  obtain ⟨site, site_mem, comment, row_eq⟩ := holds row (List.mem_toFinset.mp mem)
  exact List.mem_toFinset.mpr
    (List.mem_map.mpr ⟨site, List.mem_filter.mpr ⟨site_mem, comment⟩, row_eq⟩)

/-- Every line of a parsed text that is counted as nothing but a comment holds a comment of its tree
or lies in a string literal that begins on an earlier line.  So these lines are no more than the
rows of comments and such lines of literals together, and where no such line lies in a literal each
holds a comment and they are no more than the rows of comments. -/
theorem only_comment_lines_hold_comments {text : List Char} {root : Node}
    (parsed : parse text = .ok root) :
    let count := countLines text root
    let only := onlyCommentLines text root
    pythonAnalyzer.lines text = .ok count ∧ count.onlyComment = only.length ∧
    (∀ entry ∈ only, HoldsComment root entry.2 ∨ InLiteral root entry.2) ∧
    count.onlyComment ≤ count.comments + only.countP (fun entry => InLiteral root entry.2) ∧
    ((∀ entry ∈ only, ¬ InLiteral root entry.2) →
      (∀ entry ∈ only, HoldsComment root entry.2) ∧ count.onlyComment ≤ count.comments) := by
  intro count only
  have counted : count.onlyComment = only.length := onlyComment_countLines text root
  have each : ∀ entry ∈ only, HoldsComment root entry.2 ∨ InLiteral root entry.2 := by
    rintro ⟨line, row⟩ mem
    obtain ⟨entry_mem, class_eq⟩ := List.mem_filter.mp mem
    have at_row : (lines text)[row]? = some line := List.mem_zipIdx_iff_getElem?.mp entry_mem
    exact holdsComment_or_inLiteral parsed at_row (of_decide_eq_true class_eq)
  have bound : count.onlyComment ≤
      count.comments + only.countP (fun entry => InLiteral root entry.2) := by
    let outside := only.filter fun entry => ¬ InLiteral root entry.2
    have holds : ∀ row ∈ outside.map Prod.snd, HoldsComment root row := by
      intro row mem
      obtain ⟨entry, entry_mem, rfl⟩ := List.mem_map.mp mem
      obtain ⟨entry_mem, not_inside⟩ := List.mem_filter.mp entry_mem
      exact (each entry entry_mem).resolve_right (of_decide_eq_true not_inside)
    have rows := (nodup_rows_onlyCommentLines text root).sublist
      (List.filter_sublist.map Prod.snd : (outside.map Prod.snd).Sublist _)
    have few : (outside.map Prod.snd).length ≤ count.comments := length_le_comments rows holds
    have split := List.length_eq_countP_add_countP
      (fun entry : List Char × Nat => decide (InLiteral root entry.2)) (l := only)
    rw [List.length_map, ← List.countP_eq_length_filter] at few
    simp only [decide_not] at few
    simp only [decide_eq_true_eq, decide_not] at split
    omega
  refine ⟨?_, counted, each, bound, fun outside => ⟨fun entry mem => ?_, ?_⟩⟩
  · exact congrArg (Except.map (countLines text)) parsed
  · exact (each entry mem).resolve_right (outside entry mem)
  · have none : only.countP (fun entry => InLiteral root entry.2) = 0 := by
      rw [List.countP_eq_zero]
      exact fun entry mem => mt of_decide_eq_true (outside entry mem)
    omega

/-- Two lines of code with a comment on a line of its own between them. -/
def commentBetween : List Char := "x = 1\n# note\ny = 2\n".toList

/-- The comment between two lines of code is on the one line that holds nothing else. -/
theorem commentBetween_holds_comment :
    ∃ root, parse commentBetween = .ok root ∧
      (onlyCommentLines commentBetween root).map Prod.snd = [1] ∧
      (∀ entry ∈ onlyCommentLines commentBetween root, HoldsComment root entry.2) ∧
      (countLines commentBetween root).onlyComment ≤ (countLines commentBetween root).comments := by
  have parsed : parse commentBetween = .ok (read commentBetween) :=
    Node.accept_eq_ok_iff.mpr ⟨by decide +kernel, rfl⟩
  obtain ⟨-, -, -, -, alone⟩ := only_comment_lines_hold_comments parsed
  exact ⟨_, parsed, by decide +kernel, alone (by decide +kernel)⟩

/-- A string over three lines, the second of which begins with a hash. -/
def hashInString : List Char := "x = \"\"\"\n# not a comment\n\"\"\"\n".toList

/-- A line of a string literal that is no statement of its own is counted as nothing but a comment,
though the text has no comment. -/
theorem hashInString_counts_no_comment :
    ∃ root, parse hashInString = .ok root ∧
      (onlyCommentLines hashInString root).map Prod.snd = [1] ∧
      ¬ HoldsComment root 1 ∧ InLiteral root 1 ∧
      (countLines hashInString root).comments < (countLines hashInString root).onlyComment := by
  have parsed : parse hashInString = .ok (read hashInString) :=
    Node.accept_eq_ok_iff.mpr ⟨by decide +kernel, rfl⟩
  exact ⟨_, parsed, by decide +kernel⟩

end Measurement

end CodeGauge
