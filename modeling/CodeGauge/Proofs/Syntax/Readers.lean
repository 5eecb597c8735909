import CodeGauge.Proofs.Syntax.Marks

/-!
# What readers take

A reader accounts for the tokens that it takes: the extras in front of them are in its phrase, and
each token is one that may stand anywhere or has a string of the phrase around it (`Takes`).  This
is kept by every way in which readers are put together (`Reader.Keeps`), so a grammar keeps it as
well, rule by rule.
-/

namespace CodeGauge.Syntax

/-- The shapes of tokens that may stand outside of strings. -/
def Shape.IsPlain (shape : Shape) : Prop :=
  shape ∈ [word, integer, decimal, sign, stringStart, conversion, finish]

instance Shape.instDecidableIsPlain (shape : Shape) : Decidable shape.IsPlain :=
  inferInstanceAs (Decidable (shape ∈ _))

/-- A token without what lies before it. -/
def Token.bare (token : Token) : Token := { token with gap := .empty .zero }

def extrasOf (tokens : List Token) : List Node := tokens.flatMap fun token => token.gap.extras

@[simp]
theorem extrasOf_nil : extrasOf [] = [] := rfl

@[simp]
theorem extrasOf_cons (token : Token) (others : List Token) :
    extrasOf (token :: others) = token.gap.extras ++ extrasOf others := rfl

/-- A string that some marks show begins before a token and does not end before it. -/
def Surrounds (marks : List Mark) (before : List Token) (token : Token) (after : List Token) :
    Prop :=
  ∃ opener ∈ before, opener.shape = .stringStart ∧
    ∃ closer ∈ token :: after, Mark.string opener.start.row closer.stop.row ∈ marks

/-- Each of some tokens has a shape that is free to stand anywhere, or some marks show a string
around it. -/
def Accounts (free : Shape → Prop) (marks : List Mark) (tokens : List Token) : Prop :=
  ∀ before token after, tokens = before ++ token :: after →
    free token.shape ∨ Surrounds marks before token after

namespace Accounts

variable {free : Shape → Prop} {marks more : List Mark}

theorem nil : Accounts free marks [] := by
  intro before token after split
  simp at split

theorem singleton {token : Token} (allowed : free token.shape) : Accounts free marks [token] := by
  intro before other after split
  obtain ⟨rfl, rfl, rfl⟩ : before = [] ∧ other = token ∧ after = [] := by
    cases before <;> simp_all
  exact .inl allowed

theorem mono {tokens : List Token} (accounts : Accounts free marks tokens)
    (grown : marks ⊆ more) : Accounts free more tokens := by
  intro before token after split
  refine (accounts before token after split).imp_right ?_
  rintro ⟨opener, opener_mem, opens, closer, closer_mem, mark⟩
  exact ⟨opener, opener_mem, opens, closer, closer_mem, grown mark⟩

/-- Further tokens on either side take nothing away from the strings around a token. -/
theorem append {first second : List Token} (left : Accounts free marks first)
    (right : Accounts free marks second) : Accounts free marks (first ++ second) := by
  intro before token after split
  rcases List.append_eq_append_iff.mp split with ⟨shift, rfl, second_eq⟩ | ⟨shift, rfl, rest_eq⟩
  · refine (right shift token after second_eq).imp_right ?_
    rintro ⟨opener, opener_mem, opens, closer⟩
    exact ⟨opener, List.mem_append_right _ opener_mem, opens, closer⟩
  · cases shift with
    | nil =>
        rw [List.nil_append] at rest_eq
        refine (right [] token after rest_eq.symm).imp_right ?_
        rintro ⟨opener, opener_mem, -⟩
        exact absurd opener_mem List.not_mem_nil
    | cons head shift =>
        obtain ⟨rfl, rfl⟩ := List.cons_eq_cons.mp rest_eq
        refine (left before token shift rfl).imp_right ?_
        rintro ⟨opener, opener_mem, opens, closer, closer_mem, mark⟩
        exact ⟨opener, opener_mem, opens, closer, List.mem_append_left second closer_mem, mark⟩

end Accounts

def AreWhole (tokens : List Token) : Prop := ∀ node ∈ extrasOf tokens, node.IsWhole

/-- A phrase that grew from an earlier one by tokens taken off a list.  Tokens whose
shapes are not free need a string around them. -/
structure Takes (free : Shape → Prop) (left : Phrase) (tokens : List Token) (phrase : Phrase)
    (rest : List Token) : Prop where
  kept : Phrase.marks left ⊆ Phrase.marks phrase
  /-- The extras in front of the tokens are in the phrase or still in front of the rest. -/
  extras : marksOf (extrasOf tokens) ⊆ Phrase.marks phrase ++ marksOf (extrasOf rest)
  whole : Phrase.IsWhole left → AreWhole tokens → Phrase.IsWhole phrase ∧ AreWhole rest
  /-- The tokens are those taken and the rest, apart from what lies before them. -/
  taken : ∃ taken, tokens.map Token.bare = taken ++ rest.map Token.bare ∧
    Accounts free (Phrase.marks phrase) taken

namespace Takes

variable {free : Shape → Prop} {left middle phrase others : Phrase}
  {tokens rest final : List Token}

theorem refl (left : Phrase) (tokens : List Token) : Takes free left tokens left tokens where
  kept := List.Subset.refl _
  extras := List.subset_append_right _ _
  whole := And.intro
  taken := ⟨[], rfl, .nil⟩

theorem trans (first : Takes free left tokens middle rest)
    (second : Takes free middle rest phrase final) : Takes free left tokens phrase final where
  kept := List.Subset.trans first.kept second.kept
  extras := by
    refine List.Subset.trans first.extras (List.append_subset.mpr ⟨?_, second.extras⟩)
    exact List.Subset.trans second.kept (List.subset_append_left _ _)
  whole left_whole tokens_whole := by
    obtain ⟨middle_whole, rest_whole⟩ := first.whole left_whole tokens_whole
    exact second.whole middle_whole rest_whole
  taken := by
    obtain ⟨taken, split, accounts⟩ := first.taken
    obtain ⟨more, rest_split, more_accounts⟩ := second.taken
    refine ⟨taken ++ more, ?_, (accounts.mono second.kept).append more_accounts⟩
    rw [split, rest_split, List.append_assoc]

/-- What continues a phrase continues it behind an earlier one too. -/
theorem behind (left : Phrase) (takes : Takes free middle tokens phrase rest) :
    Takes free (left ++ middle) tokens (left ++ phrase) rest where
  kept := by
    rw [Phrase.marks_append, Phrase.marks_append]
    exact List.append_subset.mpr ⟨List.subset_append_left _ _,
      List.Subset.trans takes.kept (List.subset_append_right _ _)⟩
  extras := by
    rw [Phrase.marks_append, List.append_assoc]
    exact List.Subset.trans takes.extras (List.subset_append_right _ _)
  whole both_whole tokens_whole := by
    obtain ⟨left_whole, middle_whole⟩ := Phrase.isWhole_append_iff.mp both_whole
    obtain ⟨phrase_whole, rest_whole⟩ := takes.whole middle_whole tokens_whole
    exact ⟨Phrase.isWhole_append_iff.mpr ⟨left_whole, phrase_whole⟩, rest_whole⟩
  taken := by
    obtain ⟨taken, split, accounts⟩ := takes.taken
    refine ⟨taken, split, accounts.mono ?_⟩
    rw [Phrase.marks_append]
    exact List.subset_append_right _ _

/-- What is taken after an earlier phrase goes behind it. -/
theorem after (left : Phrase) (takes : Takes free [] tokens phrase rest) :
    Takes free left tokens (left ++ phrase) rest := by
  have behind := takes.behind left
  rwa [List.append_nil] at behind

theorem derive (takes : Takes free left tokens middle rest) (derived : middle.Derives phrase) :
    Takes free left tokens phrase rest where
  kept := List.Subset.trans takes.kept derived.marks
  extras := by
    refine List.Subset.trans takes.extras (List.append_subset.mpr ⟨?_, ?_⟩)
    · exact List.Subset.trans derived.marks (List.subset_append_left _ _)
    · exact List.subset_append_right _ _
  whole left_whole tokens_whole :=
    (takes.whole left_whole tokens_whole).imp_left derived.whole
  taken := by
    obtain ⟨taken, split, accounts⟩ := takes.taken
    exact ⟨taken, split, accounts.mono derived.marks⟩

theorem anything (takes : Takes free left tokens phrase rest) :
    Takes (fun _ => True) left tokens phrase rest where
  kept := takes.kept
  extras := takes.extras
  whole := takes.whole
  taken := by
    obtain ⟨taken, split, -⟩ := takes.taken
    exact ⟨taken, split, fun _ _ _ _ => .inl trivial⟩

end Takes

namespace Reader

variable {reader first second : Reader} {scope : Scope} {tokens rest : List Token} {phrase : Phrase}

theorem bind_eq_some_iff {next : Phrase → Reader} :
    reader.bind next scope tokens = some (phrase, rest) ↔
      ∃ begun between, reader scope tokens = some (begun, between) ∧
        next begun scope between = some (phrase, rest) := by
  unfold bind
  cases reader scope tokens with
  | none => simp
  | some result =>
      obtain ⟨begun, between⟩ := result
      simp

theorem map_eq_some_iff {change : Phrase → Phrase} :
    reader.map change scope tokens = some (phrase, rest) ↔
      ∃ begun, reader scope tokens = some (begun, rest) ∧ phrase = change begun := by
  unfold map
  cases reader scope tokens with
  | none => simp
  | some result => simp [Prod.ext_iff, eq_comm, and_comm]

theorem append_eq_some_iff :
    (first ++ second) scope tokens = some (phrase, rest) ↔
      ∃ begun between ended, first scope tokens = some (begun, between) ∧
        second scope between = some (ended, rest) ∧ phrase = begun ++ ended := by
  change append first second scope tokens = _ ↔ _
  unfold append
  cases first scope tokens with
  | none => simp
  | some result =>
      obtain ⟨begun, between⟩ := result
      cases ended : second scope between with
      | none => simp [ended]
      | some result => simp [ended, Prod.ext_iff, eq_comm, and_comm]

/-- A reader that continues a phrase, or begins one if that is empty, and accounts for every token
that it takes. -/
def Keeps (free : Shape → Prop) (left : Phrase) (reader : Reader) : Prop :=
  ∀ scope tokens phrase rest, reader scope tokens = some (phrase, rest) →
    Takes free left tokens phrase rest

variable {free : Shape → Prop} {left : Phrase}

namespace Keeps

theorem fail : Keeps free left fail := by
  intro scope tokens phrase rest read
  exact absurd read (Option.some_ne_none _).symm

theorem pure {phrase : Phrase} (derived : left.Derives phrase) :
    Keeps free left (pure phrase) := by
  intro scope tokens phrase rest read
  obtain ⟨rfl, rfl⟩ := Prod.mk.inj (Option.some.inj read)
  exact (Takes.refl left tokens).derive derived

theorem empty : Keeps free [] empty := Keeps.pure (.refl [])

theorem bind {next : Phrase → Reader} (begins : Keeps free [] reader)
    (goes_on : ∀ phrase, Keeps free (left ++ phrase) (next phrase)) :
    Keeps free left (reader.bind next) := by
  intro scope tokens phrase rest read
  obtain ⟨begun, between, first_read, read⟩ := bind_eq_some_iff.mp read
  exact ((begins _ _ _ _ first_read).after left).trans (goes_on begun _ _ _ _ read)

theorem bind_rest {next : Phrase → Reader} {middle : Phrase} (begins : Keeps free middle reader)
    (goes_on : ∀ phrase, Keeps free (left ++ phrase) (next phrase)) :
    Keeps free (left ++ middle) (reader.bind next) := by
  intro scope tokens phrase rest read
  obtain ⟨begun, between, first_read, read⟩ := bind_eq_some_iff.mp read
  exact ((begins _ _ _ _ first_read).behind left).trans (goes_on begun _ _ _ _ read)

theorem map {change : Phrase → Phrase} (begins : Keeps free [] reader)
    (derived : ∀ phrase, Phrase.Derives (left ++ phrase) (change phrase)) :
    Keeps free left (reader.map change) := by
  intro scope tokens phrase rest read
  obtain ⟨begun, begun_read, rfl⟩ := map_eq_some_iff.mp read
  exact ((begins _ _ _ _ begun_read).after left).derive (derived begun)

theorem refine {change : Phrase → Option Phrase} (begins : Keeps free [] reader)
    (derived : ∀ phrase changed, change phrase = some changed → phrase.Derives changed) :
    Keeps free [] (reader.refine change) := by
  intro scope tokens phrase rest read
  unfold Reader.refine at read
  split at read
  · exact absurd read (Option.some_ne_none _).symm
  · rename_i middle between begun
    obtain ⟨changed, changed_eq, found⟩ := Option.map_eq_some_iff.mp read
    obtain ⟨rfl, rfl⟩ := Prod.mk.inj found
    exact (begins _ _ _ _ begun).derive (derived middle _ changed_eq)

theorem append (begins : Keeps free [] first) (goes_on : Keeps free [] second) :
    Keeps free [] (first ++ second) := by
  intro scope tokens phrase rest read
  obtain ⟨begun, between, ended, first_read, second_read, rfl⟩ := append_eq_some_iff.mp read
  exact (begins _ _ _ _ first_read).trans ((goes_on _ _ _ _ second_read).after begun)

theorem filtered {test : Phrase → Bool} (reads : Keeps free [] reader) :
    Keeps free []
      (reader.refine fun phrase => if test phrase then some phrase else none) := by
  refine reads.refine fun phrase changed passed => ?_
  split at passed
  · exact Option.some.inj passed ▸ .refl phrase
  · exact absurd passed (Option.some_ne_none _).symm

theorem either (one : Keeps free left first) (other : Keeps free left second) :
    Keeps free left (either first second) := by
  intro scope tokens phrase rest read
  unfold Reader.either at read
  split at read
  · exact other _ _ _ _ read
  · rename_i result begun
    exact one _ _ _ _ (begun.trans read)

theorem optional (reads : Keeps free [] reader) : Keeps free [] (optional reader) :=
  reads.either .empty

theorem wrap {kind : String} (proper : kind ≠ "comment") (reads : Keeps free [] reader) :
    Keeps free [] (wrap kind reader) :=
  reads.map fun phrase => (Phrase.Derives.refl phrase).wrap proper

theorem named {field : String} (reads : Keeps free [] reader) :
    Keeps free [] (named field reader) :=
  reads.map fun phrase => (Phrase.Derives.refl phrase).named

theorem times (reads : Keeps free [] reader) : ∀ count, Keeps free [] (times reader count)
  | 0 => .empty
  | count + 1 => by
      intro scope tokens phrase rest read
      unfold Reader.times at read
      split at read
      · obtain ⟨rfl, rfl⟩ := Prod.mk.inj (Option.some.inj read)
        exact .refl [] tokens
      · rename_i middle between begun
        split at read
        · exact absurd read (Option.some_ne_none _).symm
        · rename_i others final ended
          obtain ⟨rfl, rfl⟩ := Prod.mk.inj (Option.some.inj read)
          exact (reads _ _ _ _ begun).trans ((times reads count _ _ _ _ ended).after middle)

theorem many (reads : Keeps free [] reader) : Keeps free [] (many reader) :=
  fun scope => reads.times scope.allowance scope

theorem oneOrMore (reads : Keeps free [] reader) : Keeps free [] (oneOrMore reader) :=
  reads.append reads.many

theorem growTimes {extend : Phrase → Reader}
    (extends_ : ∀ phrase, Keeps free phrase (extend phrase)) :
    ∀ count left, Keeps free left (growTimes extend count left)
  | 0, left => .pure (.refl left)
  | count + 1, left => by
      intro scope tokens phrase rest read
      unfold Reader.growTimes at read
      split at read
      · obtain ⟨rfl, rfl⟩ := Prod.mk.inj (Option.some.inj read)
        exact .refl left tokens
      · rename_i middle between begun
        exact (extends_ left _ _ _ _ begun).trans (growTimes extends_ count middle _ _ _ _ read)

theorem grow {extend : Phrase → Reader} (extends_ : ∀ phrase, Keeps free phrase (extend phrase))
    (left : Phrase) : Keeps free left (grow extend left) :=
  fun scope => growTimes extends_ scope.allowance left scope

theorem within {change : Scope → Scope} (reads : Keeps free left reader) :
    Keeps free left (within change reader) :=
  fun scope => reads (change scope)

theorem bracketed (reads : Keeps free left reader) : Keeps free left (bracketed reader) :=
  reads.within

theorem inner (reads : Keeps free left reader) : Keeps free left (inner reader) := reads.within

theorem lined (reads : Keeps free left reader) : Keeps free left (lined reader) := reads.within

theorem ite {test : Scope → List Token → Bool} (yes : Keeps free left first)
    (no : Keeps free left second) :
    Keeps free left fun scope tokens =>
      if test scope tokens then first scope tokens else second scope tokens := by
  intro scope tokens phrase rest read
  dsimp only at read
  split at read
  · exact yes _ _ _ _ read
  · exact no _ _ _ _ read

theorem joined (reads : Keeps free left reader) : Keeps free left (joined reader) :=
  ite .fail reads

theorem staying (reads : Keeps free left reader) : Keeps free left (staying reader) :=
  ite .fail reads

theorem before {test : Token → Bool} (reads : Keeps free left reader) :
    Keeps free left (before test reader) :=
  ite reads .fail

theorem notBefore {test : Token → Bool} (reads : Keeps free left reader) :
    Keeps free left (notBefore test reader) :=
  ite .fail reads

theorem ifAhead {test : List Token → Bool} (yes : Keeps free left first)
    (no : Keeps free left second) : Keeps free left (ifAhead test first second) :=
  ite yes no

theorem ifNext {test : Token → Bool} (yes : Keeps free left first)
    (no : Keeps free left second) : Keeps free left (ifNext test first second) :=
  yes.ifAhead no

theorem ifJoined {test : List Token → Bool} (yes : Keeps free left first)
    (no : Keeps free left second) : Keeps free left (ifJoined test first second) :=
  ite yes no

theorem listOf {comma : String} (sign : Keeps free [] (sign comma)) (one : Keeps free [] first)
    (more : Keeps free [] second) : Keeps free [] (listOf first second comma) :=
  (one.append (sign.joined.append more.joined).many).append sign.joined.optional

theorem separated {comma : String} (sign : Keeps free [] (sign comma))
    (reads : Keeps free [] reader) : Keeps free [] (separated reader comma) :=
  reads.append (sign.joined.append reads).many

theorem anything (reads : Keeps free left reader) : Keeps (fun _ => True) left reader :=
  fun scope tokens phrase rest read => (reads scope tokens phrase rest read).anything

end Keeps

theorem token_eq_some {choose : Token → Option (String × Bool)} {scope : Scope}
    {tokens rest : List Token} {phrase : Phrase}
    (read : token choose scope tokens = some (phrase, rest)) :
    ∃ first kind isNamed, tokens = first :: rest ∧ choose first = some (kind, isNamed) ∧
      phrase = [item kind isNamed first] := by
  unfold token at read
  split at read
  · exact absurd read (Option.some_ne_none _).symm
  · rename_i first others
    split at read
    · obtain ⟨⟨kind, isNamed⟩, chosen, found⟩ := Option.map_eq_some_iff.mp read
      obtain ⟨rfl, rfl⟩ := Prod.mk.inj found
      exact ⟨first, kind, isNamed, rfl, chosen, rfl⟩
    · exact absurd read (Option.some_ne_none _).symm

theorem areWhole_cons_iff {token : Token} {others : List Token} :
    AreWhole (token :: others) ↔ (∀ node ∈ token.gap.extras, node.IsWhole) ∧ AreWhole others :=
  List.forall_mem_append

theorem takes_item {token : Token} {new : Item} (rest : List Token) (allowed : free token.shape)
    (lead : new.lead = token.gap.extras) (whole : new.node.IsWhole) :
    Takes free [] (token :: rest) [new] rest where
  kept := List.nil_subset _
  extras := by
    rw [extrasOf_cons, marksOf_append, Phrase.marks_cons, Item.shown, lead, marksOf_append,
      List.append_assoc, List.append_assoc]
    refine List.append_subset.mpr ⟨List.subset_append_left _ _, ?_⟩
    exact List.Subset.trans (List.subset_append_right _ _) (List.subset_append_right _ _)
  whole _ tokens_whole := by
    obtain ⟨extras_whole, rest_whole⟩ := areWhole_cons_iff.mp tokens_whole
    exact ⟨List.forall_mem_singleton.mpr ⟨lead ▸ extras_whole, whole⟩, rest_whole⟩
  taken := ⟨[token.bare], rfl, .singleton allowed⟩

theorem Keeps.token {choose : Token → Option (String × Bool)}
    (allowed : ∀ first, (choose first).isSome = true → free first.shape) :
    Keeps free [] (token choose) := by
  intro scope tokens phrase rest read
  obtain ⟨first, kind, isNamed, rfl, chosen, rfl⟩ := token_eq_some read
  exact takes_item rest (allowed first (by rw [chosen]; rfl)) rfl
    (Node.isWhole_leaf kind isNamed _ _)

theorem Keeps.tokenIf {test : Token → Bool} {kind : Token → String × Bool} (shape : Shape)
    (shaped : ∀ first, test first = true → first.shape = shape)
    (allowed : free shape) :
    Keeps free [] (Reader.token fun first => if test first then some (kind first) else none) := by
  refine Keeps.token fun first chosen => ?_
  split at chosen
  · rename_i passed
    exact shaped first passed ▸ allowed
  · exact absurd chosen Bool.false_ne_true

theorem shape_of_isWord {text : String} {first : Token} (passed : isWord text first = true) :
    first.shape = .word := by
  simp only [isWord, Bool.and_eq_true, beq_iff_eq] at passed
  exact passed.1

theorem shape_of_isSign {text : String} {first : Token} (passed : isSign text first = true) :
    first.shape = .sign := by
  simp only [isSign, Bool.and_eq_true, beq_iff_eq] at passed
  exact passed.1

theorem shape_of_and {shape : Shape} {test : Bool} {first : Token}
    (passed : (first.shape == shape && test) = true) : first.shape = shape := by
  simp only [Bool.and_eq_true, beq_iff_eq] at passed
  exact passed.1

theorem keeps_word (text : String) : Keeps Shape.IsPlain [] (word text) :=
  .tokenIf .word (fun _ => shape_of_isWord) (by decide)

theorem keeps_sign (text : String) : Keeps Shape.IsPlain [] (sign text) :=
  .tokenIf .sign (fun _ => shape_of_isSign) (by decide)

theorem keeps_anySign (texts : List String) : Keeps Shape.IsPlain [] (anySign texts) :=
  .tokenIf .sign (fun _ => shape_of_and) (by decide)

theorem keeps_nameExcept (words : List String) : Keeps Shape.IsPlain [] (nameExcept words) :=
  .tokenIf .word (fun _ => shape_of_and) (by decide)

theorem keeps_shape {shape : Shape} (allowed : free shape) (kind : String) :
    Keeps free [] (Reader.shape shape kind) :=
  .tokenIf shape (fun _ => eq_of_beq) allowed

theorem keeps_name : Keeps Shape.IsPlain [] name := keeps_shape (by decide) "identifier"

theorem takes_hidden {token : Token} {new : Item} {gap : Gap} (rest : List Token)
    (hidden : new.hidden = true) (split : token.gap.extras = new.lead ++ gap.extras)
    (whole : new.node.IsWhole) :
    Takes free [] (token :: rest) [new] ({ token with gap } :: rest) where
  kept := List.nil_subset _
  extras := by
    rw [extrasOf_cons, extrasOf_cons, split, Phrase.marks_cons, Item.shown, Item.visible, hidden,
      if_pos rfl, Phrase.marks_nil]
    simp only [marksOf_append, List.append_nil, List.append_assoc]
    exact List.Subset.refl _
  whole _ tokens_whole := by
    obtain ⟨extras_whole, rest_whole⟩ := areWhole_cons_iff.mp tokens_whole
    rw [split, List.forall_mem_append] at extras_whole
    exact ⟨List.forall_mem_singleton.mpr ⟨extras_whole.1, whole⟩,
      areWhole_cons_iff.mpr ⟨extras_whole.2, rest_whole⟩⟩
  taken := ⟨[], rfl, .nil⟩

theorem takes_edge (token : Token) (rest : List Token) :
    Takes free [] (token :: rest) [(edge token.gap).1]
      ({ token with gap := (edge token.gap).2 } :: rest) :=
  takes_hidden rest rfl rfl (Node.isWhole_leaf "" false _ _)

theorem keeps_newline : Keeps free [] newline := by
  intro scope tokens phrase rest read
  unfold newline at read
  split at read
  · exact absurd read (Option.some_ne_none _).symm
  · rename_i token others
    split at read
    · obtain ⟨rfl, rfl⟩ := Prod.mk.inj (Option.some.inj read)
      exact takes_edge token others
    · exact absurd read (Option.some_ne_none _).symm

theorem splitExtras_append (block : Nat) (extras : List (Option Nat × Node)) :
    (splitExtras block extras).1 ++ (splitExtras block extras).2 = extras := by
  induction extras with
  | nil => rfl
  | cons extra others ih =>
      rw [splitExtras]
      split
      · exact congrArg (extra :: ·) ih
      · rfl

theorem keeps_dedent : Keeps free [] dedent := by
  intro scope tokens phrase rest read
  unfold dedent at read
  split at read
  · exact absurd read (Option.some_ne_none _).symm
  · rename_i token others
    split at read
    · obtain ⟨rfl, rfl⟩ := Prod.mk.inj (Option.some.inj read)
      refine takes_hidden others rfl ?_ (Node.isWhole_leaf "" false _ _)
      have split := splitExtras_append scope.block token.gap.far
      rw [Gap.extras, Gap.extras, List.nil_append, List.append_assoc, ← List.map_append, split]
    · exact absurd read (Option.some_ne_none _).symm

theorem Keeps.indented (reads : Keeps free [] reader) : Keeps free [] (indented reader) := by
  intro scope tokens phrase rest read
  unfold Reader.indented at read
  split at read
  · exact absurd read (Option.some_ne_none _).symm
  · rename_i token others
    split at read
    · dsimp only at read
      split at read
      · exact absurd read (Option.some_ne_none _).symm
      · rename_i deeper final ended
        obtain ⟨rfl, rfl⟩ := Prod.mk.inj (Option.some.inj read)
        exact (takes_edge token others).trans ((reads _ _ _ _ ended).after [_])
    · exact absurd read (Option.some_ne_none _).symm

theorem mem_marks_wrap_string (first last : Item) (inner : Phrase) :
    Mark.string first.node.label.start.row last.node.label.stopRow ∈
      Phrase.marks (Phrase.wrap "string" (first :: (inner ++ [last]))) := by
  rw [Phrase.wrap, Phrase.wrapAs, Phrase.marks_cons, Item.shown, marksOf_append]
  refine List.mem_append_left _ (List.mem_append_right _ ?_)
  rw [Item.visible, if_neg Bool.false_ne_true, marksOf_singleton]
  refine List.mem_append_left _ (Option.mem_toList.mpr ?_)
  simp [Label.mark?]

/-- Between the tokens of its quotes a string may take anything. -/
theorem Keeps.enclosed {middle : Reader} (reads : Keeps (fun _ => True) [] middle) :
    Keeps Shape.IsPlain []
      (Reader.wrap "string"
        (shape .stringStart "string_start" ++ middle ++ shape .stringEnd "string_end")) := by
  intro scope tokens phrase rest read
  have takes : Takes (fun _ => True) [] tokens phrase rest :=
    (((keeps_shape trivial _).append reads).append (keeps_shape trivial _)).wrap (by decide) _ _ _ _
      read
  refine ⟨takes.kept, takes.extras, takes.whole, ?_⟩
  obtain ⟨_, whole_read, rfl⟩ := map_eq_some_iff.mp read
  obtain ⟨_, between, _, begun_read, closer_read, rfl⟩ := append_eq_some_iff.mp whole_read
  obtain ⟨_, inside, inner, opener_read, inner_read, rfl⟩ := append_eq_some_iff.mp begun_read
  obtain ⟨opener, _, _, rfl, opens, rfl⟩ := token_eq_some opener_read
  obtain ⟨closer, _, _, rfl, -, rfl⟩ := token_eq_some closer_read
  obtain ⟨taken, split, -⟩ := (reads _ _ _ _ inner_read).taken
  have opens : opener.shape = .stringStart := by
    by_contra other
    simp [other] at opens
  refine ⟨opener.bare :: taken ++ [closer.bare], by simp [split], ?_⟩
  intro before token after parts
  cases before with
  | nil =>
      obtain ⟨rfl, -⟩ := List.cons_eq_cons.mp parts
      exact .inl (opens ▸ (by decide : Shape.IsPlain .stringStart))
  | cons head before =>
      obtain ⟨rfl, parts⟩ := List.cons_eq_cons.mp parts
      have closer_mem : closer.bare ∈ token :: after := by
        have same_last := congrArg List.getLast? parts
        rw [List.getLast?_concat, List.getLast?_append_cons] at same_last
        exact List.mem_of_getLast? same_last.symm
      exact .inr ⟨opener.bare, List.mem_cons_self, opens, closer.bare, closer_mem,
        mem_marks_wrap_string (item _ _ opener) (item _ _ closer) inner⟩

end Reader

end CodeGauge.Syntax
