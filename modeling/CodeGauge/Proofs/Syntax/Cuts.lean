import CodeGauge.Proofs.Syntax.Readers
import CodeGauge.Text.Basic
import Mathlib.Data.List.TakeWhile

/-!
# What is cut off a text

The scanner cuts tokens off the front of the text, so a token and the rest after it are the text
(`Cut.IsOff`).  A token that may stand outside of strings holds no hash, and one that opens a string
begins with a character that is not blank.
-/

namespace CodeGauge.Syntax

/-- A front part of a text without a hash, and the rest. -/
structure IsPiece (text : List Char) (piece : List Char × List Char) : Prop where
  split : text = piece.1 ++ piece.2
  plain : '#' ∉ piece.1

namespace IsPiece

variable {text front middle rest : List Char} {first second : List Char}

theorem nil (text : List Char) : IsPiece text ([], text) := ⟨rfl, List.not_mem_nil⟩

theorem cons {c : Char} (plain : c ≠ '#') (piece : IsPiece text (front, rest)) :
    IsPiece (c :: text) (c :: front, rest) :=
  ⟨congrArg (c :: ·) piece.split, List.not_mem_cons_of_ne_of_not_mem plain.symm piece.plain⟩

theorem append (left : IsPiece text (first, middle)) (right : IsPiece middle (second, rest)) :
    IsPiece text (first ++ second, rest) := by
  refine ⟨?_, List.not_mem_append left.plain right.plain⟩
  have splits : text = first ++ (second ++ rest) := right.split ▸ left.split
  rw [splits, List.append_assoc]

theorem takeWhile {test : Char → Bool} (plain : test '#' = false) (text : List Char) :
    IsPiece text (text.takeWhile test, text.dropWhile test) := by
  refine ⟨List.takeWhile_append_dropWhile.symm, fun mem => ?_⟩
  exact Bool.false_ne_true (plain.symm.trans (List.mem_takeWhile_imp mem))

end IsPiece

theorem isPiece_takeDigits {isDigit : Char → Bool} (plain : isDigit '#' = false)
    (afterDigit : Bool) (text : List Char) : IsPiece text (takeDigits isDigit afterDigit text) := by
  induction text generalizing afterDigit with
  | nil => exact .nil []
  | cons c text ih =>
      rw [takeDigits]
      split
      · rename_i digit
        exact (ih true).cons fun hash => by simp [hash, plain] at digit
      · split
        · rename_i underscore
          exact (ih false).cons fun hash => by simp [hash] at underscore
        · exact .nil _

theorem isPiece_takeRadix {isDigit : Char → Bool} (plain : isDigit '#' = false)
    (text : List Char) : IsPiece text (takeRadix isDigit text) := by
  induction text with
  | nil => exact .nil []
  | cons c text ih =>
      rw [takeRadix]
      split
      · rename_i digit
        exact ih.cons fun hash => by simp [hash, plain] at digit
      · split
        · rename_i underscore
          exact ih.cons fun hash => by simp [hash] at underscore
        · exact .nil _

theorem isPiece_takeOne {set : List Char} (plain : '#' ∉ set) (text : List Char) :
    IsPiece text (takeOne set text) := by
  cases text with
  | nil => exact .nil []
  | cons c text =>
      rw [takeOne]
      split
      · rename_i held
        refine (IsPiece.nil text).cons fun hash => plain ?_
        exact hash ▸ List.contains_iff_mem.mp held
      · exact .nil _

theorem isPiece_takeDecimal (text : List Char) : IsPiece text (takeDecimal text) :=
  isPiece_takeDigits (by decide) false text

theorem isPiece_takeExponent (text : List Char) : IsPiece text (takeExponent text) := by
  have letters := isPiece_takeOne (by decide : '#' ∉ ['e', 'E']) text
  unfold takeExponent
  split
  · exact .nil text
  · rename_i letter afterLetter _ letter_eq
    rw [letter_eq] at letters
    have signs := isPiece_takeOne (by decide : '#' ∉ ['+', '-']) afterLetter
    rcases sign_eq : takeOne ['+', '-'] afterLetter with ⟨sign, afterSign⟩
    rw [sign_eq] at signs
    have decimals := isPiece_takeDecimal afterSign
    dsimp only
    split
    · exact .nil text
    · rename_i digits rest _ digits_eq
      rw [digits_eq] at decimals
      exact (letters.append signs).append decimals

theorem radixDigit?_plain {letter : Char} {isDigit : Char → Bool}
    (found : radixDigit? letter = some isDigit) : letter ≠ '#' ∧ isDigit '#' = false := by
  unfold radixDigit? at found
  refine ⟨fun hash => by simp [hash] at found, ?_⟩
  split_ifs at found <;> (obtain rfl := Option.some.inj found; decide)

theorem isPiece_takeRadixNumber? {text : List Char} {piece : List Char × List Char}
    (found : takeRadixNumber? text = some piece) : IsPiece text piece := by
  unfold takeRadixNumber? at found
  split at found
  · rename_i letter rest
    obtain ⟨isDigit, radix, found⟩ := Option.bind_eq_some_iff.mp found
    obtain ⟨letter_plain, digit_plain⟩ := radixDigit?_plain radix
    have digits := isPiece_takeRadix digit_plain rest
    split at found
    · exact absurd found (Option.some_ne_none _).symm
    · rename_i front others _ front_eq
      obtain rfl := Option.some.inj found
      rw [front_eq] at digits
      have marks := isPiece_takeOne (by decide : '#' ∉ ['l', 'L']) others
      exact ((digits.cons letter_plain).cons (by decide)).append marks
  · exact absurd found (Option.some_ne_none _).symm

theorem isPiece_takeNumber (text : List Char) :
    IsPiece text (takeNumber text).2 ∧
      ((takeNumber text).1 = .integer ∨ (takeNumber text).1 = .decimal) := by
  unfold takeNumber
  split
  · rename_i digits rest found
    exact ⟨isPiece_takeRadixNumber? found, .inl rfl⟩
  · have decimals := isPiece_takeDecimal text
    rcases whole_eq : takeDecimal text with ⟨whole, rest⟩
    rw [whole_eq] at decimals
    dsimp only
    split
    · rename_i afterPoint
      have fractions := isPiece_takeDecimal afterPoint
      rcases fraction_eq : takeDecimal afterPoint with ⟨fraction, afterFraction⟩
      rw [fraction_eq] at fractions
      have exponents := isPiece_takeExponent afterFraction
      rcases exponent_eq : takeExponent afterFraction with ⟨exponent, afterExponent⟩
      rw [exponent_eq] at exponents
      have marks := isPiece_takeOne (by decide : '#' ∉ ['j', 'J']) afterExponent
      have point := fractions.cons (by decide : '.' ≠ '#')
      exact ⟨((decimals.append point).append exponents).append marks, .inr rfl⟩
    · have exponents := isPiece_takeExponent rest
      split
      · have marks := isPiece_takeOne (by decide : '#' ∉ ['l', 'L', 'j', 'J']) rest
        exact ⟨decimals.append marks, .inl rfl⟩
      · rename_i exponent afterExponent _ exponent_eq
        rw [exponent_eq] at exponents
        have marks := isPiece_takeOne (by decide : '#' ∉ ['j', 'J']) afterExponent
        exact ⟨(decimals.append exponents).append marks, .inr rfl⟩

theorem isBlank_eq_false_of_isStringLetter {c : Char} (letter : isStringLetter c = true) :
    Text.isBlank c = false := by
  have visible :
      (['f', 'F', 'r', 'R', 'b', 'B', 'u', 'U'].all fun c => !Text.isBlank c) = true := by
    decide
  have mem := List.contains_iff_mem.mp letter
  simpa using List.all_eq_true.mp visible c mem

theorem isPiece_takeStringStart? {text start rest : List Char} {delimiter : Delimiter}
    (found : takeStringStart? text = some (delimiter, start, rest)) :
    IsPiece text (start, rest) ∧ ∃ first others, start = first :: others ∧
      Text.isBlank first = false := by
  have letters : IsPiece text (text.takeWhile isStringLetter, text.dropWhile isStringLetter) :=
    .takeWhile (by decide) text
  have opens {first : Char} {others after : List Char} (visible : Text.isBlank first = false)
      (split : text.dropWhile isStringLetter = first :: others ++ after)
      (plain : '#' ∉ first :: others) :
      IsPiece text (text.takeWhile isStringLetter ++ first :: others, after) ∧
        ∃ c tail, text.takeWhile isStringLetter ++ first :: others = c :: tail ∧
          Text.isBlank c = false := by
    refine ⟨letters.append ⟨split, plain⟩, ?_⟩
    cases front : text.takeWhile isStringLetter with
    | nil => exact ⟨first, others, rfl, visible⟩
    | cons c tail =>
        have letter : isStringLetter c = true :=
          List.mem_takeWhile_imp (front ▸ List.mem_cons_self)
        exact ⟨c, _, rfl, isBlank_eq_false_of_isStringLetter letter⟩
  unfold takeStringStart? at found
  dsimp only at found
  split at found
  case h_6 => exact absurd found (Option.some_ne_none _).symm
  all_goals
    rename_i after front
    obtain ⟨-, found⟩ := Prod.mk.inj (Option.some.inj found)
    obtain ⟨rfl, rfl⟩ := Prod.mk.inj found
    exact opens (by decide) front (by decide)

theorem takeStringEnd?_append {delimiter : Delimiter} {text quotes rest : List Char}
    (found : takeStringEnd? delimiter text = some (quotes, rest)) : text = quotes ++ rest := by
  unfold takeStringEnd? at found
  split at found
  · exact absurd found (Option.some_ne_none _).symm
  · split_ifs at found
    · split at found
      · split_ifs at found with same
        obtain ⟨rfl, rfl⟩ := same
        obtain ⟨rfl, rfl⟩ := Prod.mk.inj (Option.some.inj found)
        rfl
      · exact absurd found (Option.some_ne_none _).symm
    · obtain ⟨rfl, rfl⟩ := Prod.mk.inj (Option.some.inj found)
      rfl

theorem takeHex?_append {count : Nat} {text digits rest : List Char}
    (found : takeHex? count text = some (digits, rest)) : text = digits ++ rest := by
  unfold takeHex? at found
  dsimp only at found
  split at found
  · obtain ⟨rfl, rfl⟩ := Prod.mk.inj (Option.some.inj found)
    exact (List.take_append_drop count text).symm
  · exact absurd found (Option.some_ne_none _).symm

theorem takeEscape?_append {text escape rest : List Char}
    (found : takeEscape? text = some (escape, rest)) : text = escape ++ rest := by
  unfold takeEscape? at found
  split at found
  · exact absurd found (Option.some_ne_none _).symm
  · rename_i c others
    have hex {count : Nat}
        (found : ((takeHex? count others).map fun piece => (c :: piece.1, piece.2)) =
          some (escape, rest)) : c :: others = escape ++ rest := by
      obtain ⟨⟨digits, after⟩, digits_eq, found⟩ := Option.map_eq_some_iff.mp found
      obtain ⟨rfl, rfl⟩ := Prod.mk.inj found
      exact congrArg (c :: ·) (takeHex?_append digits_eq)
    have single {c : Char} (found : some ([c], others) = some (escape, rest)) :
        c :: others = escape ++ rest := by
      obtain ⟨rfl, rfl⟩ := Prod.mk.inj (Option.some.inj found)
      rfl
    dsimp only at found
    split_ifs at found with short long byte capital digit feed back plain
    · exact hex found
    · exact hex found
    · exact hex found
    · -- a character by its name in braces
      obtain rfl := capital
      split at found
      · rename_i name
        split at found
        · rename_i close_eq
          obtain ⟨rfl, rfl⟩ := Prod.mk.inj (Option.some.inj found)
          have name_eq := List.takeWhile_append_dropWhile (p := (· ≠ '}')) (l := name)
          rw [close_eq] at name_eq
          rw [List.append_assoc]
          exact congrArg ('N' :: '{' :: ·) name_eq.symm
        · exact absurd found (Option.some_ne_none _).symm
      · exact absurd found (Option.some_ne_none _).symm
    · -- at most three digits
      obtain ⟨rfl, rfl⟩ := Prod.mk.inj (Option.some.inj found)
      have front := (List.takeWhile_prefix Char.isDigit).trans
        (List.take_prefix 3 (c :: others))
      exact (List.prefix_iff_eq_append.mp front).symm
    · exact single found
    · split at found
      · obtain ⟨rfl, rfl⟩ := Prod.mk.inj (Option.some.inj found)
        rfl
      · exact absurd found (Option.some_ne_none _).symm
    · exact single found

theorem takeContent_append {delimiter : Delimiter} {begun : Bool} {forced : Nat}
    {text content rest : List Char}
    (found : takeContent delimiter begun forced text = (content, rest)) :
    text = content ++ rest := by
  have split : (takeContent delimiter begun forced text).1 ++
      (takeContent delimiter begun forced text).2 = text := by
    clear found
    induction text generalizing begun forced with
    | nil => cases forced <;> rfl
    | cons c text ih =>
        cases forced with
        | succ forced =>
            rw [takeContent]
            exact congrArg (c :: ·) ih
        | zero =>
            rw [takeContent]
            split
            · rfl
            · exact congrArg (c :: ·) ih
  rw [found] at split
  exact split.symm

/-- A token that is cut off the front of a text. -/
structure Cut.IsOff (cut : Cut) (text : List Char) : Prop where
  split : text = cut.text ++ cut.rest
  plain : cut.shape.IsPlain → '#' ∉ cut.text
  /-- The opening of a string begins with a character that is not blank. -/
  opens : cut.shape = .stringStart → ∃ first others, cut.text = first :: others ∧
    Text.isBlank first = false
  goes_on : cut.shape ≠ .finish

namespace Cut.IsOff

variable {text front rest : List Char} {shape : Shape} {openings : List Opening}

theorem ofHidden (split : text = front ++ rest) (hidden : ¬ shape.IsPlain) :
    (Cut.mk shape front openings rest).IsOff text where
  split := split
  plain allowed := absurd allowed hidden
  opens opening := absurd ((congrArg Shape.IsPlain opening).mpr (by decide)) hidden
  goes_on finish := absurd ((congrArg Shape.IsPlain finish).mpr (by decide)) hidden

theorem ofPiece (piece : IsPiece text (front, rest)) (closed : shape ≠ .stringStart)
    (goes_on : shape ≠ .finish) : (Cut.mk shape front openings rest).IsOff text where
  split := piece.split
  plain _ := piece.plain
  opens opening := absurd opening closed
  goes_on := goes_on

end Cut.IsOff

theorem isOff_cutText (delimiter : Delimiter) (openings : List Opening) (text : List Char) :
    (cutText delimiter openings text).IsOff text := by
  unfold cutText
  dsimp only
  split
  · rename_i quotes rest found
    exact .ofHidden (takeStringEnd?_append found) (by decide)
  · split
    · exact .ofHidden rfl (by decide)
    · exact .ofHidden rfl (by decide)
    · exact .ofPiece ((IsPiece.nil _).cons (by decide)) (by decide) (by decide)
    · split
      · split
        · rename_i escape rest found
          exact .ofHidden (congrArg ('\\' :: ·) (takeEscape?_append found)) (by decide)
        · exact .ofHidden rfl (by decide)
      · exact .ofHidden (List.take_append_drop 1 _).symm (by decide)
      · rename_i found
        refine .ofHidden (takeContent_append found) ?_
        cases delimiter.triple <;> decide
      · rename_i found
        exact .ofHidden (takeContent_append found) (by decide)

theorem isOff_cutSign (openings : List Opening) (text : List Char) :
    (cutSign openings text).IsOff text := by
  have plain : ∀ sign ∈ signs, '#' ∉ sign := by decide
  unfold cutSign
  split
  · rename_i sign found
    have front := List.find?_some found
    obtain ⟨rest, rfl⟩ := List.isPrefixOf_iff_prefix.mp front
    refine .ofPiece ⟨?_, plain sign (List.mem_of_find?_eq_some found)⟩ (by decide) (by decide)
    simp
  · exact .ofHidden (List.take_append_drop 1 text).symm (by decide)

theorem isPiece_takeConversion? {openings : List Opening} {text : List Char}
    {piece : List Char × List Char} (found : takeConversion? openings text = some piece) :
    IsPiece text piece := by
  unfold takeConversion? at found
  split at found
  · split at found
    · rename_i letter rest between
      obtain rfl := Option.some.inj found
      have small : letter ≠ '#' := by
        rintro rfl
        exact absurd between.2 (by decide)
      exact ((IsPiece.nil rest).cons small).cons (by decide)
    · exact absurd found (Option.some_ne_none _).symm
  · exact absurd found (Option.some_ne_none _).symm

theorem isOff_cutCode (openings : List Opening) (text : List Char) :
    (cutCode openings text).IsOff text := by
  unfold cutCode
  split
  · rename_i delimiter start rest found
    obtain ⟨piece, opens⟩ := isPiece_takeStringStart? found
    exact ⟨piece.split, fun _ => piece.plain, fun _ => opens, Shape.noConfusion⟩
  · split
    · exact .ofPiece (.takeWhile (by decide) text) (by decide) (by decide)
    · split
      · obtain ⟨piece, shape⟩ := isPiece_takeNumber text
        rcases number_eq : takeNumber text with ⟨kind, number, rest⟩
        rw [number_eq] at piece shape
        rcases shape with rfl | rfl <;> exact .ofPiece piece (by decide) (by decide)
      · split
        · rename_i conversion rest found
          exact .ofPiece (isPiece_takeConversion? found) (by decide) (by decide)
        · exact isOff_cutSign openings text

theorem isOff_cutSpecification (openings : List Opening) (text : List Char) :
    (cutSpecification openings text).IsOff text := by
  unfold cutSpecification
  split
  · exact .ofPiece ((IsPiece.nil _).cons (by decide)) (by decide) (by decide)
  · exact .ofPiece ((IsPiece.nil _).cons (by decide)) (by decide) (by decide)
  · split
    · exact .ofHidden List.takeWhile_append_dropWhile.symm (by decide)
    · exact .ofHidden rfl (by decide)
  · exact .ofHidden rfl (by decide)

end CodeGauge.Syntax
