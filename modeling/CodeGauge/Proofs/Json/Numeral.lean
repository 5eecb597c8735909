import CodeGauge.Json.Parser
import CodeGauge.Proofs.Decimal.Digits

/-!
# Numerals are read back

A numeral with digits where it needs them is read back from its text, as long as what follows does
not continue it (`readNumeral_render`).
-/

namespace CodeGauge

open Decimal

namespace Json

variable {plus : Bool} {rest : List Char}

def continuesNumeral (c : Char) : Bool := c.isDigit || c = '.' || c = 'e' || c = 'E'

/-- A text does not go on with a numeral. -/
def EndsNumeral (rest : List Char) : Prop := ∀ c ∈ rest.head?, continuesNumeral c = false

/-- Digits begin with a digit, and so with no character that is none. -/
theorem exists_digits_eq_cons {digits : List Char} (written : AreDigits digits) :
    ∃ d others, digits = d :: others ∧ ∀ c, c.isDigit = false → d ≠ c := by
  obtain ⟨d, others, rfl⟩ := List.exists_cons_of_ne_nil written.nonempty
  refine ⟨d, others, rfl, ?_⟩
  rintro c no_digit rfl
  exact absurd (written.digit d List.mem_cons_self) (by simp [no_digit])

theorem readDigits_append {digits : List Char} (written : AreDigits digits)
    (ends : ∀ c ∈ rest.head?, c.isDigit = false) :
    readDigits (digits ++ rest) = some (digits, rest) := by
  have stop : rest.takeWhile Char.isDigit = [] ∧ rest.dropWhile Char.isDigit = rest := by
    cases rest with
    | nil => exact ⟨rfl, rfl⟩
    | cons c rest => simp [ends c rfl]
  rw [readDigits, List.takeWhile_append_of_pos written.digit,
    List.dropWhile_append_of_pos written.digit, stop.1, stop.2, List.append_nil]
  cases digits with
  | nil => exact absurd rfl written.nonempty
  | cons c digits => rfl

def powerText (plus : Bool) (power : Option Power) : List Char :=
  match power with
  | some power => power.render plus
  | none => []

def fractionText (fraction : List Char) : List Char :=
  if fraction.isEmpty then [] else '.' :: fraction

theorem render_eq (plus : Bool) (numeral : Numeral) :
    numeral.render plus = (if numeral.negative then ['-'] else []) ++
      (numeral.whole ++ (fractionText numeral.fraction ++ powerText plus numeral.power)) := by
  cases power : numeral.power <;>
    simp only [Numeral.render, fractionText, powerText, List.append_assoc, power]

theorem EndsNumeral.head (ends : EndsNumeral rest) :
    ∀ c ∈ rest.head?, c.isDigit = false ∧ c ≠ '.' ∧ c ≠ 'e' ∧ c ≠ 'E' := by
  intro c mem
  have stops := ends c mem
  simp only [continuesNumeral, Bool.or_eq_false_iff, decide_eq_false_iff_not] at stops
  exact ⟨stops.1.1.1, stops.1.1.2, stops.1.2, stops.2⟩

theorem readPower_powerText {power : Option Power}
    (written : ∀ p ∈ power, AreDigits p.digits) (ends : EndsNumeral rest) :
    readPower (powerText plus power ++ rest) = some (power, rest) := by
  cases power with
  | some power =>
      obtain ⟨negative, digits⟩ := power
      have written_digits : AreDigits digits := written _ rfl
      have read : readDigits (digits ++ rest) = some (digits, rest) :=
        readDigits_append written_digits fun c mem => (ends.head c mem).1
      cases negative with
      | true => simp [powerText, Power.render, readPower, read]
      | false =>
          cases plus with
          | true => simp [powerText, Power.render, readPower, read]
          | false =>
              obtain ⟨d, others, rfl, differs⟩ := exists_digits_eq_cons written_digits
              have no_minus : d ≠ '-' := differs '-' rfl
              have no_plus : d ≠ '+' := differs '+' rfl
              rw [List.cons_append] at read
              simp [powerText, Power.render, readPower, no_minus, no_plus, read]
  | none =>
      cases rest with
      | nil => rfl
      | cons c rest =>
          obtain ⟨-, -, no_mark⟩ := ends.head c rfl
          simp [powerText, readPower, no_mark]

theorem readFraction_fractionText {fraction : List Char}
    (written : ∀ c ∈ fraction, c.isDigit = true)
    (ends : ∀ c ∈ rest.head?, c.isDigit = false ∧ c ≠ '.') :
    readFraction (fractionText fraction ++ rest) = some (fraction, rest) := by
  cases fraction with
  | nil =>
      cases rest with
      | nil => rfl
      | cons c rest =>
          have no_point := (ends c rfl).2
          simp only [fractionText, List.isEmpty_nil, if_true, List.nil_append]
          rw [readFraction]
          rintro others same
          exact no_point (List.cons.inj same).1
  | cons d fraction =>
      exact readDigits_append ⟨List.cons_ne_nil d fraction, written⟩ fun c mem => (ends c mem).1

theorem readSign_append {digits : List Char} (written : AreDigits digits) (negative : Bool)
    (text : List Char) :
    readSign ((if negative then ['-'] else []) ++ (digits ++ text)) =
      (negative, digits ++ text) := by
  cases negative with
  | true => rfl
  | false =>
      obtain ⟨d, others, rfl, differs⟩ := exists_digits_eq_cons written
      simp only [Bool.false_eq_true, if_false, List.nil_append, List.cons_append]
      rw [readSign]
      rintro rest same
      exact differs '-' rfl (List.cons.inj same).1

/-- A written numeral is read back where nothing behind it continues it. -/
theorem readNumeral_render (plus : Bool) {numeral : Numeral} (written : numeral.IsWritten)
    (ends : EndsNumeral rest) :
    readNumeral (numeral.render plus ++ rest) = some (numeral, rest) := by
  have power_head :
      ∀ c ∈ (powerText plus numeral.power ++ rest).head?, c.isDigit = false ∧ c ≠ '.' := by
    intro c mem
    cases power : numeral.power with
    | none =>
        rw [power] at mem
        exact ⟨(ends.head c mem).1, (ends.head c mem).2.1⟩
    | some p =>
        rw [power] at mem
        obtain rfl : 'e' = c := Option.some.inj mem
        decide
  have fraction_head : ∀ c ∈ (fractionText numeral.fraction ++
      (powerText plus numeral.power ++ rest)).head?, c.isDigit = false := by
    intro c mem
    cases fraction : numeral.fraction with
    | nil =>
        rw [fraction] at mem
        exact (power_head c mem).1
    | cons d digits =>
        rw [fraction] at mem
        obtain rfl : '.' = c := Option.some.inj mem
        decide
  have no_zero : ¬(numeral.whole.head? = some '0' ∧ 1 < numeral.whole.length) :=
    fun ⟨zero, more⟩ => absurd (written.leading zero) (by omega)
  rw [render_eq, List.append_assoc, List.append_assoc, List.append_assoc, readNumeral,
    readSign_append written.whole]
  simp only [readDigits_append written.whole fraction_head, Option.bind_eq_bind, Option.bind_some,
    if_neg no_zero, readFraction_fractionText written.fraction power_head,
    readPower_powerText written.power ends]
  rfl

end Json

end CodeGauge
