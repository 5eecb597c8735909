import CodeGauge.Decimal.Numeral
import Mathlib.Algebra.Group.Nat.Defs
import Mathlib.Data.List.Basic

/-!
# Decimal digits

The digits of a number stand for it, and there is no zero in front of them (`head?_digits`).  A
numeral that a layout makes has digits where it needs them (`isWritten_numeral`).
-/

namespace CodeGauge.Decimal

/-- Some digits, at least one. -/
structure AreDigits (digits : List Char) : Prop where
  nonempty : digits ≠ []
  digit : ∀ c ∈ digits, c.isDigit = true

/-- A numeral has digits before the point, no zero in front of others there, and digits in its power
of ten. -/
structure Numeral.IsWritten (numeral : Numeral) : Prop where
  whole : AreDigits numeral.whole
  leading : numeral.whole.head? = some '0' → numeral.whole.length = 1
  fraction : ∀ c ∈ numeral.fraction, c.isDigit = true
  power : ∀ power ∈ numeral.power, AreDigits power.digits

theorem toDigits_eq_append {n : Nat} (large : 10 ≤ n) :
    Nat.toDigits 10 n = Nat.toDigits 10 (n / 10) ++ [Nat.digitChar (n % 10)] := by
  have last : n % 10 < 10 := Nat.mod_lt n (by decide)
  have joined := Nat.toDigits_append_toDigits (b := 10) (n := n / 10) (d := n % 10) (by decide)
    (by omega) last
  rw [Nat.toDigits_of_lt_base last, Nat.div_add_mod] at joined
  exact joined.symm

theorem areDigits_digits (n : Nat) : AreDigits (digits n) :=
  ⟨Nat.toDigits_ne_nil, fun _ => Nat.isDigit_of_mem_toDigits (by decide) (by decide)⟩

theorem digits_of_lt {n : Nat} (small : n < 10) : digits n = [Nat.digitChar n] :=
  Nat.toDigits_of_lt_base small

theorem head?_digits {n : Nat} (positive : n ≠ 0) : (digits n).head? ≠ some '0' := by
  induction n using Nat.strongRecOn with
  | ind n ih =>
      rcases Nat.lt_or_ge n 10 with small | large
      · have single : ∀ d < 10, d ≠ 0 → [Nat.digitChar d].head? ≠ some '0' := by decide
        rw [digits_of_lt small]
        exact single n small positive
      · have shorter := ih (n / 10) (by omega) (by omega)
        rw [digits, toDigits_eq_append large, List.head?_append_of_ne_nil _ Nat.toDigits_ne_nil]
        exact shorter

theorem valueOf_digits (n : Nat) : valueOf (digits n) = n :=
  Nat.ofDigitChars_ten_toDigits

theorem valueOf_append (first last : List Char) :
    valueOf (first ++ last) = 10 ^ last.length * valueOf first + valueOf last := by
  have split : valueOf (first ++ last) = Nat.ofDigitChars 10 last (valueOf first) :=
    Nat.ofDigitChars_append 0
  rw [split, Nat.ofDigitChars_eq_ofDigitChars_zero]
  rfl

theorem valueOf_zeros (count : Nat) : valueOf (List.replicate count '0') = 0 :=
  Nat.ofDigitChars_replicate_zero.trans (Nat.mul_zero _)

theorem isWritten_ofNat (n : Nat) : (Numeral.ofNat n).IsWritten where
  whole := areDigits_digits n
  leading zero := by
    by_cases positive : n = 0
    · subst positive
      rfl
    · exact absurd zero (head?_digits positive)
  fraction := List.forall_mem_nil _
  power _ mem := nomatch mem

def Scaled.leading (number : Scaled) : Int :=
  number.exponent + ((Decimal.digits number.digits).length : Int) - 1

variable (layout : Layout) (negative : Bool) (number : Scaled)

/-- The four ways in which a layout writes a number. -/
theorem numeral_cases :
    (number.digits = 0 ∧ layout.numeral negative number = ⟨negative, ['0'], ['0'], none⟩) ∨
    (number.digits ≠ 0 ∧ layout.numeral negative number =
      ⟨negative, (digits number.digits).take 1, (digits number.digits).drop 1,
        some (.ofInt number.leading)⟩) ∨
    (number.digits ≠ 0 ∧ number.leading < 0 ∧ layout.numeral negative number =
      ⟨negative, ['0'],
        List.replicate (number.leading.natAbs - 1) '0' ++ digits number.digits, none⟩) ∨
    (number.digits ≠ 0 ∧ ∃ places : Nat, (places : Int) = number.leading + 1 ∧ 0 < places ∧
      let padded := digits number.digits ++
        List.replicate (places - (digits number.digits).length) '0'
      layout.numeral negative number =
        ⟨negative, padded.take places, atLeastOneDigit (padded.drop places), none⟩) := by
  have leading : number.exponent + (digits number.digits).length - 1 = number.leading := rfl
  simp only [Layout.numeral, leading]
  split_ifs with zero large small
  · exact .inl ⟨zero, rfl⟩
  · exact .inr (.inl ⟨zero, rfl⟩)
  · exact .inr (.inr (.inl ⟨zero, small, rfl⟩))
  · exact .inr (.inr (.inr ⟨zero, number.leading.natAbs + 1, by omega, by omega, rfl⟩))

theorem isDigit_of_mem_zeros {count : Nat} {c : Char} (mem : c ∈ List.replicate count '0') :
    c.isDigit = true := by
  rw [List.eq_of_mem_replicate mem]
  rfl

theorem areDigits_zero : AreDigits ['0'] := areDigits_digits 0

theorem isWritten_numeral : (layout.numeral negative number).IsWritten := by
  obtain ⟨nonempty, digit⟩ := areDigits_digits number.digits
  have digits_pos := List.length_pos_iff.mpr nonempty
  rcases numeral_cases layout negative number with ⟨-, eq⟩ | ⟨-, eq⟩ | ⟨-, -, eq⟩ |
    ⟨positive, places, -, places_pos, eq⟩
  · rw [eq]
    exact ⟨areDigits_zero, fun _ => rfl, areDigits_zero.digit, fun _ mem => nomatch mem⟩
  · have one : ((digits number.digits).take 1).length = 1 := by
      rw [List.length_take]
      omega
    rw [eq]
    refine ⟨⟨List.ne_nil_of_length_eq_add_one one, fun c mem => digit c (List.mem_of_mem_take mem)⟩,
      fun _ => one, fun c mem => digit c (List.mem_of_mem_drop mem), fun power mem => ?_⟩
    obtain rfl := Option.some.inj mem
    exact areDigits_digits _
  · rw [eq]
    refine ⟨areDigits_zero, fun _ => rfl, fun c mem => ?_, fun _ mem => nomatch mem⟩
    exact (List.mem_append.mp mem).elim isDigit_of_mem_zeros (digit c)
  · let padded := digits number.digits ++
      List.replicate (places - (digits number.digits).length) '0'
    have padded_digit : ∀ c ∈ padded, c.isDigit = true := fun c mem =>
      (List.mem_append.mp mem).elim (digit c) isDigit_of_mem_zeros
    have head : (padded.take places).head? = (digits number.digits).head? := by
      rw [List.head?_take, if_neg (by omega), List.head?_append_of_ne_nil _ nonempty]
    have no_zero : (padded.take places).head? ≠ some '0' := head ▸ head?_digits positive
    have whole : padded.take places ≠ [] := by
      intro none
      rw [none, List.head?_nil] at head
      exact nonempty (List.head?_eq_none_iff.mp head.symm)
    rw [eq]
    refine ⟨⟨whole, fun c mem => padded_digit c (List.mem_of_mem_take mem)⟩,
      fun zero => absurd zero no_zero, fun c mem => ?_, fun _ mem => nomatch mem⟩
    simp only [atLeastOneDigit] at mem
    split at mem
    · exact areDigits_zero.digit c mem
    · exact padded_digit c (List.mem_of_mem_drop mem)

end CodeGauge.Decimal
