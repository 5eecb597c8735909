import CodeGauge.Proofs.Decimal.Digits
import Mathlib.Algebra.Order.Field.Power
import Mathlib.Algebra.Order.Field.Rat
import Mathlib.Algebra.Order.Ring.Abs
import Mathlib.Tactic.FieldSimp
import Mathlib.Tactic.Linarith
import Mathlib.Tactic.Ring

/-!
# The shortest numeral reads back

Every number between the half-way points to the neighbours of a double is nearer to this double
than to any other one (`isNearest_of_rounds`).  The shortest numeral stands for such a number, so a
reader that rounds to the nearest double gets back the double of which it was made
(`isNearest_numeral`).
-/

namespace CodeGauge.Decimal

/-- The number for which a scaled number stands. -/
def Scaled.magnitude (number : Scaled) : ℚ := number.digits * 10 ^ number.exponent

def Numeral.magnitude (numeral : Numeral) : ℚ :=
  valueOf (numeral.whole ++ numeral.fraction) *
    10 ^ ((numeral.power.map Power.exponent).getD 0 - numeral.fraction.length)

theorem exponent_ofInt (exponent : Int) : (Power.ofInt exponent).exponent = exponent := by
  rw [Power.exponent, Power.ofInt, valueOf_digits]
  by_cases negative : exponent < 0
  · simp only [negative, decide_true, if_true]
    omega
  · simp only [negative, decide_false, Bool.false_eq_true, if_false]
    omega

section Layouts

variable (layout : Layout) (negative : Bool) (number : Scaled)

theorem magnitude_scientific (shown : List Char) (leading : Int) (nonempty : shown ≠ []) :
    Numeral.magnitude ⟨negative, shown.take 1, shown.drop 1, some (.ofInt leading)⟩ =
      valueOf shown * 10 ^ (leading - (shown.length : Int) + 1) := by
  have positive := List.length_pos_iff.mpr nonempty
  rw [Numeral.magnitude]
  simp only [List.take_append_drop, Option.map_some, Option.getD_some, exponent_ofInt,
    List.length_drop]
  congr 2
  omega

theorem magnitude_small (shown : List Char) (zeros : Nat) :
    Numeral.magnitude ⟨negative, ['0'], List.replicate zeros '0' ++ shown, none⟩ =
      valueOf shown * 10 ^ (-(zeros : Int) - (shown.length : Int)) := by
  have value : valueOf (['0'] ++ (List.replicate zeros '0' ++ shown)) = valueOf shown := by
    rw [valueOf_append, valueOf_append, valueOf_zeros]
    simp [valueOf]
  rw [Numeral.magnitude]
  simp only [value, Option.map_none, Option.getD_none, List.length_append, List.length_replicate]
  congr 2
  push_cast
  omega

theorem magnitude_plain (shown : List Char) (places : Nat) :
    Numeral.magnitude ⟨negative, (shown ++ List.replicate (places - shown.length) '0').take places,
        atLeastOneDigit ((shown ++ List.replicate (places - shown.length) '0').drop places), none⟩ =
      valueOf shown * 10 ^ ((places : Int) - (shown.length : Int)) := by
  rcases Nat.lt_or_ge places shown.length with fewer | enough
  · have no_zeros : places - shown.length = 0 := by omega
    have some_digit : shown.drop places ≠ [] := by
      rw [Ne, List.drop_eq_nil_iff]
      omega
    rw [no_zeros, List.replicate_zero, List.append_nil, atLeastOneDigit,
      if_neg (by simpa using some_digit), Numeral.magnitude]
    simp only [List.take_append_drop, Option.map_none, Option.getD_none, List.length_drop]
    congr 2
    omega
  · have whole : (shown ++ List.replicate (places - shown.length) '0').length = places := by
      rw [List.length_append, List.length_replicate]
      omega
    rw [List.take_of_length_le whole.le, List.drop_of_length_le whole.le, atLeastOneDigit,
      List.isEmpty_nil, if_pos rfl, Numeral.magnitude]
    have value : valueOf (shown ++ List.replicate (places - shown.length) '0' ++ ['0']) =
        10 * (10 ^ (places - shown.length) * valueOf shown) := by
      rw [valueOf_append, valueOf_append, valueOf_zeros, List.length_replicate]
      simp [valueOf]
    have exponent : (places : Int) - shown.length = ((places - shown.length : Nat) : Int) := by
      omega
    simp only [value, Option.map_none, Option.getD_none, List.length_singleton, exponent,
      zpow_natCast]
    push_cast
    field_simp

theorem magnitude_numeral : (layout.numeral negative number).magnitude = number.magnitude := by
  have value := valueOf_digits number.digits
  have nonempty := (areDigits_digits number.digits).nonempty
  have leading : number.leading = number.exponent + (digits number.digits).length - 1 := rfl
  rcases numeral_cases layout negative number with ⟨zero, eq⟩ | ⟨-, eq⟩ | ⟨-, small, eq⟩ |
    ⟨-, places, places_eq, -, eq⟩
  · rw [eq]
    simp [Scaled.magnitude, Numeral.magnitude, zero, valueOf]
  · rw [eq, magnitude_scientific negative _ _ nonempty, value, Scaled.magnitude]
    congr 2
    omega
  · rw [eq, magnitude_small, value, Scaled.magnitude]
    congr 2
    omega
  · rw [eq, magnitude_plain, value, Scaled.magnitude]
    congr 2
    omega

end Layouts

variable {value other : Binary} {size : ℚ}

namespace Binary

def magnitude (value : Binary) : ℚ := value.mantissa * 2 ^ value.exponent

/-- A mantissa and an exponent are those of a finite double, but that the exponent may be too
great: the mantissa is below two to the power of fifty-three, and it is not small unless the
exponent is the least one. -/
structure IsDouble (value : Binary) : Prop where
  bounded : value.mantissa < 2 * leastMantissa
  least : leastExponent ≤ value.exponent
  normal : leastMantissa ≤ value.mantissa ∨ value.exponent = leastExponent

theorem isDouble_of_ofFloat {x : Float} (finite : Double.ofFloat x = .finite value) :
    value.IsDouble := by
  simp only [Double.ofFloat] at finite
  have fraction_lt : x.toBits.toNat % leastMantissa < leastMantissa := Nat.mod_lt _ (by decide)
  split_ifs at finite with special zero
  · obtain rfl := Double.finite.inj finite
    exact ⟨by simp only; omega, le_rfl, .inr rfl⟩
  · obtain rfl := Double.finite.inj finite
    exact ⟨by simp only; omega, by simp only; omega, .inl (Nat.le_add_right _ _)⟩

def stepAbove (value : Binary) : ℚ := 2 ^ value.exponent

/-- How far the next smaller double is: half as far below a power of two. -/
def stepBelow (value : Binary) : ℚ :=
  if value.mantissa = leastMantissa ∧ leastExponent < value.exponent then value.stepAbove / 2
  else value.stepAbove

/-- A number lies between the half-way points to the neighbours of a double, or on one of them if
the double is even. -/
def Rounds (value : Binary) (size : ℚ) : Prop :=
  if value.mantissa % 2 = 0 then
    value.magnitude - value.stepBelow / 2 ≤ size ∧ size ≤ value.magnitude + value.stepAbove / 2
  else
    value.magnitude - value.stepBelow / 2 < size ∧ size < value.magnitude + value.stepAbove / 2

/-- No double is nearer to a number than a given one, and none is as near unless the given one is
even. -/
def IsNearest (value : Binary) (size : ℚ) : Prop :=
  ∀ other : Binary, other.IsDouble → other.magnitude ≠ value.magnitude →
    |size - value.magnitude| < |size - other.magnitude| ∨
      |size - value.magnitude| = |size - other.magnitude| ∧ value.mantissa % 2 = 0

theorem stepAbove_pos (value : Binary) : 0 < value.stepAbove := zpow_pos (by norm_num) _

theorem stepBelow_pos (value : Binary) : 0 < value.stepBelow := by
  have := value.stepAbove_pos
  rw [stepBelow]
  split <;> linarith

theorem stepBelow_le (value : Binary) : value.stepBelow ≤ value.stepAbove := by
  have := value.stepAbove_pos
  rw [stepBelow]
  split <;> linarith

theorem magnitude_add_stepAbove (value : Binary) :
    value.magnitude + value.stepAbove = (value.mantissa + 1) * value.stepAbove := by
  rw [magnitude, stepAbove]
  ring

theorem above_of_exponent_lt (double : value.IsDouble) (other_double : other.IsDouble)
    (greater : value.exponent < other.exponent) :
    value.magnitude + value.stepAbove ≤ other.magnitude := by
  have step_pos := value.stepAbove_pos
  have least := double.least
  have bounded : (value.mantissa + 1 : ℚ) ≤ 2 * leastMantissa := by exact_mod_cast double.bounded
  have normal : (leastMantissa : ℚ) ≤ other.mantissa := by
    exact_mod_cast other_double.normal.resolve_right (by omega)
  have power : 2 * value.stepAbove ≤ other.stepAbove := by
    have power : (2 : ℚ) ^ (value.exponent + 1) ≤ 2 ^ other.exponent :=
      zpow_le_zpow_right₀ (by norm_num) (by omega)
    rwa [zpow_add_one₀ (by norm_num), mul_comm] at power
  calc value.magnitude + value.stepAbove
      = (value.mantissa + 1) * value.stepAbove := magnitude_add_stepAbove value
    _ ≤ 2 * leastMantissa * value.stepAbove := mul_le_mul_of_nonneg_right bounded step_pos.le
    _ = leastMantissa * (2 * value.stepAbove) := by ring
    _ ≤ other.mantissa * other.stepAbove := mul_le_mul normal power (by positivity) (by positivity)

theorem below_of_exponent_lt (double : value.IsDouble) (other_double : other.IsDouble)
    (smaller : other.exponent < value.exponent) :
    other.magnitude ≤ value.magnitude - value.stepBelow := by
  have step_pos := value.stepAbove_pos
  have least := other_double.least
  have normal : leastMantissa ≤ value.mantissa := double.normal.resolve_right (by omega)
  have bounded : (other.mantissa : ℚ) ≤ 2 * leastMantissa - 1 := by
    have bounded : (other.mantissa + 1 : ℚ) ≤ 2 * leastMantissa := by
      exact_mod_cast other_double.bounded
    linarith
  have power : other.stepAbove ≤ value.stepAbove / 2 := by
    have power : (2 : ℚ) ^ (other.exponent + 1) ≤ 2 ^ value.exponent :=
      zpow_le_zpow_right₀ (by norm_num) (by omega)
    rw [zpow_add_one₀ (by norm_num)] at power
    rw [le_div_iff₀ (by norm_num)]
    exact power
  have most : other.magnitude ≤ (2 * leastMantissa - 1) * (value.stepAbove / 2) :=
    mul_le_mul bounded power (zpow_nonneg (by norm_num) _) (by norm_num [leastMantissa])
  rcases normal.lt_or_eq with more | power_of_two
  · have more : (leastMantissa + 1 : ℚ) ≤ value.mantissa := by exact_mod_cast more
    have begun : (leastMantissa + 1) * value.stepAbove ≤ value.magnitude :=
      mul_le_mul_of_nonneg_right more step_pos.le
    have below_le := value.stepBelow_le
    linarith
  · have below : value.stepBelow = value.stepAbove / 2 := if_pos ⟨power_of_two.symm, by omega⟩
    have exact_magnitude : value.magnitude = leastMantissa * value.stepAbove := by
      rw [magnitude, ← power_of_two, stepAbove]
    linarith

/-- Between a double and its neighbours there is no other double. -/
theorem apart (double : value.IsDouble) (other_double : other.IsDouble)
    (differs : other.magnitude ≠ value.magnitude) :
    value.magnitude + value.stepAbove ≤ other.magnitude ∨
      other.magnitude ≤ value.magnitude - value.stepBelow := by
  have step_pos := value.stepAbove_pos
  rcases lt_trichotomy value.exponent other.exponent with greater | same | smaller
  · exact .inl (above_of_exponent_lt double other_double greater)
  · have other_eq : other.magnitude = other.mantissa * value.stepAbove := by
      rw [magnitude, stepAbove, same]
    rcases lt_trichotomy value.mantissa other.mantissa with more | equal | fewer
    · have more : (value.mantissa + 1 : ℚ) ≤ other.mantissa := by exact_mod_cast more
      left
      rw [magnitude_add_stepAbove, other_eq]
      exact mul_le_mul_of_nonneg_right more step_pos.le
    · exact absurd (by rw [other_eq, magnitude, stepAbove, equal]) differs
    · have fewer : (other.mantissa + 1 : ℚ) ≤ value.mantissa := by exact_mod_cast fewer
      have below_le := value.stepBelow_le
      have bounded : (other.mantissa + 1) * value.stepAbove ≤ value.magnitude :=
        mul_le_mul_of_nonneg_right fewer step_pos.le
      right
      linarith
  · exact .inr (below_of_exponent_lt double other_double smaller)

theorem sq_sub_sub_sq (size b o : ℚ) :
    (size - o) ^ 2 - (size - b) ^ 2 = (o - b) * (b + o - 2 * size) := by ring

theorem abs_sub_lt_of_midpoint {b o : ℚ}
    (nearer : b < o ∧ 2 * size < b + o ∨ o < b ∧ b + o < 2 * size) :
    |size - b| < |size - o| := by
  rw [← sq_lt_sq, ← sub_pos, sq_sub_sub_sq]
  rcases nearer with ⟨less, half⟩ | ⟨less, half⟩
  · exact mul_pos (sub_pos.mpr less) (sub_pos.mpr half)
  · exact mul_pos_of_neg_of_neg (sub_neg.mpr less) (sub_neg.mpr half)

theorem abs_sub_le_of_midpoint {b o : ℚ}
    (nearer : b < o ∧ 2 * size ≤ b + o ∨ o < b ∧ b + o ≤ 2 * size) :
    |size - b| ≤ |size - o| := by
  rw [← sq_le_sq, ← sub_nonneg, sq_sub_sub_sq]
  rcases nearer with ⟨less, half⟩ | ⟨less, half⟩
  · exact mul_nonneg (sub_nonneg.mpr less.le) (sub_nonneg.mpr half)
  · exact mul_nonneg_of_nonpos_of_nonpos (sub_nonpos.mpr less.le) (sub_nonpos.mpr half)

/-- What lies between the half-way points to the neighbours is nearest to the double. -/
theorem isNearest_of_rounds (double : value.IsDouble) (rounds : value.Rounds size) :
    value.IsNearest size := by
  intro other other_double differs
  have above_pos := value.stepAbove_pos
  have below_pos := value.stepBelow_pos
  have beside := apart double other_double differs
  unfold Rounds at rounds
  split at rounds
  · rename_i even
    have le : |size - value.magnitude| ≤ |size - other.magnitude| := by
      apply abs_sub_le_of_midpoint
      rcases beside with above | below
      · exact .inl ⟨by linarith, by linarith⟩
      · exact .inr ⟨by linarith, by linarith⟩
    exact le.lt_or_eq.imp_right fun eq => ⟨eq, even⟩
  · left
    apply abs_sub_lt_of_midpoint
    rcases beside with above | below
    · exact .inl ⟨by linarith, by linarith⟩
    · exact .inr ⟨by linarith, by linarith⟩

end Binary

open Neighbourhood

theorem zpow_eq_div {b : ℚ} (nonzero : b ≠ 0) (exponent : Int) :
    b ^ exponent = b ^ exponent.toNat / b ^ (-exponent).toNat := by
  rw [← zpow_natCast, ← zpow_natCast, ← zpow_sub₀ nonzero, Int.toNat_sub_toNat_neg]

def unitScale (value : Binary) (exponent : Int) : ℚ :=
  4 * value.denominator * 10 ^ (-exponent).toNat

theorem unitScale_pos (value : Binary) (exponent : Int) : 0 < unitScale value exponent := by
  have positive : (0 : ℚ) < value.denominator := by exact_mod_cast value.denominator_pos
  exact mul_pos (mul_pos (by norm_num) positive) (by positivity)

theorem magnitude_mul_unitScale (n : Nat) (exponent : Int) :
    Scaled.magnitude ⟨n, exponent⟩ * unitScale value exponent =
      ((n * ((ofBinary value).inUnits exponent).denominator : Nat) : ℚ) := by
  rw [Scaled.magnitude, unitScale, zpow_eq_div (by norm_num)]
  simp only [ofBinary, inUnits, Nat.pow_eq]
  push_cast
  field_simp

theorem low_mul_unitScale (positive : value.mantissa ≠ 0) (exponent : Int) :
    (value.magnitude - value.stepBelow / 2) * unitScale value exponent =
      (((ofBinary value).inUnits exponent).lower : ℚ) := by
  rw [Binary.magnitude, Binary.stepBelow, Binary.stepAbove, unitScale, zpow_eq_div (by norm_num)]
  simp only [ofBinary, inUnits, Nat.pow_eq, Binary.denominator]
  split <;> rw [Nat.cast_mul, Nat.cast_mul, Nat.cast_sub (by omega)] <;>
    push_cast <;> field_simp <;> ring

theorem high_mul_unitScale (exponent : Int) :
    (value.magnitude + value.stepAbove / 2) * unitScale value exponent =
      (((ofBinary value).inUnits exponent).upper : ℚ) := by
  rw [Binary.magnitude, Binary.stepAbove, unitScale, zpow_eq_div (by norm_num)]
  simp only [ofBinary, inUnits, Nat.pow_eq, Binary.denominator]
  push_cast
  field_simp
  ring

theorem rounds_of_holds (positive : value.mantissa ≠ 0) {exponent : Int} {n : Nat}
    (held : ((ofBinary value).inUnits exponent).holds n = true) :
    value.Rounds (Scaled.magnitude ⟨n, exponent⟩) := by
  have scale_pos := unitScale_pos value exponent
  have closed : ((ofBinary value).inUnits exponent).closed = decide (value.mantissa % 2 = 0) := rfl
  simp only [holds, closed, decide_eq_true_eq] at held
  unfold Binary.Rounds
  split at held
  · rename_i even
    rw [if_pos even]
    simp only [Bool.and_eq_true, decide_eq_true_eq] at held
    refine ⟨le_of_mul_le_mul_right ?_ scale_pos, le_of_mul_le_mul_right ?_ scale_pos⟩
    · rw [low_mul_unitScale positive, magnitude_mul_unitScale]
      exact_mod_cast held.1
    · rw [high_mul_unitScale, magnitude_mul_unitScale]
      exact_mod_cast held.2
  · rename_i odd
    rw [if_neg odd]
    simp only [Bool.and_eq_true, decide_eq_true_eq] at held
    refine ⟨lt_of_mul_lt_mul_right ?_ scale_pos.le, lt_of_mul_lt_mul_right ?_ scale_pos.le⟩
    · rw [low_mul_unitScale positive, magnitude_mul_unitScale]
      exact_mod_cast held.1
    · rw [high_mul_unitScale, magnitude_mul_unitScale]
      exact_mod_cast held.2

theorem magnitude_stripZeros (limit : Nat) (number : Scaled) :
    (number.stripZeros limit).magnitude = number.magnitude := by
  induction limit generalizing number with
  | zero => rfl
  | succ limit ih =>
      rw [Scaled.stripZeros]
      split
      · rename_i zero_last
        have digits : (number.digits : ℚ) = (number.digits / 10 : Nat) * 10 := by
          exact_mod_cast (Nat.div_mul_cancel (Nat.dvd_of_mod_eq_zero zero_last.1)).symm
        rw [ih, Scaled.magnitude, Scaled.magnitude, zpow_add_one₀ (by norm_num), digits]
        ring
      · rfl

theorem magnitude_exact (value : Binary) : value.exact.magnitude = value.magnitude := by
  rw [Scaled.magnitude, Binary.magnitude, Binary.exact, zpow_eq_div (by norm_num) value.exponent]
  simp only [Binary.numerator, Nat.pow_eq, zpow_neg, zpow_natCast]
  have ten : (10 : ℚ) ^ (-value.exponent).toNat =
      2 ^ (-value.exponent).toNat * 5 ^ (-value.exponent).toNat := by
    rw [← mul_pow]
    norm_num
  rw [ten]
  push_cast
  field_simp

theorem rounds_magnitude (value : Binary) : value.Rounds value.magnitude := by
  have above_pos := value.stepAbove_pos
  have below_pos := value.stepBelow_pos
  unfold Binary.Rounds
  split <;> constructor <;> linarith

theorem rounds_shortest (value : Binary) : value.Rounds value.shortest.magnitude := by
  rw [Binary.shortest]
  split
  · rename_i zero
    have same : Scaled.magnitude ⟨0, 0⟩ = value.magnitude := by
      rw [Scaled.magnitude, Binary.magnitude, zero]
      simp
    rw [same]
    exact rounds_magnitude value
  · rename_i positive
    simp only [magnitude_stripZeros]
    generalize found_eq : (List.range mostDigits).findSome? _ = found
    cases found with
    | none =>
        rw [Option.getD_none, magnitude_exact]
        exact rounds_magnitude value
    | some number =>
        obtain ⟨more, -, mapped⟩ := List.exists_of_findSome?_eq_some found_eq
        obtain ⟨digits, whole, rfl⟩ := Option.map_eq_some_iff.mp mapped
        exact rounds_of_holds positive (holds_of_whole? whole)

/-- The shortest numeral of a double reads back: no other double is nearer to it, and if one is as
near then the double is even. -/
theorem isNearest_numeral (double : value.IsDouble) :
    value.IsNearest value.numeral.magnitude := by
  rw [Binary.numeral, magnitude_numeral]
  exact Binary.isNearest_of_rounds double (rounds_shortest value)

/-- A numeral reads back as a double: it has its sign, and no double is nearer to it. -/
structure Numeral.ReadsAs (numeral : Numeral) (value : Binary) : Prop where
  sign : numeral.negative = value.negative
  double : value.IsDouble
  nearest : value.IsNearest numeral.magnitude

theorem negative_numeral (layout : Layout) (negative : Bool) (number : Scaled) :
    (layout.numeral negative number).negative = negative := by
  rcases numeral_cases layout negative number with ⟨-, eq⟩ | ⟨-, eq⟩ | ⟨-, -, eq⟩ |
    ⟨-, places, -, -, eq⟩ <;> rw [eq]

theorem readsAs_numeral (double : value.IsDouble) : value.numeral.ReadsAs value :=
  ⟨negative_numeral _ _ _, double, isNearest_numeral double⟩

end CodeGauge.Decimal
