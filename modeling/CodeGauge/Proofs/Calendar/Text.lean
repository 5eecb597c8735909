import CodeGauge.Proofs.Calendar.Days
import CodeGauge.Proofs.Decimal.Digits
import Mathlib.Data.String.Basic

/-!
# The order of dates as texts

A number that is padded to a fixed width stands among such texts where it stands among numbers
(`padded_lt_padded`), and so does a sequence of such fields.  Within the years 0 to 9999, as they
are shown in a zone, the texts of times are therefore in the order of the times
(`text_lt_text`).  In all years different times have different texts (`text_injective`).
-/

namespace CodeGauge.Calendar

/-- Two texts of equal length decide the order of longer texts, unless they are the same. -/
theorem append_lt_append {first second x y : List Char} (same : first.length = second.length)
    (less : first < second ∨ first = second ∧ x < y) : first ++ x < second ++ y := by
  rcases less with less | ⟨rfl, less⟩
  · induction first generalizing second with
    | nil =>
        obtain rfl := List.eq_nil_of_length_eq_zero same.symm
        exact absurd less (List.lt_irrefl [])
    | cons c first ih =>
        cases second with
        | nil => simp at same
        | cons d second =>
            rw [List.cons_append, List.cons_append, List.cons_lt_cons_iff]
            rcases List.cons_lt_cons_iff.mp less with head_less | ⟨rfl, tail_less⟩
            · exact .inl head_less
            · exact .inr ⟨rfl, ih (Nat.succ.inj same) tail_less⟩
  · exact List.append_left_lt less

theorem padded_succ (width n : Nat) :
    padded (width + 2) n = padded (width + 1) (n / 10) ++ [Nat.digitChar (n % 10)] := by
  unfold padded
  rcases Nat.lt_or_ge n 10 with small | large
  · have zero : n / 10 = 0 := by omega
    have self : n % 10 = n := by omega
    rw [zero, self, Nat.toDigits_of_lt_base small, Nat.toDigits_of_lt_base (by decide)]
    simp [List.replicate_succ']
  · simp [Decimal.toDigits_eq_append large]

theorem padded_one {n : Nat} (small : n < 10) : padded 1 n = [Nat.digitChar n] := by
  simp [padded, Nat.toDigits_of_lt_base small]

theorem length_padded {width n : Nat} (small : n < 10 ^ (width + 1)) :
    (padded (width + 1) n).length = width + 1 := by
  induction width generalizing n with
  | zero => simp [padded_one small]
  | succ width ih =>
      have shorter : n / 10 < 10 ^ (width + 1) := by
        rw [Nat.pow_succ] at small
        omega
      rw [padded_succ, List.length_append, ih shorter, List.length_singleton]

theorem digitChar_lt : ∀ m < 10, ∀ n < m, Nat.digitChar n < Nat.digitChar m := by
  decide

theorem padded_lt_padded {width n m : Nat} (less : n < m) (small : m < 10 ^ (width + 1)) :
    padded (width + 1) n < padded (width + 1) m := by
  induction width generalizing n m with
  | zero =>
      rw [padded_one (Nat.lt_trans less small), padded_one small, List.cons_lt_cons_iff]
      exact .inl (digitChar_lt m small n less)
  | succ width ih =>
      have shorter : m / 10 < 10 ^ (width + 1) := by
        rw [Nat.pow_succ] at small
        omega
      have lengths : (padded (width + 1) (n / 10)).length =
          (padded (width + 1) (m / 10)).length := by
        rw [length_padded shorter, length_padded (by omega)]
      rw [padded_succ, padded_succ]
      refine append_lt_append lengths ?_
      rcases Nat.lt_or_ge (n / 10) (m / 10) with front | same
      · exact .inl (ih front shorter)
      · have front : n / 10 = m / 10 := by omega
        have last : n % 10 < m % 10 := by omega
        refine .inr ⟨by rw [front], List.cons_lt_cons_iff.mpr (.inl ?_)⟩
        exact digitChar_lt _ (Nat.mod_lt m (by decide)) _ last

theorem field_lt_field {width n m : Nat} {x y : List Char} (small : n < 10 ^ (width + 1))
    (later_small : m < 10 ^ (width + 1)) (less : n < m ∨ n = m ∧ x < y) :
    padded (width + 1) n ++ x < padded (width + 1) m ++ y := by
  have lengths : (padded (width + 1) n).length = (padded (width + 1) m).length := by
    rw [length_padded small, length_padded later_small]
  refine append_lt_append lengths ?_
  rcases less with less | ⟨rfl, less⟩
  · exact .inl (padded_lt_padded less later_small)
  · exact .inr ⟨rfl, less⟩

theorem cons_lt_cons (mark : Char) {x y : List Char} (less : x < y) : mark :: x < mark :: y :=
  List.cons_lt_cons_iff.mpr (.inr ⟨rfl, less⟩)

/-- A year is shown with four digits and no sign. -/
def IsPlainYear (year : Int) : Prop := 0 ≤ year ∧ year ≤ 9999

instance (year : Int) : Decidable (IsPlainYear year) :=
  inferInstanceAs (Decidable (0 ≤ year ∧ year ≤ 9999))

theorem yearText_eq {year : Int} (plain : IsPlainYear year) :
    yearText year = padded 4 year.toNat := by
  obtain ⟨nonneg, le⟩ := plain
  have natAbs_eq : year.natAbs = year.toNat := by omega
  rw [yearText, if_neg (Int.not_lt.mpr nonneg), if_pos le, natAbs_eq]

/-- Dates followed by further text stand in the order of the days, or of the further texts where the
days are the same. -/
theorem date_lt_date {first second : Day} {x y : List Char} (plain : IsPlainYear first.year)
    (later_plain : IsPlainYear second.year) (fields : first.month ≤ 12 ∧ first.day ≤ 31)
    (later_fields : second.month ≤ 12 ∧ second.day ≤ 31)
    (less : first.Precedes second ∨ first = second ∧ x < y) :
    first.text ++ x < second.text ++ y := by
  obtain ⟨year_nonneg, year_le⟩ := plain
  obtain ⟨later_nonneg, later_le⟩ := later_plain
  simp only [Day.text, yearText_eq ⟨year_nonneg, year_le⟩, yearText_eq ⟨later_nonneg, later_le⟩,
    List.append_assoc, List.cons_append]
  rcases less with (year_less | ⟨same_year, month_less | ⟨same_month, day_less⟩⟩) | ⟨rfl, less⟩
  · exact field_lt_field (by omega) (by omega) (.inl (by omega))
  · refine field_lt_field (by omega) (by omega) (.inr ⟨by rw [same_year], cons_lt_cons '-' ?_⟩)
    exact field_lt_field (by omega) (by omega) (.inl month_less)
  · refine field_lt_field (by omega) (by omega) (.inr ⟨by rw [same_year], cons_lt_cons '-' ?_⟩)
    refine field_lt_field (by omega) (by omega) (.inr ⟨same_month, cons_lt_cons '-' ?_⟩)
    exact field_lt_field (by omega) (by omega) (.inl day_less)
  · refine field_lt_field (by omega) (by omega) (.inr ⟨rfl, cons_lt_cons '-' ?_⟩)
    refine field_lt_field (by omega) (by omega) (.inr ⟨rfl, cons_lt_cons '-' ?_⟩)
    exact field_lt_field (by omega) (by omega) (.inr ⟨rfl, less⟩)

theorem clockText_lt_clockText {second later : Nat} (less : second < later)
    (inside : later < 86400) : clockText second < clockText later := by
  have fields : second / 3600 < later / 3600 ∨ second / 3600 = later / 3600 ∧
      (second / 60 % 60 < later / 60 % 60 ∨ second / 60 % 60 = later / 60 % 60 ∧
        second % 60 < later % 60) := by omega
  simp only [clockText, List.append_assoc, List.cons_append]
  rcases fields with hour_less | ⟨same_hour, minute_less | ⟨same_minute, second_less⟩⟩
  · exact field_lt_field (by omega) (by omega) (.inl hour_less)
  · refine field_lt_field (by omega) (by omega) (.inr ⟨same_hour, cons_lt_cons ':' ?_⟩)
    exact field_lt_field (by omega) (by omega) (.inl minute_less)
  · refine field_lt_field (by omega) (by omega) (.inr ⟨same_hour, cons_lt_cons ':' ?_⟩)
    refine field_lt_field (by omega) (by omega) (.inr ⟨same_minute, cons_lt_cons ':' ?_⟩)
    exact padded_lt_padded second_less (by omega)

/-- The year of a time as it is shown in a zone. -/
def shownYear (offset seconds : Int) : Int :=
  (Day.ofEpoch ((seconds + offset).fdiv daySeconds)).year

theorem text_lt_text {offset seconds later : Int} (plain : IsPlainYear (shownYear offset seconds))
    (later_plain : IsPlainYear (shownYear offset later)) (less : seconds < later) :
    text offset seconds < text offset later := by
  have positive : (0 : Int) < 86400 := by decide
  obtain ⟨nonneg, inside, whole⟩ := fmod_bounds positive (seconds + offset)
  obtain ⟨later_nonneg, later_inside, later_whole⟩ := fmod_bounds positive (later + offset)
  refine date_lt_date plain later_plain (ofEpoch_fields_le _) (ofEpoch_fields_le _) ?_
  unfold daySeconds
  rcases Int.lt_or_le ((seconds + offset).fdiv 86400)
    ((later + offset).fdiv 86400) with day_less | day_le
  · exact .inl (ofEpoch_precedes day_less)
  · have same_day : (seconds + offset).fdiv 86400 = (later + offset).fdiv 86400 := by omega
    refine .inr ⟨by rw [same_day], cons_lt_cons ' ' ?_⟩
    exact clockText_lt_clockText (by omega) (by omega)

/-- In the years 0 to 9999 of a zone, texts of times are in the order of the times. -/
theorem text_lt_text_iff {offset seconds later : Int}
    (plain : IsPlainYear (shownYear offset seconds))
    (later_plain : IsPlainYear (shownYear offset later)) :
    text offset seconds < text offset later ↔ seconds < later := by
  refine ⟨fun less => ?_, text_lt_text plain later_plain⟩
  by_contra not_less
  rcases Int.lt_or_eq_of_le (Int.not_lt.mp not_less) with greater | rfl
  · exact lt_asymm less (text_lt_text later_plain plain greater)
  · exact lt_irrefl _ less

theorem ofDigitChars_padded (width n : Nat) : Nat.ofDigitChars 10 (padded width n) 0 = n := by
  rw [padded, Nat.ofDigitChars_append, Nat.ofDigitChars_replicate_zero, Nat.mul_zero,
    Nat.ofDigitChars_ten_toDigits]

theorem padded_injective {width n m : Nat} (same : padded width n = padded width m) : n = m := by
  rw [← ofDigitChars_padded width n, same, ofDigitChars_padded]

theorem isDigit_of_mem_padded {width n : Nat} {c : Char} (mem : c ∈ padded width n) :
    c.isDigit = true := by
  rcases List.mem_append.mp mem with zero | digit
  · rw [List.eq_of_mem_replicate zero]
    decide
  · exact Nat.isDigit_of_mem_toDigits (by decide) (by decide) digit

theorem not_mem_padded {width n : Nat} {c : Char} (other : c.isDigit = false) :
    c ∉ padded width n := by
  intro mem
  rw [isDigit_of_mem_padded mem] at other
  cases other

theorem filter_isDigit_yearText (year : Int) :
    (yearText year).filter Char.isDigit = padded 4 year.natAbs := by
  have digits : (padded 4 year.natAbs).filter Char.isDigit = padded 4 year.natAbs :=
    List.filter_eq_self.mpr fun _ mem => isDigit_of_mem_padded mem
  unfold yearText
  split
  · rw [List.filter_cons_of_neg (by decide), digits]
  · split
    · exact digits
    · rw [List.filter_cons_of_neg (by decide), digits]

theorem minus_mem_yearText_iff {year : Int} : '-' ∈ yearText year ↔ year < 0 := by
  have digits : '-' ∉ padded 4 year.natAbs := not_mem_padded (by decide)
  unfold yearText
  split
  · rename_i negative
    exact iff_of_true List.mem_cons_self negative
  · rename_i nonneg
    refine iff_of_false (fun mem => ?_) nonneg
    split at mem
    · exact digits mem
    · rcases List.mem_cons.mp mem with plus | mem
      · exact absurd plus (by decide)
      · exact digits mem

theorem yearText_injective {year other : Int} (same : yearText year = yearText other) :
    year = other := by
  have padded_eq : padded 4 year.natAbs = padded 4 other.natAbs := by
    rw [← filter_isDigit_yearText, same, filter_isDigit_yearText]
  have size : year.natAbs = other.natAbs := padded_injective padded_eq
  have sign : year < 0 ↔ other < 0 := by
    rw [← minus_mem_yearText_iff, same, minus_mem_yearText_iff]
  omega

theorem length_twoDigits {n : Nat} (small : n < 100) : (padded 2 n).length = 2 :=
  length_padded small

theorem length_clockText {second : Nat} (inside : second < 86400) :
    (clockText second).length = 8 := by
  have hour := length_twoDigits (n := second / 3600) (by omega)
  have minute := length_twoDigits (n := second / 60 % 60) (by omega)
  have rest := length_twoDigits (n := second % 60) (by omega)
  simp only [clockText, List.length_append, List.length_cons, hour, minute, rest]

theorem clockText_injective {second other : Nat} (inside : second < 86400)
    (other_inside : other < 86400) (same : clockText second = clockText other) :
    second = other := by
  rcases Nat.lt_trichotomy second other with less | equal | greater
  · exact absurd (same ▸ clockText_lt_clockText less other_inside) (List.lt_irrefl _)
  · exact equal
  · exact absurd (same ▸ clockText_lt_clockText greater inside) (List.lt_irrefl _)

theorem ofEpoch_injective {days other : Int} (same : Day.ofEpoch days = Day.ofEpoch other) :
    days = other := by
  have irreflexive (date : Day) : ¬date.Precedes date := by
    unfold Day.Precedes
    omega
  rcases Int.lt_trichotomy days other with less | equal | greater
  · exact absurd (same ▸ ofEpoch_precedes less) (irreflexive _)
  · exact equal
  · exact absurd (same ▸ ofEpoch_precedes greater) (irreflexive _)

theorem dated_injective {first second : Day} {x y : List Char}
    (fields : first.month ≤ 12 ∧ first.day ≤ 31)
    (other_fields : second.month ≤ 12 ∧ second.day ≤ 31)
    (lengths : x.length = y.length) (same : first.text ++ x = second.text ++ y) :
    first = second ∧ x = y := by
  have month := length_twoDigits (n := first.month) (by omega)
  have day := length_twoDigits (n := first.day) (by omega)
  have other_month := length_twoDigits (n := second.month) (by omega)
  have other_day := length_twoDigits (n := second.day) (by omega)
  simp only [Day.text, List.append_assoc, List.cons_append] at same
  obtain ⟨years, same⟩ := List.append_inj' same
    (by simp [lengths, month, day, other_month, other_day])
  obtain ⟨months, same⟩ := List.append_inj (List.cons.inj same).2 (by rw [month, other_month])
  obtain ⟨days, same⟩ := List.append_inj (List.cons.inj same).2 (by rw [day, other_day])
  refine ⟨?_, same⟩
  cases first
  cases second
  rw [Day.mk.injEq]
  exact ⟨yearText_injective years, padded_injective months, padded_injective days⟩

/-- In one zone, different times have different texts, in whatever years they are. -/
theorem text_injective {offset seconds other : Int}
    (same : text offset seconds = text offset other) : seconds = other := by
  have positive : (0 : Int) < 86400 := by decide
  obtain ⟨nonneg, inside, whole⟩ := fmod_bounds positive (seconds + offset)
  obtain ⟨other_nonneg, other_inside, other_whole⟩ := fmod_bounds positive (other + offset)
  unfold text daySeconds at same
  obtain ⟨same_day, same_clock⟩ := dated_injective (ofEpoch_fields_le _) (ofEpoch_fields_le _)
    (by rw [List.length_cons, List.length_cons, length_clockText (by omega),
      length_clockText (by omega)]) same
  have days := ofEpoch_injective same_day
  have clocks := clockText_injective (by omega) (by omega) (List.cons.inj same_clock).2
  omega

end CodeGauge.Calendar
