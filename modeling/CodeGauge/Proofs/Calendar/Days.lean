import CodeGauge.Calendar
import Mathlib.Tactic.ByContra

/-!
# The order of days

A later day has a later year, or the same year and a later month, or the same month and a later day
of it (`ofEpoch_precedes`).  Days are compared in years that begin in March, in which they are
counted; the years of a cycle follow from where each of them begins (`yearOfDay_daysBefore`).
-/

namespace CodeGauge.Calendar

/-- The year of a cycle on which a day of the cycle falls. -/
def yearOfDay (n : Nat) : Nat := (n - n / 1460 + n / 36524 - n / 146096) / 365

def daysBefore (year : Nat) : Nat := 365 * year + year / 4 - year / 100

theorem yearOfDay_mono {n m : Nat} (le : n ≤ m) : yearOfDay n ≤ yearOfDay m := by
  have nested (k : Nat) : k / 146096 = k / 36524 / 4 := (Nat.div_div_eq_div_mul k 36524 4).symm
  have split (k : Nat) : k - k / 1460 + k / 36524 - k / 146096 =
      k - k / 1460 + (k / 36524 - k / 146096) := by
    have := nested k
    omega
  have fourYears : n - n / 1460 ≤ m - m / 1460 := by omega
  have centuries : n / 36524 - n / 146096 ≤ m / 36524 - m / 146096 := by
    have whole : n / 36524 ≤ m / 36524 := Nat.div_le_div_right le
    rw [nested, nested]
    omega
  unfold yearOfDay
  rw [split, split]
  exact Nat.div_le_div_right (Nat.add_le_add fourYears centuries)

/-- A year of a cycle begins on its first day and not before. -/
theorem yearOfDay_daysBefore : ∀ year < 400, yearOfDay (daysBefore year) = year ∧
    (year ≠ 0 → yearOfDay (daysBefore year - 1) < year) := by
  -- years of days never fall, so the first and the last day of each year decide those between them
  decide +kernel

theorem yearOfDay_lt {n : Nat} (inside : n < 146097) : yearOfDay n < 400 := by
  unfold yearOfDay
  omega

theorem daysBefore_yearOfDay_le {n : Nat} (inside : n < 146097) :
    daysBefore (yearOfDay n) ≤ n := by
  by_contra early
  have nonzero : yearOfDay n ≠ 0 := by
    intro zero
    simp [zero, daysBefore] at early
  have last := (yearOfDay_daysBefore _ (yearOfDay_lt inside)).2 nonzero
  have le := yearOfDay_mono (Nat.le_sub_one_of_lt (Nat.lt_of_not_le early))
  omega

theorem le_daysBefore_yearOfDay {n : Nat} (inside : n < 146097) :
    n ≤ daysBefore (yearOfDay n) + 365 := by
  by_contra late
  have below := yearOfDay_lt inside
  rcases Nat.lt_or_ge (yearOfDay n + 1) 400 with next | last
  · have first := (yearOfDay_daysBefore _ next).1
    have reached : daysBefore (yearOfDay n + 1) ≤ n := by
      unfold daysBefore at late ⊢
      omega
    have le := yearOfDay_mono reached
    omega
  · have final : yearOfDay n = 399 := by omega
    simp [final, daysBefore] at late
    omega

def marchMonth (days : Nat) : Nat := (5 * days + 2) / 153

def marchDay (days : Nat) : Nat := days - (153 * marchMonth days + 2) / 5 + 1

/-- The day that is a number of days after the first of March of a year. -/
def ofMarch (year : Int) (days : Nat) : Day :=
  if marchMonth days < 10 then ⟨year, marchMonth days + 3, marchDay days⟩
  else ⟨year + 1, marchMonth days - 9, marchDay days⟩

theorem marchMonth_le {days : Nat} (inside : days ≤ 365) : marchMonth days ≤ 11 := by
  unfold marchMonth
  omega

theorem marchDay_le (days : Nat) : marchDay days ≤ 31 := by
  unfold marchDay marchMonth
  omega

theorem marchMonth_lt_or {days later : Nat} (less : days < later) :
    marchMonth days < marchMonth later ∨
      marchMonth days = marchMonth later ∧ marchDay days < marchDay later := by
  unfold marchDay marchMonth
  omega

/-- One day comes before another one by year, then by month, then by day. -/
def Day.Precedes (first second : Day) : Prop :=
  first.year < second.year ∨ first.year = second.year ∧
    (first.month < second.month ∨ first.month = second.month ∧ first.day < second.day)

theorem ofMarch_fields_le (year : Int) {days : Nat} (inside : days ≤ 365) :
    (ofMarch year days).month ≤ 12 ∧ (ofMarch year days).day ≤ 31 := by
  have month_le := marchMonth_le inside
  have day_le := marchDay_le days
  by_cases spring : marchMonth days < 10 <;>
    simp only [ofMarch, spring, if_true, if_false] <;> omega

/-- Days counted from March keep their order when years are counted from January. -/
theorem ofMarch_precedes {year laterYear : Int} {days later : Nat} (inside : days ≤ 365)
    (less : year < laterYear ∨ year = laterYear ∧ days < later) :
    (ofMarch year days).Precedes (ofMarch laterYear later) := by
  have month_le := marchMonth_le inside
  have months : year = laterYear → marchMonth days < marchMonth later ∨
      marchMonth days = marchMonth later ∧ marchDay days < marchDay later := by
    intro same
    rcases less with earlier | ⟨-, less⟩
    · omega
    · exact marchMonth_lt_or less
  unfold Day.Precedes ofMarch
  by_cases spring : marchMonth days < 10 <;> by_cases laterSpring : marchMonth later < 10 <;>
    simp only [spring, laterSpring, if_true, if_false] <;> omega

def marchYear (days : Int) : Int :=
  (days + epochDays).fdiv cycleDays * 400 +
    (yearOfDay ((days + epochDays).fmod cycleDays).toNat : Nat)

def daysOfMarchYear (days : Int) : Nat :=
  ((days + epochDays).fmod cycleDays).toNat -
    daysBefore (yearOfDay ((days + epochDays).fmod cycleDays).toNat)

theorem Day.ofEpoch_eq (days : Int) :
    Day.ofEpoch days = ofMarch (marchYear days) (daysOfMarchYear days) := rfl

theorem fmod_bounds {size : Int} (positive : 0 < size) (n : Int) :
    0 ≤ n.fmod size ∧ n.fmod size < size ∧ n = size * n.fdiv size + n.fmod size :=
  ⟨Int.fmod_nonneg_of_pos n positive, Int.fmod_lt_of_pos n positive,
    (Int.mul_fdiv_add_fmod n size).symm⟩

theorem daysOfMarchYear_le (days : Int) : daysOfMarchYear days ≤ 365 := by
  obtain ⟨nonneg, inside, -⟩ := fmod_bounds (show (0 : Int) < 146097 by decide) (days + epochDays)
  unfold daysOfMarchYear cycleDays
  have le := le_daysBefore_yearOfDay (n := ((days + epochDays).fmod 146097).toNat) (by omega)
  omega

theorem marchYear_lt_or {days later : Int} (less : days < later) :
    marchYear days < marchYear later ∨
      marchYear days = marchYear later ∧ daysOfMarchYear days < daysOfMarchYear later := by
  have positive : (0 : Int) < 146097 := by decide
  obtain ⟨nonneg, inside, whole⟩ := fmod_bounds positive (days + epochDays)
  obtain ⟨later_nonneg, later_inside, later_whole⟩ := fmod_bounds positive (later + epochDays)
  unfold marchYear daysOfMarchYear cycleDays
  generalize (days + epochDays).fdiv 146097 = cycle at *
  generalize (later + epochDays).fdiv 146097 = laterCycle at *
  generalize (days + epochDays).fmod 146097 = rest at *
  generalize (later + epochDays).fmod 146097 = laterRest at *
  have year_lt := yearOfDay_lt (n := rest.toNat) (by omega)
  have begins := daysBefore_yearOfDay_le (n := rest.toNat) (by omega)
  rcases Int.lt_or_le cycle laterCycle with earlier | same_cycle
  · left
    omega
  · have rest_less : rest.toNat < laterRest.toNat := by omega
    have mono := yearOfDay_mono (Nat.le_of_lt rest_less)
    by_cases same : yearOfDay rest.toNat = yearOfDay laterRest.toNat
    · right
      rw [← same]
      omega
    · left
      omega

theorem ofEpoch_precedes {days later : Int} (less : days < later) :
    (Day.ofEpoch days).Precedes (Day.ofEpoch later) := by
  rw [Day.ofEpoch_eq, Day.ofEpoch_eq]
  exact ofMarch_precedes (daysOfMarchYear_le days) (marchYear_lt_or less)

theorem ofEpoch_fields_le (days : Int) :
    (Day.ofEpoch days).month ≤ 12 ∧ (Day.ofEpoch days).day ≤ 31 := by
  rw [Day.ofEpoch_eq]
  exact ofMarch_fields_le _ (daysOfMarchYear_le days)

end CodeGauge.Calendar
