import CodeGauge.Proofs.Calendar.Days
import Mathlib.Tactic.IntervalCases

/-!
# The calendar day by day

Each day of the calendar lies in a month of the proleptic Gregorian calendar (`isValid_ofEpoch`) and
is followed by the next one of it (`ofEpoch_succ`).  As the calendar has the first of January 1970
where the count of days begins, this fixes all of its days.
-/

namespace CodeGauge.Calendar

/-- A year has a leap day if four divides it, unless a hundred does and four hundred does not. -/
def isLeap (year : Int) : Bool := year % 4 = 0 && (year % 100 != 0 || year % 400 = 0)

def monthLength (year : Int) (month : Nat) : Nat :=
  if month = 2 then if isLeap year then 29 else 28
  else if month = 4 ∨ month = 6 ∨ month = 9 ∨ month = 11 then 30
  else 31

/-- A day lies in one of the months of its year. -/
structure Day.IsValid (date : Day) : Prop where
  month : 1 ≤ date.month ∧ date.month ≤ 12
  day : 1 ≤ date.day ∧ date.day ≤ monthLength date.year date.month

def Day.next (date : Day) : Day :=
  if date.day < monthLength date.year date.month then { date with day := date.day + 1 }
  else if date.month < 12 then ⟨date.year, date.month + 1, 1⟩
  else ⟨date.year + 1, 1, 1⟩

/-- The place of the last day of a year that begins in March; a leap day at its end belongs to the
next year of the calendar. -/
def lastOfMarchYear (year : Int) : Nat := if isLeap (year + 1) then 365 else 364

def monthStart (month : Nat) : Nat := (153 * month + 2) / 5

theorem monthStart_le (days : Nat) : monthStart (marchMonth days) ≤ days := by
  unfold monthStart marchMonth
  omega

theorem lt_monthStart (days : Nat) : days < monthStart (marchMonth days + 1) := by
  unfold monthStart marchMonth
  omega

theorem marchDay_eq (days : Nat) : marchDay days = days - monthStart (marchMonth days) + 1 := rfl

theorem monthLength_ofMarch (year : Int) {days : Nat} (inside : days ≤ 365) :
    monthLength (ofMarch year days).year (ofMarch year days).month =
      if marchMonth days = 11 then lastOfMarchYear year - 336
      else monthStart (marchMonth days + 1) - monthStart (marchMonth days) := by
  have month_le := marchMonth_le inside
  unfold ofMarch lastOfMarchYear
  generalize marchMonth days = month at month_le ⊢
  interval_cases month <;> simp [monthLength, monthStart]
  split <;> rfl

theorem marchMonth_succ (days : Nat) :
    marchMonth (days + 1) = marchMonth days ∧ days + 1 < monthStart (marchMonth days + 1) ∨
      marchMonth (days + 1) = marchMonth days + 1 ∧
        days + 1 = monthStart (marchMonth days + 1) := by
  unfold monthStart marchMonth
  omega

theorem day_ofMarch (year : Int) (days : Nat) : (ofMarch year days).day = marchDay days := by
  unfold ofMarch
  split <;> rfl

theorem lastOfMarchYear_le (year : Int) : lastOfMarchYear year ≤ 365 := by
  unfold lastOfMarchYear
  split <;> decide

theorem isValid_ofMarch {year : Int} {days : Nat} (inside : days ≤ lastOfMarchYear year) :
    (ofMarch year days).IsValid := by
  have within : days ≤ 365 := Nat.le_trans inside (lastOfMarchYear_le year)
  have length := monthLength_ofMarch year within
  have month_le := marchMonth_le within
  have begun := monthStart_le days
  have not_past := lt_monthStart days
  have final : monthStart 11 = 337 := rfl
  refine ⟨?_, ?_⟩
  · unfold ofMarch
    split <;> simp only <;> omega
  · rw [length, day_ofMarch, marchDay_eq]
    refine ⟨Nat.le_add_left 1 _, ?_⟩
    split
    · rename_i february
      rw [february, final] at begun ⊢
      omega
    · omega

/-- Within a year that begins in March, the next day is the day after. -/
theorem next_ofMarch {year : Int} {days : Nat} (inside : days < lastOfMarchYear year) :
    (ofMarch year days).next = ofMarch year (days + 1) := by
  have within : days ≤ 365 := Nat.le_of_lt (Nat.lt_of_lt_of_le inside (lastOfMarchYear_le year))
  have length := monthLength_ofMarch year within
  have month_le := marchMonth_le within
  have begun := monthStart_le days
  have final : monthStart 11 = 337 := rfl
  rw [Day.next, length, day_ofMarch, marchDay_eq]
  rcases marchMonth_succ days with ⟨same, not_past⟩ | ⟨later, begins⟩
  · -- the month has one more day
    have more : days - monthStart (marchMonth days) + 1 <
        if marchMonth days = 11 then lastOfMarchYear year - 336
        else monthStart (marchMonth days + 1) - monthStart (marchMonth days) := by
      split
      · rename_i february
        rw [february, final] at begun ⊢
        omega
      · omega
    rw [if_pos more]
    unfold ofMarch
    rw [same, marchDay_eq, marchDay_eq, same, ← Nat.sub_add_comm begun]
    split <;> rfl
  · -- the month is over, and it is not the last one
    have past : monthStart (11 + 1) = 367 := rfl
    have not_last : marchMonth days ≠ 11 := by
      intro last
      rw [last] at begins
      omega
    have first_day : marchDay (days + 1) = 1 := by
      rw [marchDay_eq, later, ← begins, Nat.sub_self]
    rw [if_neg not_last, if_neg (by omega)]
    unfold ofMarch
    rw [later, first_day]
    rcases (by omega : marchMonth days < 9 ∨ marchMonth days = 9 ∨ marchMonth days = 10) with
      spring | december | january
    · have within_year : marchMonth days + 3 < 12 ∧ marchMonth days + 1 < 10 := by omega
      simp [show marchMonth days < 10 by omega, within_year]
    · simp [december]
    · simp [january]

/-- After the last day of a year that begins in March, the next one begins. -/
theorem next_ofMarch_last (year : Int) :
    (ofMarch year (lastOfMarchYear year)).next = ofMarch (year + 1) 0 := by
  have leap_day : ofMarch year 365 = ⟨year + 1, 2, 29⟩ := rfl
  have last_day : ofMarch year 364 = ⟨year + 1, 2, 28⟩ := rfl
  have first_day : ofMarch (year + 1) 0 = ⟨year + 1, 3, 1⟩ := rfl
  unfold lastOfMarchYear
  cases leap : isLeap (year + 1) with
  | true => simp [leap_day, first_day, Day.next, monthLength, leap]
  | false => simp [last_day, first_day, Day.next, monthLength, leap]

/-- The last year of a cycle has a leap day at its end, and the others have one where the count of
days before the next year says so. -/
theorem lastOfMarchYear_eq (cycle : Int) {year : Nat} (below : year < 400) :
    lastOfMarchYear (cycle * 400 + year) =
      if year = 399 then 365 else daysBefore (year + 1) - daysBefore year - 1 := by
  have leap_iff : isLeap (cycle * 400 + year + 1) = true ↔
      year = 399 ∨ daysBefore (year + 1) = daysBefore year + 366 := by
    simp only [isLeap, daysBefore, Bool.and_eq_true, Bool.or_eq_true, decide_eq_true_eq,
      bne_iff_ne]
    omega
  have length : daysBefore (year + 1) = daysBefore year + 365 ∨
      daysBefore (year + 1) = daysBefore year + 366 := by
    unfold daysBefore
    omega
  unfold lastOfMarchYear
  split <;> split <;> simp_all

theorem daysBefore_mono {year other : Nat} (le : year ≤ other) :
    daysBefore year ≤ daysBefore other := by
  induction le with
  | refl => exact Nat.le_refl _
  | step _ ih =>
      refine Nat.le_trans ih ?_
      unfold daysBefore
      omega

theorem lt_daysBefore_succ {n : Nat} (next : yearOfDay n + 1 < 400) :
    n < daysBefore (yearOfDay n + 1) := by
  by_contra reached
  have mono := yearOfDay_mono (Nat.le_of_not_lt reached)
  rw [(yearOfDay_daysBefore _ next).1] at mono
  omega

/-- The next day of a cycle falls in the same year, or it is the first day of the next year. -/
theorem yearOfDay_succ {n : Nat} (inside : n + 1 < 146097) :
    yearOfDay (n + 1) = yearOfDay n ∧
        (yearOfDay n + 1 < 400 → n + 1 < daysBefore (yearOfDay n + 1)) ∨
      yearOfDay (n + 1) = yearOfDay n + 1 ∧ n + 1 = daysBefore (yearOfDay n + 1) := by
  have mono := yearOfDay_mono (Nat.le_add_right n 1)
  have begun := daysBefore_yearOfDay_le inside
  have below := yearOfDay_lt inside
  rcases Nat.lt_or_eq_of_le mono with later | same
  · right
    have ends := lt_daysBefore_succ (n := n) (by omega)
    have years : daysBefore (yearOfDay n + 1) ≤ daysBefore (yearOfDay (n + 1)) :=
      daysBefore_mono later
    have reached : n + 1 = daysBefore (yearOfDay n + 1) := by omega
    exact ⟨by rw [reached]; exact (yearOfDay_daysBefore _ (by omega)).1, reached⟩
  · left
    refine ⟨same.symm, fun next => ?_⟩
    rw [same] at next ⊢
    exact lt_daysBefore_succ next

/-- The next day falls in the same year from March, or it is the first day of the next such year. -/
theorem marchYear_succ (days : Int) :
    marchYear (days + 1) = marchYear days ∧ daysOfMarchYear (days + 1) = daysOfMarchYear days + 1 ∧
        daysOfMarchYear days < lastOfMarchYear (marchYear days) ∨
      marchYear (days + 1) = marchYear days + 1 ∧ daysOfMarchYear (days + 1) = 0 ∧
        daysOfMarchYear days = lastOfMarchYear (marchYear days) := by
  have positive : (0 : Int) < 146097 := by decide
  obtain ⟨nonneg, inside, whole⟩ := fmod_bounds positive (days + epochDays)
  obtain ⟨next_nonneg, next_inside, next_whole⟩ := fmod_bounds positive (days + 1 + epochDays)
  unfold marchYear daysOfMarchYear cycleDays
  generalize (days + epochDays).fdiv 146097 = cycle at *
  generalize (days + 1 + epochDays).fdiv 146097 = nextCycle at *
  generalize (days + epochDays).fmod 146097 = rest at *
  generalize (days + 1 + epochDays).fmod 146097 = nextRest at *
  have year_lt := yearOfDay_lt (n := rest.toNat) (by omega)
  have begun := daysBefore_yearOfDay_le (n := rest.toNat) (by omega)
  have last := lastOfMarchYear_eq cycle year_lt
  have no_days : daysBefore 0 = 0 := rfl
  have first_year : yearOfDay 0 = 0 := rfl
  rcases Int.lt_or_eq_of_le (show rest ≤ 146096 by omega) with within | ends
  · -- both days are in one cycle
    obtain rfl : nextCycle = cycle := by omega
    have next_rest : nextRest.toNat = rest.toNat + 1 := by omega
    rw [next_rest]
    rcases yearOfDay_succ (n := rest.toNat) (by omega) with ⟨same, not_past⟩ | ⟨later, begins⟩
    · left
      rw [same, last]
      refine ⟨rfl, by omega, ?_⟩
      split
      · rename_i final
        have final_begun : daysBefore 399 = 145731 := rfl
        rw [final] at begun ⊢
        omega
      · omega
    · right
      have year_lt_next := yearOfDay_lt (n := rest.toNat + 1) (by omega)
      rw [later, ← begins, last, if_neg (by omega)]
      omega
  · -- the last day of a cycle is followed by the first day of the next one
    obtain rfl : nextCycle = cycle + 1 := by omega
    obtain rfl : nextRest = 0 := by omega
    have last_year : yearOfDay 146096 = 399 := rfl
    have last_begun : daysBefore 399 = 145731 := rfl
    right
    subst ends
    rw [last]
    simp [last_year, last_begun, first_year, no_days]
    omega

/-- Each day lies in a month of the Gregorian calendar. -/
theorem isValid_ofEpoch (days : Int) : (Day.ofEpoch days).IsValid := by
  rw [Day.ofEpoch_eq]
  apply isValid_ofMarch
  rcases marchYear_succ days with ⟨-, -, inside⟩ | ⟨-, -, last⟩
  · exact Nat.le_of_lt inside
  · exact Nat.le_of_eq last

/-- Each day is followed by the next day of the Gregorian calendar. -/
theorem ofEpoch_succ (days : Int) : Day.ofEpoch (days + 1) = (Day.ofEpoch days).next := by
  rw [Day.ofEpoch_eq, Day.ofEpoch_eq]
  rcases marchYear_succ days with ⟨same_year, next_day, inside⟩ | ⟨next_year, first_day, last⟩
  · rw [same_year, next_day, next_ofMarch inside]
  · rw [next_year, first_day, last, next_ofMarch_last]

end CodeGauge.Calendar
