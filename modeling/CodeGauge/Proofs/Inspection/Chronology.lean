import CodeGauge.Proofs.Calendar.Gregorian
import CodeGauge.Proofs.Inspection.Zone
import CodeGauge.Proofs.History.Timeline

/-!
# Dates that tell times

In one zone a date is the text of one second, so a timeline has one entry for each second at which
something was measured; in the years 0 to 9999 the texts are in the order of the seconds as well, so
there the entries stand with the latest second first (`dates_tell_times`).
-/

namespace CodeGauge

open Calendar Measurement

variable {ε : Type}

theorem Calendar.format?_eq_none_iff {offset seconds : Int} :
    format? (.fixed offset) seconds = none ↔
      ¬(firstYear ≤ shownYear 0 seconds ∧ shownYear 0 seconds ≤ lastYear) := by
  rw [format?, ite_eq_right_iff]
  simp [inRange, shownYear]

theorem Calendar.toList_of_format? {offset seconds : Int} {date : String}
    (shown : format? (.fixed offset) seconds = some date) : date.toList = text offset seconds := by
  rw [format?] at shown
  split at shown
  · obtain rfl := Option.some.inj shown
    exact String.toList_ofList
  · cases shown

theorem Calendar.format?_injective {offset seconds other : Int} {date : String}
    (shown : format? (.fixed offset) seconds = some date)
    (other_shown : format? (.fixed offset) other = some date) : seconds = other := by
  have same : text offset seconds = text offset other := by
    rw [← toList_of_format? shown, ← toList_of_format? other_shown]
  exact text_injective same

theorem Calendar.lt_iff_format?_lt {offset seconds later : Int} {date laterDate : String}
    (shown : format? (.fixed offset) seconds = some date)
    (later_shown : format? (.fixed offset) later = some laterDate)
    (plain : IsPlainYear (shownYear offset seconds))
    (later_plain : IsPlainYear (shownYear offset later)) :
    seconds < later ↔ Text.utf8 date < Text.utf8 laterDate := by
  rw [← Text.lt_iff_utf8_lt, String.lt_iff_toList_lt, toList_of_format? shown,
    toList_of_format? later_shown, text_lt_text_iff plain later_plain]

def measuredTimes (found : List (Commit × TreeFile)) : List Int :=
  History.latestFirst ((byStem found).map fun item => item.1.time)

/-- The entry of a timeline for the files that were measured at a time: their mean, with the date of
the time in a zone. -/
def timelineEntry (analyzer : Analyzer ε) (zone : Zone) (found : List (Commit × TreeFile)) :
    Int → Sample :=
  History.entryAt (byStem found) (fun item => analyzer.figures item.2.text)
    (fun item => item.1.time) fun time => (format? zone time).getD ""

theorem mem_measuredTimes_iff {found : List (Commit × TreeFile)} {time : Int} :
    time ∈ measuredTimes found ↔ ∃ item ∈ found, item.1.time = time := by
  rw [measuredTimes, History.mem_latestFirst, List.mem_map]
  simp only [(byStem_perm found).mem_iff]

variable {analyzer : Analyzer ε} {offset : Int} {log : List (Nat × Commit)}

/-- A timeline has one entry for each second at which something was measured, of what was measured
at that second. -/
theorem timeline_perm_measuredTimes (readable : ∀ entry ∈ log, entry.2.IsReadable (.fixed offset)) :
    (History.ofPairs ((qualifyingOf log).map (findingOf analyzer (.fixed offset)))).timeline.Perm
      ((measuredTimes (qualifyingOf log)).map
        (timelineEntry analyzer (.fixed offset) (qualifyingOf log))) := by
  refine History.timeline_perm_map_times (samples_ofPairs_findingOf analyzer (.fixed offset) _) ?_
  intro first first_mem second second_mem same
  obtain ⟨item, item_mem, rfl⟩ := List.mem_map.mp first_mem
  obtain ⟨other, other_mem, rfl⟩ := List.mem_map.mp second_mem
  have shown := (isReadable_of_mem_qualifyingOf readable (mem_of_mem_byStem item_mem)).dated
  have other_shown := (isReadable_of_mem_qualifyingOf readable (mem_of_mem_byStem other_mem)).dated
  rw [Commit.date, same] at shown
  exact format?_injective shown other_shown

theorem timeline_eq_measuredTimes (readable : ∀ entry ∈ log, entry.2.IsReadable (.fixed offset))
    (plain : ∀ time ∈ measuredTimes (qualifyingOf log), IsPlainYear (shownYear offset time)) :
    (History.ofPairs ((qualifyingOf log).map (findingOf analyzer (.fixed offset)))).timeline =
      (measuredTimes (qualifyingOf log)).map
        (timelineEntry analyzer (.fixed offset) (qualifyingOf log)) :=
  History.timeline_eq_map_times (samples_ofPairs_findingOf analyzer (.fixed offset) _)
    (dates_order_times readable fun item mem =>
      plain item.1.time (mem_measuredTimes_iff.mpr ⟨item, mem, rfl⟩))

/-- A date is shown for just the times in the years of the calendar, which is the Gregorian one, and
no two times share a date.  In the years 0 to 9999 the bytes of dates are in the order of the times.
So a timeline puts together only what was measured at one second, and in these years it has the
latest second first. -/
theorem dates_tell_times (offset : Int) :
    (Day.ofEpoch 0 = ⟨1970, 1, 1⟩ ∧
      ∀ days, (Day.ofEpoch days).IsValid ∧ Day.ofEpoch (days + 1) = (Day.ofEpoch days).next) ∧
    (∀ seconds, format? (.fixed offset) seconds = none ↔
      ¬(-262143 ≤ shownYear 0 seconds ∧ shownYear 0 seconds ≤ 262142)) ∧
    (∀ seconds other date, format? (.fixed offset) seconds = some date →
      format? (.fixed offset) other = some date → seconds = other) ∧
    (∀ seconds later date laterDate, format? (.fixed offset) seconds = some date →
      format? (.fixed offset) later = some laterDate → IsPlainYear (shownYear offset seconds) →
      IsPlainYear (shownYear offset later) →
      (seconds < later ↔ Text.utf8 date < Text.utf8 laterDate)) ∧
    ∀ (repository : Repository) (analyzer : Analyzer ε) (limit : Option Nat)
      (history : History Sample), repository.history analyzer (.fixed offset) limit = .ok history →
      ∃ (log : List (Nat × Commit)) (times : List Int), repository.log limit = .ok log ∧
        times.Pairwise (fun first second => second < first) ∧
        (∀ time, time ∈ times ↔ ∃ item ∈ qualifyingOf log, item.1.time = time) ∧
        history.timeline.Perm
          (times.map (timelineEntry analyzer (.fixed offset) (qualifyingOf log))) ∧
        ((∀ time ∈ times, IsPlainYear (shownYear offset time)) →
          history.timeline =
            times.map (timelineEntry analyzer (.fixed offset) (qualifyingOf log))) := by
  refine ⟨⟨rfl, fun days => ⟨isValid_ofEpoch days, ofEpoch_succ days⟩⟩,
    fun _ => format?_eq_none_iff, fun _ _ _ => format?_injective,
    fun _ _ _ _ => lt_iff_format?_lt, fun repository analyzer limit history walk => ?_⟩
  obtain ⟨log, walked, readable, rfl⟩ := history_eq_ok_iff.mp walk
  exact ⟨log, measuredTimes (qualifyingOf log), walked, History.pairwise_latestFirst _,
    fun _ => mem_measuredTimes_iff, timeline_perm_measuredTimes readable,
    timeline_eq_measuredTimes readable⟩

theorem small_dates_tell_times :
    (∃ date laterDate, format? (.fixed 19800) 0 = some date ∧
      format? (.fixed 19800) 60 = some laterDate ∧
      IsPlainYear (shownYear 19800 0) ∧ IsPlainYear (shownYear 19800 60) ∧
      Text.utf8 date < Text.utf8 laterDate ∧ date ≠ laterDate) ∧
    ∃ (history : History Sample) (log : List (Nat × Commit)) (times : List Int),
      smallRepository.history pythonAnalyzer (.fixed 19800) none = .ok history ∧
      smallRepository.log none = .ok log ∧
      (∀ time ∈ times, IsPlainYear (shownYear 19800 time)) ∧
      history.timeline =
        times.map (timelineEntry pythonAnalyzer (.fixed 19800) (qualifyingOf log)) := by
  obtain ⟨-, -, apart, order, timelines⟩ := dates_tell_times 19800
  have shown : format? (.fixed 19800) 0 = some (String.ofList (text 19800 0)) := rfl
  have later_shown : format? (.fixed 19800) 60 = some (String.ofList (text 19800 60)) := rfl
  have plain : IsPlainYear (shownYear 19800 0) ∧ IsPlainYear (shownYear 19800 60) := by
    decide +kernel
  have success :
      (smallRepository.history pythonAnalyzer (.fixed 19800) none).toOption.isSome = true := by
    decide +kernel
  obtain ⟨history, walk⟩ := exists_eq_ok success
  obtain ⟨log, times, walked, -, mem_iff, -, chronological⟩ := timelines _ _ _ history walk
  have small_log : smallRepository.log none = .ok [(1, newerCommit), (0, olderCommit)] := rfl
  have plain_times : ∀ time ∈ times, IsPlainYear (shownYear 19800 time) := by
    intro time mem
    obtain ⟨item, item_mem, rfl⟩ := (mem_iff time).mp mem
    obtain ⟨entry, entry_mem, entry_eq⟩ := entry_of_mem_qualifyingOf item_mem
    obtain rfl := Except.ok.inj (small_log.symm.trans walked)
    rw [← entry_eq]
    rcases List.mem_pair.mp entry_mem with rfl | rfl
    · exact plain.2
    · exact plain.1
  refine ⟨⟨_, _, shown, later_shown, plain.1, plain.2,
      (order _ _ _ _ shown later_shown plain.1 plain.2).mp (by decide), fun same => ?_⟩,
    history, log, times, walk, walked, plain_times, chronological plain_times⟩
  exact absurd (apart 0 60 _ shown (same ▸ later_shown)) (by decide)

end CodeGauge
