import CodeGauge.Proofs.Calendar.Text
import CodeGauge.Proofs.Inspection.Head
import CodeGauge.Proofs.Inspection.Success

/-!
# Inspections in two zones

The zone of the dates is read only where a sample is dated, so two walks in different zones agree
once the dates are made blank, in what they file and in how they fail (`history_undated_eq`).  The
timeline groups and sorts by the texts of dates; in the years 0 to 9999 these are in the order of
the times, which no zone changes (`timeline_undated_eq`).  So inspections in two zones agree as well
(`inspect_undated_eq`).
-/

namespace CodeGauge

open Measurement

variable {ε : Type}

/-- The same sample with a blank text for its date, if it has one. -/
def Sample.undated (sample : Sample) : Sample := { sample with date := sample.date.map fun _ => "" }

def History.undated (history : History Sample) : History Sample := history.map Sample.undated

def Inspection.undated (inspection : Inspection) : Inspection :=
  { inspection with
    metrics := inspection.metrics.undated
    byFile := inspection.byFile.map Sample.undated
    filesHistory := inspection.filesHistory.undated
    timeline := inspection.timeline.map Sample.undated }

theorem Sample.undated_withDate (sample : Sample) (date : String) :
    (sample.withDate date).undated = sample.withDate "" := rfl

theorem Sample.mean_map_undated (samples : List Sample) :
    Sample.mean (samples.map Sample.undated) = Sample.mean samples := by
  rw [Sample.mean, List.map_map]
  rfl

theorem History.undated_push (history : History Sample) (stem : String) (sample : Sample) :
    (history.push stem sample).undated = history.undated.push stem sample.undated :=
  History.map_push Sample.undated history stem sample

theorem History.firstSamples_undated (history : History Sample) :
    history.undated.firstSamples = history.firstSamples.map Sample.undated := by
  simp only [History.firstSamples, History.undated, History.map, List.filterMap_map,
    List.map_filterMap]
  refine List.filterMap_congr fun series _ => ?_
  simp only [Function.comp_apply, List.head?_map, Option.map_map]
  rfl

theorem map_eq_map_iff {α β δ : Type} {first second : Except δ α} {view : α → β} :
    first.map view = second.map view ↔
      (∃ failure, first = .error failure ∧ second = .error failure) ∨
        ∃ a b, first = .ok a ∧ second = .ok b ∧ view a = view b := by
  cases first <;> cases second <;> simp [Except.map, eq_comm]

/-- Folds agree in a view of their states, and in how they fail, where their steps do. -/
theorem foldlM_view_eq {α β γ δ : Type} {view : α → γ} {step other : α → β → Except δ α}
    (agree : ∀ first second item, view first = view second →
      (step first item).map view = (other second item).map view)
    {items : List β} {first second : α} (same : view first = view second) :
    (items.foldlM step first).map view = (items.foldlM other second).map view := by
  induction items generalizing first second with
  | nil => exact congrArg Except.ok same
  | cons item items ih =>
      rw [List.foldlM_cons, List.foldlM_cons]
      rcases map_eq_map_iff.mp (agree first second item same) with
        ⟨failure, failed, other_failed⟩ | ⟨after, other_after, done, other_done, same_after⟩
      · rw [failed, other_failed]
        rfl
      · rw [done, other_done]
        exact ih same_after

theorem measureFile_undated_eq (analyzer : Analyzer ε) (date other : String)
    {first second : History Sample} (same : first.undated = second.undated) (file : TreeFile) :
    (measureFile analyzer date first file).map History.undated =
      (measureFile analyzer other second file).map History.undated := by
  unfold measureFile
  cases file.isMeasured with
  | false => exact congrArg Except.ok same
  | true =>
      cases file.content with
      | none => rfl
      | some content =>
          by_cases blank : (measuredText content).isEmpty = true
          · simpa [blank, Except.map] using same
          · simp only [blank, if_true, if_false, Except.map, History.undated_push, same,
              textSample, Sample.undated_withDate, Bool.false_eq_true]

theorem measureCommit_undated_eq (analyzer : Analyzer ε) (zone other : Calendar.Zone)
    {first second : History Sample} (same : first.undated = second.undated) (commit : Commit) :
    (measureCommit analyzer zone first commit).map History.undated =
      (measureCommit analyzer other second commit).map History.undated := by
  have dated := Calendar.format?_isSome zone commit.time
  have other_dated := Calendar.format?_isSome other commit.time
  unfold measureCommit
  cases in_calendar : Calendar.inRange commit.time with
  | false =>
      rw [in_calendar, Option.isSome_eq_false_iff, Option.isNone_iff_eq_none] at dated other_dated
      rw [dated, other_dated]
  | true =>
      rw [in_calendar] at dated other_dated
      obtain ⟨date, date_eq⟩ := Option.isSome_iff_exists.mp dated
      obtain ⟨other_date, other_date_eq⟩ := Option.isSome_iff_exists.mp other_dated
      rw [date_eq, other_date_eq]
      cases commit.files with
      | error failure => rfl
      | ok files =>
          exact foldlM_view_eq (fun _ _ file same =>
            measureFile_undated_eq analyzer date other_date same file) same

theorem history_undated_eq (repository : Repository) (analyzer : Analyzer ε)
    (zone other : Calendar.Zone) (limit : Option Nat) :
    (repository.history analyzer zone limit).map History.undated =
      (repository.history analyzer other limit).map History.undated := by
  unfold Repository.history
  cases repository.log limit with
  | error failure => rfl
  | ok log =>
      exact foldlM_view_eq (fun _ _ commit same =>
        measureCommit_undated_eq analyzer zone other same commit) rfl

def byStem (found : List (Commit × TreeFile)) : List (Commit × TreeFile) :=
  (found.map fun item => item.2.key).eraseDups.flatMap fun stem =>
    found.filter fun item => item.2.key == stem

theorem samples_ofPairs_findingOf (analyzer : Analyzer ε) (zone : Calendar.Zone)
    (found : List (Commit × TreeFile)) :
    (History.ofPairs (found.map (findingOf analyzer zone))).samples =
      (byStem found).map (sampleOf analyzer zone) := by
  rw [History.samples, History.series_ofPairs, map_fst_findingOf, byStem, List.flatMap_map,
    List.map_flatMap]
  simp only [valuesOf_findingOf]

theorem byStem_perm (found : List (Commit × TreeFile)) : (byStem found).Perm found :=
  flatMap_filter_perm (nodup_eraseDups _) fun _ mem =>
    List.mem_eraseDups.mpr (List.mem_map_of_mem mem)

theorem mem_of_mem_byStem {found : List (Commit × TreeFile)} {item : Commit × TreeFile}
    (mem : item ∈ byStem found) : item ∈ found := (byStem_perm found).mem_iff.mp mem

theorem isReadable_of_mem_qualifyingOf {zone : Calendar.Zone} {log : List (Nat × Commit)}
    (readable : ∀ entry ∈ log, entry.2.IsReadable zone) {item : Commit × TreeFile}
    (mem : item ∈ qualifyingOf log) : item.1.IsReadable zone := by
  obtain ⟨entry, entry_mem, entry_eq⟩ := entry_of_mem_qualifyingOf mem
  exact entry_eq ▸ readable entry entry_mem

theorem date_le_date_iff {offset : Int} {first second : Commit}
    (first_readable : first.IsReadable (.fixed offset))
    (second_readable : second.IsReadable (.fixed offset))
    (first_plain : Calendar.IsPlainYear (Calendar.shownYear offset first.time))
    (second_plain : Calendar.IsPlainYear (Calendar.shownYear offset second.time)) :
    first.date (.fixed offset) ≤ second.date (.fixed offset) ↔ first.time ≤ second.time := by
  have text_of : ∀ {commit : Commit}, commit.IsReadable (.fixed offset) →
      commit.date (.fixed offset) = String.ofList (Calendar.text offset commit.time) := by
    intro commit readable
    have in_calendar := Commit.dated_iff.mp readable.dated
    rw [Commit.date, Calendar.format?, if_pos in_calendar, Option.getD_some]
    rfl
  rw [text_of first_readable, text_of second_readable, String.le_iff_toList_le,
    String.toList_ofList, String.toList_ofList, ← not_lt,
    Calendar.text_lt_text_iff second_plain first_plain, not_lt]

theorem dates_order_times {offset : Int} {log : List (Nat × Commit)}
    (readable : ∀ entry ∈ log, entry.2.IsReadable (.fixed offset))
    (plain : ∀ item ∈ qualifyingOf log,
      Calendar.IsPlainYear (Calendar.shownYear offset item.1.time)) :
    ∀ first ∈ (byStem (qualifyingOf log)).map (fun item => item.1.time),
      ∀ second ∈ (byStem (qualifyingOf log)).map (fun item => item.1.time),
        (Calendar.format? (.fixed offset) first).getD "" ≤
            (Calendar.format? (.fixed offset) second).getD "" ↔ first ≤ second := by
  intro first first_mem second second_mem
  obtain ⟨item, item_mem, rfl⟩ := List.mem_map.mp first_mem
  obtain ⟨other, other_mem, rfl⟩ := List.mem_map.mp second_mem
  have item_measured := mem_of_mem_byStem item_mem
  have other_measured := mem_of_mem_byStem other_mem
  exact date_le_date_iff (isReadable_of_mem_qualifyingOf readable item_measured)
    (isReadable_of_mem_qualifyingOf readable other_measured) (plain item item_measured)
    (plain other other_measured)

theorem timeline_undated_eq (analyzer : Analyzer ε) {offset : Int} {log : List (Nat × Commit)}
    (readable : ∀ entry ∈ log, entry.2.IsReadable (.fixed offset))
    (plain : ∀ entry ∈ log, Calendar.IsPlainYear (Calendar.shownYear offset entry.2.time)) :
    ((History.ofPairs ((qualifyingOf log).map (findingOf analyzer (.fixed offset)))).timeline.map
        Sample.undated) =
      (History.latestFirst ((byStem (qualifyingOf log)).map fun item => item.1.time)).map
        fun moment => (Sample.ofFigures (.mean
          (((byStem (qualifyingOf log)).filter fun item => item.1.time == moment).map
            fun item => analyzer.figures item.2.text))).withDate "" := by
  have order := dates_order_times readable fun item mem => by
    obtain ⟨entry, entry_mem, entry_eq⟩ := entry_of_mem_qualifyingOf mem
    exact entry_eq ▸ plain entry entry_mem
  rw [History.timeline_eq_map_times (samples_ofPairs_findingOf analyzer (.fixed offset) _) order,
    List.map_map]
  rfl

theorem wholeHistory_undated_eq (repository : Repository) (analyzer : Analyzer ε)
    (zone other : Calendar.Zone) (settings : Settings) :
    (repository.wholeHistory analyzer zone settings).map History.undated =
      (repository.wholeHistory analyzer other settings).map History.undated := by
  unfold Repository.wholeHistory
  cases settings.wholeLog with
  | false => rfl
  | true => exact history_undated_eq repository analyzer zone other _

theorem timeline_undated_eq_of_walks {repository : Repository} {analyzer : Analyzer ε}
    {offset other : Int} {limit : Option Nat} {history otherHistory : History Sample}
    (walk : repository.history analyzer (.fixed offset) limit = .ok history)
    (other_walk : repository.history analyzer (.fixed other) limit = .ok otherHistory)
    (plain : ∀ log, repository.log limit = .ok log → ∀ entry ∈ log,
      Calendar.IsPlainYear (Calendar.shownYear offset entry.2.time) ∧
        Calendar.IsPlainYear (Calendar.shownYear other entry.2.time)) :
    history.timeline.map Sample.undated = otherHistory.timeline.map Sample.undated := by
  obtain ⟨log, walked, readable, rfl⟩ := history_eq_ok_iff.mp walk
  obtain ⟨_, walked_again, other_readable, rfl⟩ := history_eq_ok_iff.mp other_walk
  obtain rfl := Except.ok.inj (walked.symm.trans walked_again)
  rw [timeline_undated_eq analyzer readable fun entry mem => (plain log walked entry mem).1,
    timeline_undated_eq analyzer other_readable fun entry mem => (plain log walked entry mem).2]

theorem ofWalks_undated_eq {path : String} {settings other : Settings}
    {current otherCurrent whole otherWhole : History Sample}
    (same_wholeLog : settings.wholeLog = other.wholeLog)
    (same_mostCommits : settings.mostCommits = other.mostCommits)
    (same_current : current.undated = otherCurrent.undated)
    (same_whole : whole.undated = otherWhole.undated)
    (same_timeline : other.wholeLog = true →
      whole.timeline.map Sample.undated = otherWhole.timeline.map Sample.undated) :
    (Inspection.ofWalks path settings current whole).undated =
      (Inspection.ofWalks path other otherCurrent otherWhole).undated := by
  have same_byFile : current.firstSamples.map Sample.undated =
      otherCurrent.firstSamples.map Sample.undated := by
    rw [← History.firstSamples_undated, same_current, History.firstSamples_undated]
  have same_metrics : Sample.mean current.firstSamples = Sample.mean otherCurrent.firstSamples := by
    rw [← Sample.mean_map_undated, same_byFile, Sample.mean_map_undated]
  simp only [Inspection.undated, Inspection.ofWalks, same_wholeLog, same_mostCommits, same_byFile,
    same_metrics, same_whole]
  cases other_whole : other.wholeLog with
  | false => simp only [Bool.false_eq_true, if_false]
  | true => simp only [if_true, same_timeline other_whole]

/-- Inspections that differ in the zone of their dates find the same but for these dates, or fail in
the same way, if the log that they measure has its times in the years 0 to 9999 of both zones. -/
theorem inspect_undated_eq (repository : Repository) (analyzer : Analyzer ε) (path : String)
    (localOffset : Int) (settings : Settings)
    (plain : settings.wholeLog = true → ∀ log,
      repository.log (historyLimit settings.mostCommits) = .ok log → ∀ entry ∈ log,
        Calendar.IsPlainYear (Calendar.shownYear 0 entry.2.time) ∧
          Calendar.IsPlainYear (Calendar.shownYear localOffset entry.2.time)) :
    (repository.inspect analyzer path (.fixed localOffset)
        { settings with universalTime := true }).map Inspection.undated =
      (repository.inspect analyzer path (.fixed localOffset)
        { settings with universalTime := false }).map Inspection.undated := by
  rw [inspect_eq_walks, inspect_eq_walks]
  change (Except.bind (repository.history analyzer (.fixed 0) (some 1)) fun current =>
      (repository.wholeHistory analyzer (.fixed 0) settings).map _).map Inspection.undated =
    (Except.bind (repository.history analyzer (.fixed localOffset) (some 1)) fun current =>
      (repository.wholeHistory analyzer (.fixed localOffset) settings).map _).map Inspection.undated
  have walks := history_undated_eq repository analyzer (.fixed 0) (.fixed localOffset) (some 1)
  rcases map_eq_map_iff.mp walks with
    ⟨failure, failed, other_failed⟩ | ⟨current, otherCurrent, walk, other_walk, same_current⟩
  · simp only [failed, other_failed, Except.bind, Except.map]
  rw [walk, other_walk]
  have whole_walks :=
    wholeHistory_undated_eq repository analyzer (.fixed 0) (.fixed localOffset) settings
  rcases map_eq_map_iff.mp whole_walks with
    ⟨failure, failed, other_failed⟩ | ⟨whole, otherWhole, walk, other_walk, same_whole⟩
  · simp only [failed, other_failed, Except.bind, Except.map]
  simp only [Except.bind, walk, other_walk]
  refine congrArg Except.ok (ofWalks_undated_eq rfl rfl same_current same_whole fun asked => ?_)
  rw [Repository.wholeHistory, if_pos asked] at walk other_walk
  exact timeline_undated_eq_of_walks walk other_walk (plain asked)

def wholeLogSettings : Settings := ⟨true, 0, true⟩

theorem small_inspect_undated :
    (∀ log, smallRepository.log (historyLimit wholeLogSettings.mostCommits) = .ok log →
      ∀ entry ∈ log, Calendar.IsPlainYear (Calendar.shownYear 0 entry.2.time) ∧
        Calendar.IsPlainYear (Calendar.shownYear (-3600) entry.2.time)) ∧
      (smallRepository.inspect pythonAnalyzer "small" (.fixed (-3600))
          { wholeLogSettings with universalTime := true }).map Inspection.undated =
        (smallRepository.inspect pythonAnalyzer "small" (.fixed (-3600))
          { wholeLogSettings with universalTime := false }).map Inspection.undated := by
  have plain : ∀ log, smallRepository.log (historyLimit wholeLogSettings.mostCommits) = .ok log →
      ∀ entry ∈ log, Calendar.IsPlainYear (Calendar.shownYear 0 entry.2.time) ∧
        Calendar.IsPlainYear (Calendar.shownYear (-3600) entry.2.time) := by
    intro log walk
    have walked : smallRepository.log (historyLimit wholeLogSettings.mostCommits) =
        .ok [(1, newerCommit), (0, olderCommit)] := rfl
    obtain rfl := Except.ok.inj (walked.symm.trans walk)
    decide +kernel
  exact ⟨plain, inspect_undated_eq smallRepository pythonAnalyzer "small" (-3600) wholeLogSettings
    fun _ => plain⟩

end CodeGauge
