import CodeGauge.Proofs.History.Timeline
import CodeGauge.Proofs.Inspection.FirstSamples
import CodeGauge.Proofs.Inspection.Walk

/-!
# The head of an inspection

An inspection measures the head alone and, if asked, the whole log.  The two walks agree on the
head: the samples by file are the heads of the first series of the log (`byFile_heads_history`).
There is one of them for each qualifying file exactly when no two of these files have the same stem
(`byFile_perm_qualifying_iff`), and then their mean is the entry of the timeline at the date of the
head (`timeline_at_head`).
-/

namespace CodeGauge

open Measurement

variable {ε : Type} {repository : Repository} {analyzer : Analyzer ε} {path : String}
  {localZone : Calendar.Zone} {settings : Settings} {inspection : Inspection}

def Inspection.ofWalks (path : String) (settings : Settings)
    (current filesHistory : History Sample) : Inspection where
  repositoryPath := path
  metrics := .mean current.firstSamples
  byFile := current.firstSamples
  filesHistory := filesHistory
  timeline := if settings.wholeLog then filesHistory.timeline else []
  historyInspected := settings.wholeLog
  historyLimit := CodeGauge.historyLimit settings.mostCommits

/-- The walk over the log that settings ask for; nothing is found where they ask for none. -/
def Repository.wholeHistory (repository : Repository) (analyzer : Analyzer ε) (zone : Calendar.Zone)
    (settings : Settings) : Except Failure (History Sample) :=
  if settings.wholeLog then
    repository.history analyzer zone (historyLimit settings.mostCommits)
  else .ok .empty

theorem inspect_eq_walks :
    repository.inspect analyzer path localZone settings =
      (repository.history analyzer (settings.zone localZone) (some 1)).bind fun current =>
        (repository.wholeHistory analyzer (settings.zone localZone) settings).map fun whole =>
          .ofWalks path settings current whole := by
  unfold Repository.inspect Repository.wholeHistory Inspection.ofWalks
  cases first : repository.history analyzer (settings.zone localZone) (some 1) with
  | error failure => simp [bind, Except.bind, first]
  | ok current =>
      cases asked : settings.wholeLog with
      | false => simp [bind, Except.bind, pure, Except.pure, Except.map, first]
      | true =>
          cases second : repository.history analyzer (settings.zone localZone)
              (historyLimit settings.mostCommits) <;>
            simp [bind, Except.bind, pure, Except.pure, Except.map, first, second]

theorem inspect_eq_ok_iff :
    repository.inspect analyzer path localZone settings = .ok inspection ↔
      ∃ current filesHistory,
        repository.history analyzer (settings.zone localZone) (some 1) = .ok current ∧
          (if settings.wholeLog then
              repository.history analyzer (settings.zone localZone)
                (historyLimit settings.mostCommits)
            else .ok .empty) = .ok filesHistory ∧
            inspection = .ofWalks path settings current filesHistory := by
  rw [inspect_eq_walks]
  cases repository.history analyzer (settings.zone localZone) (some 1) with
  | error failure => simp [Except.bind]
  | ok current =>
      simp only [Except.bind, Except.ok.injEq, exists_eq_left', exists_and_left]
      change _ ↔ ∃ filesHistory,
        repository.wholeHistory analyzer (settings.zone localZone) settings = .ok filesHistory ∧
          inspection = .ofWalks path settings current filesHistory
      cases repository.wholeHistory analyzer (settings.zone localZone) settings <;>
        simp [Except.map, eq_comm]

theorem historyLimit_ne_zero (count : Int) : historyLimit count ≠ some 0 := by
  unfold historyLimit
  split
  · simp
    omega
  · simp

/-- The walk that ends after one commit files what the head files. -/
theorem history_one_eq {zone : Calendar.Zone} {current : History Sample}
    (walk : repository.history analyzer zone (some 1) = .ok current) :
    ∃ head commit, repository.head = some head ∧ repository.commit? head = some commit ∧
      commit.IsReadable zone ∧ current = .ofPairs (commit.findings analyzer zone) := by
  obtain ⟨log, walked, readable, rfl⟩ := history_eq_ok_iff.mp walk
  obtain ⟨head, commit, at_head, present, rfl⟩ := Repository.log_one_eq walked
  refine ⟨head, commit, at_head, present, readable _ (List.mem_singleton_self _), ?_⟩
  simp [qualifyingOf, Commit.findings, Function.comp_def]

/-- Any other walk files what the head files and then what the other commits of its log file. -/
theorem history_uncut_eq {zone : Calendar.Zone} {limit : Option Nat} {history : History Sample}
    (uncut : limit ≠ some 0) (walk : repository.history analyzer zone limit = .ok history) :
    ∃ head commit others, repository.head = some head ∧ repository.commit? head = some commit ∧
      repository.log limit = .ok ((head, commit) :: others) ∧
        (∀ entry ∈ others, entry.2.IsReadable zone) ∧
          history = (History.ofPairs (commit.findings analyzer zone)).pushAll
            ((qualifyingOf others).map (findingOf analyzer zone)) := by
  obtain ⟨log, walked, readable, rfl⟩ := history_eq_ok_iff.mp walk
  obtain ⟨head, commit, others, at_head, present, rfl⟩ := Repository.log_eq_cons uncut walked
  refine ⟨head, commit, others, at_head, present, walked,
    fun entry mem => readable entry (List.mem_cons_of_mem _ mem), ?_⟩
  rw [← History.ofPairs_append]
  simp [qualifyingOf, Commit.findings, Function.comp_def]

theorem inspect_whole_eq
    (inspected : repository.inspect analyzer path localZone settings = .ok inspection)
    (whole : settings.wholeLog = true) :
    ∃ head commit others, repository.head = some head ∧ repository.commit? head = some commit ∧
      commit.IsReadable (settings.zone localZone) ∧
      repository.log (historyLimit settings.mostCommits) = .ok ((head, commit) :: others) ∧
      (∀ entry ∈ others, entry.2.IsReadable (settings.zone localZone)) ∧
      inspection.byFile =
        (History.ofPairs (commit.findings analyzer (settings.zone localZone))).firstSamples ∧
      inspection.metrics = .mean inspection.byFile ∧
      inspection.filesHistory =
        (History.ofPairs (commit.findings analyzer (settings.zone localZone))).pushAll
          ((qualifyingOf others).map (findingOf analyzer (settings.zone localZone))) ∧
      inspection.timeline = inspection.filesHistory.timeline := by
  obtain ⟨current, filesHistory, walk, whole_walk, rfl⟩ := inspect_eq_ok_iff.mp inspected
  rw [if_pos whole] at whole_walk
  obtain ⟨head, commit, at_head, present, readable, rfl⟩ := history_one_eq walk
  obtain ⟨_, _, others, at_head_again, present_again, walked, others_readable, rfl⟩ :=
    history_uncut_eq (historyLimit_ne_zero _) whole_walk
  obtain rfl := Option.some.inj (at_head.symm.trans at_head_again)
  obtain rfl := Option.some.inj (present.symm.trans present_again)
  exact ⟨head, commit, others, at_head, present, readable, walked, others_readable, rfl, rfl, rfl,
    if_pos whole⟩

theorem lines_mean_samples (samples : List Sample) :
    (Sample.mean samples).figures.lines =
      total (samples.map fun sample => sample.figures.lines) := by
  rw [Sample.mean, Sample.ofFigures, Figures.lines_mean, Figures.totalLines, List.map_map]
  rfl

def namedSampleOf (analyzer : Analyzer ε) (zone : Calendar.Zone) (found : Commit × TreeFile) :
    Sample :=
  (sampleOf analyzer zone found).withFile found.2.key

theorem map_fst_findings (analyzer : Analyzer ε) (zone : Calendar.Zone) (commit : Commit) :
    (commit.findings analyzer zone).map Prod.fst = commit.qualifying.map TreeFile.key := by
  simp [Commit.findings, findingOf, Function.comp_def]

theorem firstSamples_findings (analyzer : Analyzer ε) (zone : Calendar.Zone) (commit : Commit) :
    (History.ofPairs (commit.findings analyzer zone)).firstSamples =
      (commit.qualifying.map TreeFile.key).eraseDups.filterMap fun stem =>
        (commit.qualifying.find? fun file => file.key == stem).map fun file =>
          namedSampleOf analyzer zone (commit, file) := by
  rw [History.firstSamples_ofPairs, map_fst_findings]
  refine List.filterMap_congr fun stem _ => ?_
  rw [Commit.findings, List.find?_map, Option.map_map]
  simp only [Function.comp_def, findingOf]
  cases found : commit.qualifying.find? fun file => file.key == stem with
  | none => rfl
  | some file =>
      have same : file.key = stem := by simpa using List.find?_some found
      simp [namedSampleOf, same]

theorem firstSamples_findings_of_nodup (analyzer : Analyzer ε) (zone : Calendar.Zone)
    {commit : Commit} (distinct : (commit.qualifying.map TreeFile.key).Nodup) :
    (History.ofPairs (commit.findings analyzer zone)).firstSamples =
      commit.qualifying.map fun file => namedSampleOf analyzer zone (commit, file) := by
  rw [← map_fst_findings analyzer zone] at distinct
  rw [History.firstSamples_ofPairs_of_nodup distinct, Commit.findings, List.map_map]
  rfl

/-- The files of a commit have one first sample each exactly when their stems are distinct. -/
theorem firstSamples_findings_perm_iff {zone : Calendar.Zone} {commit : Commit} :
    (History.ofPairs (commit.findings analyzer zone)).firstSamples.Perm
        (commit.qualifying.map fun file => namedSampleOf analyzer zone (commit, file)) ↔
      (commit.qualifying.map TreeFile.key).Nodup := by
  constructor
  · intro all
    have lengths := all.length_eq
    rw [History.length_firstSamples_ofPairs, map_fst_findings, List.length_map,
      ← List.length_map (f := TreeFile.key)] at lengths
    exact (length_eraseDups_eq_iff _).mp lengths
  · intro distinct
    rw [firstSamples_findings_of_nodup analyzer zone distinct]

theorem lines_mean_findings_iff {zone : Calendar.Zone} {commit : Commit} :
    (Sample.mean
          (History.ofPairs (commit.findings analyzer zone)).firstSamples).figures.lines =
        total (commit.qualifying.map fun file => (analyzer.figures file.text).lines) ↔
      commit.qualifying.Pairwise fun first second =>
        first.key = second.key → (analyzer.figures second.text).lines = 0 := by
  have lines : ((commit.findings analyzer zone).map fun pair => pair.2.figures.lines) =
      commit.qualifying.map fun file => (analyzer.figures file.text).lines := by
    rw [Commit.findings, List.map_map]
    rfl
  rw [lines_mean_samples, ← lines, (History.total_lines_firstSamples _).2, Commit.findings,
    List.pairwise_map]
  rfl

/-- There is one sample for each qualifying file of the head exactly when no two of these files
have the same stem.  Otherwise only the first file of each stem has a sample, and the lines of the
others are missing from the sum. -/
theorem byFile_perm_qualifying_iff
    (inspected : repository.inspect analyzer path localZone settings = .ok inspection) :
    ∃ commit, repository.headCommit? = some commit ∧
      commit.IsReadable (settings.zone localZone) ∧
      (inspection.byFile.Perm (commit.qualifying.map fun file =>
          namedSampleOf analyzer (settings.zone localZone) (commit, file)) ↔
        (commit.qualifying.map TreeFile.key).Nodup) ∧
      inspection.byFile =
        (commit.qualifying.map TreeFile.key).eraseDups.filterMap (fun stem =>
          (commit.qualifying.find? fun file => file.key == stem).map fun file =>
            namedSampleOf analyzer (settings.zone localZone) (commit, file)) ∧
      (inspection.metrics.figures.lines =
          total (commit.qualifying.map fun file => (analyzer.figures file.text).lines) ↔
        commit.qualifying.Pairwise fun first second =>
          first.key = second.key → (analyzer.figures second.text).lines = 0) := by
  obtain ⟨current, filesHistory, walk, -, rfl⟩ := inspect_eq_ok_iff.mp inspected
  obtain ⟨head, commit, at_head, present, readable, rfl⟩ := history_one_eq walk
  have head_commit : repository.headCommit? = some commit := by
    simp [Repository.headCommit?, at_head, present]
  exact ⟨commit, head_commit, readable, firstSamples_findings_perm_iff,
    firstSamples_findings analyzer _ commit, lines_mean_findings_iff⟩

theorem small_byFile_perm :
    ∃ inspection,
      smallRepository.inspect pythonAnalyzer "small" (.fixed 0) ⟨false, 0, true⟩ = .ok inspection ∧
        ∃ commit, smallRepository.headCommit? = some commit ∧
          (commit.qualifying.map TreeFile.key).Nodup ∧
            inspection.byFile.Perm (commit.qualifying.map fun file =>
              namedSampleOf pythonAnalyzer (.fixed 0) (commit, file)) := by
  have success : (smallRepository.inspect pythonAnalyzer "small" (.fixed 0)
      ⟨false, 0, true⟩).toOption.isSome = true := by decide +kernel
  obtain ⟨inspection, inspected⟩ := exists_eq_ok success
  obtain ⟨commit, at_head, -, once, -⟩ := byFile_perm_qualifying_iff inspected
  obtain rfl : newerCommit = commit := Option.some.inj at_head
  have distinct : (newerCommit.qualifying.map TreeFile.key).Nodup := by decide +kernel
  exact ⟨inspection, inspected, newerCommit, at_head, distinct, once.mpr distinct⟩

/-- A repository whose only commit has two files of the same name in different directories. -/
def twinRepository : Repository where
  commits := [⟨0, [], some [("a".toList, .directory [("x.py".toList, plainFile "x = 1\n")]),
    ("b".toList, .directory [("x.py".toList, plainFile "y = 2\n")])]⟩]
  head := some 0

theorem twin_files_share_sample :
    ((twinRepository.inspect pythonAnalyzer "twin" (.fixed 0) ⟨false, 0, true⟩).toOption.map
        fun inspection => (inspection.byFile.length, inspection.metrics.figures.lines)) =
      some (1, 1) ∧
    (twinRepository.headCommit?.map fun commit => (commit.qualifying.length,
        total (commit.qualifying.map fun file => (pythonAnalyzer.figures file.text).lines))) =
      some (2, 2) := by
  decide +kernel

theorem file_of_mem_findings {zone : Calendar.Zone} {commit : Commit} {sample : Sample}
    (mem : sample ∈ (commit.findings analyzer zone).map Prod.snd) : sample.file = none := by
  rw [Commit.findings, List.map_map] at mem
  obtain ⟨file, -, rfl⟩ := List.mem_map.mp mem
  rfl

/-- The samples by file are the heads of the first series of the whole log, with their stems. -/
theorem byFile_heads_history
    (inspected : repository.inspect analyzer path localZone settings = .ok inspection)
    (whole : settings.wholeLog = true) :
    inspection.byFile.length ≤ inspection.filesHistory.size ∧
      ∀ (place : Nat) (sample : Sample), inspection.byFile[place]? = some sample →
        ∃ series, inspection.filesHistory.series[place]? = some series ∧
          sample.file = some series.stem ∧
            series.samples.head? = some { sample with file := none } := by
  obtain ⟨head, commit, others, -, -, -, -, -, byFile, -, filesHistory, -⟩ :=
    inspect_whole_eq inspected whole
  rw [byFile, filesHistory]
  have filled : ∀ series ∈ (History.ofPairs
      (commit.findings analyzer (settings.zone localZone))).series, series.samples ≠ [] :=
    fun _ => History.samples_ne_nil_of_mem_ofPairs
  have grows := History.pushAll_extends
    (History.ofPairs (commit.findings analyzer (settings.zone localZone)))
    ((qualifyingOf others).map (findingOf analyzer (settings.zone localZone)))
  constructor
  · rw [History.length_firstSamples filled]
    exact grows.size_le
  · intro place sample found
    refine grows.head_of_firstSamples filled (fun first mem => ?_) found
    exact file_of_mem_findings ((History.samples_ofPairs _).mem_iff.mp mem)

theorem small_byFile_heads :
    ∃ inspection,
      smallRepository.inspect pythonAnalyzer "small" (.fixed 0) ⟨true, 5, true⟩ = .ok inspection ∧
        inspection.byFile.length ≤ inspection.filesHistory.size ∧
          ∀ (place : Nat) (sample : Sample), inspection.byFile[place]? = some sample →
            ∃ series, inspection.filesHistory.series[place]? = some series ∧
              sample.file = some series.stem ∧
                series.samples.head? = some { sample with file := none } := by
  have success : (smallRepository.inspect pythonAnalyzer "small" (.fixed 0)
      ⟨true, 5, true⟩).toOption.isSome = true := by decide +kernel
  obtain ⟨inspection, inspected⟩ := exists_eq_ok success
  exact ⟨inspection, inspected, byFile_heads_history inspected rfl⟩

theorem date_of_mem_findings {zone : Calendar.Zone} {commit : Commit} {sample : Sample}
    (mem : sample ∈ (commit.findings analyzer zone).map Prod.snd) :
    sample.date = some (commit.date zone) := by
  rw [Commit.findings, List.map_map] at mem
  obtain ⟨file, -, rfl⟩ := List.mem_map.mp mem
  rfl

theorem mean_map_withFile (pairs : List (String × Sample)) :
    Sample.mean (pairs.map fun pair => pair.2.withFile pair.1) =
      Sample.mean (pairs.map Prod.snd) := by
  rw [Sample.mean, Sample.mean, List.map_map, List.map_map]
  rfl

theorem filter_samples_at_head (analyzer : Analyzer ε) {zone : Calendar.Zone} {commit : Commit}
    {others : List (Nat × Commit)} (distinct : (commit.qualifying.map TreeFile.key).Nodup)
    (apart : ∀ entry ∈ others, entry.2.date zone ≠ commit.date zone) :
    ((History.ofPairs (commit.findings analyzer zone)).pushAll
        ((qualifyingOf others).map (findingOf analyzer zone))).samples.filter
          (fun sample => sample.date == some (commit.date zone)) =
      (commit.findings analyzer zone).map Prod.snd := by
  have rejected : ∀ pair ∈ (qualifyingOf others).map (findingOf analyzer zone),
      (pair.2.date == some (commit.date zone)) = false := by
    intro pair mem
    obtain ⟨found, found_mem, rfl⟩ := List.mem_map.mp mem
    obtain ⟨entry, entry_mem, same_commit⟩ := entry_of_mem_qualifyingOf found_mem
    have differs : some (found.1.date zone) ≠ some (commit.date zone) :=
      fun same => apart entry entry_mem (same_commit ▸ Option.some.inj same)
    exact beq_eq_false_iff_ne.mpr differs
  rw [← map_fst_findings analyzer zone] at distinct
  rw [History.filter_samples_pushAll rejected, History.samples_ofPairs_of_nodup distinct,
    List.filter_eq_self]
  intro sample mem
  simp [date_of_mem_findings mem]

theorem date_mem_dates {zone : Calendar.Zone} {commit : Commit} (nonempty : commit.qualifying ≠ [])
    (pairs : List (String × Sample)) :
    commit.date zone ∈ History.dates
      ((History.ofPairs (commit.findings analyzer zone)).pushAll pairs).samples := by
  obtain ⟨file, files, qualifying⟩ := List.exists_cons_of_ne_nil nonempty
  rw [← History.ofPairs_append, History.mem_dates]
  refine ⟨sampleOf analyzer zone (commit, file), ?_, rfl⟩
  rw [(History.samples_ofPairs _).mem_iff]
  simp [Commit.findings, qualifying, findingOf]

theorem date_ne_of_apart {zone : Calendar.Zone} {limit : Option Nat} {head : Nat} {commit : Commit}
    {others : List (Nat × Commit)} (at_head : repository.head = some head)
    (walked : repository.log limit = .ok ((head, commit) :: others))
    (readable : commit.IsReadable zone) (others_readable : ∀ entry ∈ others,
      entry.2.IsReadable zone)
    (apart : ∀ entry ∈ (head, commit) :: others, repository.head ≠ some entry.1 →
      Calendar.format? zone entry.2.time ≠ Calendar.format? zone commit.time) :
    ∀ entry ∈ others, entry.2.date zone ≠ commit.date zone := by
  -- the log takes the head once, so every later entry stands at another place
  have once := (List.nodup_cons.mp (Repository.nodup_log walked)).1
  intro entry mem same
  have elsewhere : repository.head ≠ some entry.1 := by
    rw [at_head]
    rintro again
    exact once (List.mem_map.mpr ⟨entry, mem, (Option.some.inj again).symm⟩)
  apply apart entry (List.mem_cons_of_mem _ mem) elsewhere
  rw [(others_readable entry mem).dated, readable.dated, same]

/-- Where the stems of the head's qualifying files are distinct and no other commit of the log has
the date of the head, the timeline has one entry at that date: the mean of the head. -/
theorem timeline_at_head
    (inspected : repository.inspect analyzer path localZone settings = .ok inspection)
    (whole : settings.wholeLog = true) {commit : Commit}
    (at_head : repository.headCommit? = some commit)
    (distinct : (commit.qualifying.map TreeFile.key).Nodup) (nonempty : commit.qualifying ≠ [])
    {log : List (Nat × Commit)}
    (walked : repository.log (historyLimit settings.mostCommits) = .ok log)
    (apart : ∀ entry ∈ log, repository.head ≠ some entry.1 →
      Calendar.format? (settings.zone localZone) entry.2.time ≠
        Calendar.format? (settings.zone localZone) commit.time) :
    ∃ date, Calendar.format? (settings.zone localZone) commit.time = some date ∧
      (inspection.timeline.filter fun entry => entry.date == some date) =
        [inspection.metrics.withDate date] := by
  obtain ⟨head, first, others, head_eq, present, readable, walked_again, others_readable, byFile,
    metrics, filesHistory, timeline⟩ := inspect_whole_eq inspected whole
  obtain rfl : first = commit := by simpa [Repository.headCommit?, head_eq, present] using at_head
  obtain rfl : log = (head, first) :: others := by simpa using walked.symm.trans walked_again
  have at_date := filter_samples_at_head analyzer distinct
    (date_ne_of_apart head_eq walked readable others_readable apart)
  refine ⟨first.date (settings.zone localZone), readable.dated, ?_⟩
  rw [timeline, filesHistory, History.filter_timeline (date_mem_dates nonempty _), History.onDate,
    at_date, metrics, byFile, History.firstSamples_ofPairs_of_nodup (by rwa [map_fst_findings]),
    mean_map_withFile]

theorem small_timeline_at_head :
    ∃ inspection,
      smallRepository.inspect pythonAnalyzer "small" (.fixed 0) ⟨true, 0, true⟩ = .ok inspection ∧
        (newerCommit.qualifying.map TreeFile.key).Nodup ∧ newerCommit.qualifying ≠ [] ∧
          ∃ date, Calendar.format? (.fixed 0) newerCommit.time = some date ∧
            (inspection.timeline.filter fun entry => entry.date == some date) =
              [inspection.metrics.withDate date] := by
  have success : (smallRepository.inspect pythonAnalyzer "small" (.fixed 0)
      ⟨true, 0, true⟩).toOption.isSome = true := by decide +kernel
  obtain ⟨inspection, inspected⟩ := exists_eq_ok success
  have distinct : (newerCommit.qualifying.map TreeFile.key).Nodup := by decide +kernel
  have nonempty : newerCommit.qualifying ≠ [] := by decide +kernel
  have walked : smallRepository.log (historyLimit 0) =
      .ok [(1, newerCommit), (0, olderCommit)] := rfl
  have apart : ∀ entry ∈ [(1, newerCommit), (0, olderCommit)],
      smallRepository.head ≠ some entry.1 →
        Calendar.format? (.fixed 0) entry.2.time ≠
          Calendar.format? (.fixed 0) newerCommit.time := by
    decide +kernel
  exact ⟨inspection, inspected, distinct, nonempty,
    timeline_at_head inspected rfl rfl distinct nonempty walked apart⟩

end CodeGauge
