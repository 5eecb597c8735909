import CodeGauge.Proofs.Inspection.Head
import CodeGauge.Proofs.Measurement.Lines
import CodeGauge.Proofs.Syntax.Statements

/-!
# Texts that do not parse

The three answers about a source text stand or fall together, because each of them starts from the
tree of the text.  A text that does not parse has the figures of no code, and a text that does has
all of its lines, so the lines alone tell the two apart where there is a text at all
(`lines_figures_eq_zero_iff`).  Hence a sample of an inspection has no lines exactly when its file
did not parse, and a mean loses no lines with these samples (`no_lines_iff_isUnparsable`).
-/

namespace CodeGauge

namespace Measurement

open Syntax

variable {ε : Type} {analyzer : Analyzer ε} {text : List Char}

/-- The tree of a text has an error node or a missing token. -/
def IsUnparsable (text : List Char) : Prop :=
  ∃ node ∈ (read text).preorder, node.isBroken = true

instance IsUnparsable.instDecidable (text : List Char) : Decidable (IsUnparsable text) :=
  inferInstanceAs (Decidable (∃ node ∈ _, _))

theorem isUnparsable_iff_hasError : IsUnparsable text ↔ (read text).label.hasError = true :=
  (isFlagged_read text).hasError_iff.symm

theorem exists_parse_eq_error_iff :
    (∃ error, parse text = .error error) ↔ IsUnparsable text := by
  simp [parse, Node.accept_eq_error_iff, isUnparsable_iff_hasError]

theorem parse_eq_ok_iff : parse text = .ok (read text) ↔ ¬IsUnparsable text := by
  simp [parse, Node.accept_eq_ok_iff, isUnparsable_iff_hasError]

/-- An analyzer answers every question about a text. -/
structure Analyzer.Succeeds (analyzer : Analyzer ε) (text : List Char) : Prop where
  blocks : ∃ blocks, analyzer.blocks text = .ok blocks
  maintainability : ∀ withStrings, ∃ index, analyzer.maintainability withStrings text = .ok index
  lines : ∃ count, analyzer.lines text = .ok count

/-- An analyzer answers every question about a text with the same error. -/
structure Analyzer.FailsWith (analyzer : Analyzer ε) (text : List Char) (error : ε) : Prop where
  blocks : analyzer.blocks text = .error error
  maintainability : ∀ withStrings, analyzer.maintainability withStrings text = .error error
  lines : analyzer.lines text = .error error

theorem Analyzer.FailsWith.figures {error : ε} (fails : analyzer.FailsWith text error) :
    analyzer.figures text = .zero := by
  rw [Analyzer.figures, Analyzer.measure, fails.blocks]
  rfl

theorem Analyzer.Succeeds.figures (succeeds : analyzer.Succeeds text) {count : LineCount}
    (counted : analyzer.lines text = .ok count) :
    (analyzer.figures text).lines = count.total := by
  obtain ⟨blocks, found⟩ := succeeds.blocks
  obtain ⟨index, known⟩ := succeeds.maintainability true
  rw [Analyzer.figures, Analyzer.measure, found, known, counted]
  rfl

theorem failsWith_of_parse {error : SyntaxError} (failed : parse text = .error error) :
    pythonAnalyzer.FailsWith text error := by
  constructor <;> simp [pythonAnalyzer, failed, Except.map]

theorem succeeds_of_parse {root : Node} (parsed : parse text = .ok root) :
    pythonAnalyzer.Succeeds text := by
  constructor <;> simp [pythonAnalyzer, parsed, Except.map]

theorem figures_of_isUnparsable (unparsable : IsUnparsable text) :
    (∃ error, pythonAnalyzer.FailsWith text error) ∧ pythonAnalyzer.figures text = .zero := by
  obtain ⟨error, failed⟩ := exists_parse_eq_error_iff.mpr unparsable
  have fails := failsWith_of_parse failed
  exact ⟨⟨error, fails⟩, fails.figures⟩

theorem lines_figures_of_not_isUnparsable (parsable : ¬IsUnparsable text) :
    pythonAnalyzer.Succeeds text ∧
      (pythonAnalyzer.figures text).lines = (Text.lines text).length := by
  have parsed := parse_eq_ok_iff.mpr parsable
  have succeeds := succeeds_of_parse parsed
  have counted : pythonAnalyzer.lines text = .ok (countLines text (read text)) := by
    simp [pythonAnalyzer, parsed, Except.map]
  exact ⟨succeeds, (succeeds.figures counted).trans (total_countLines text (read text))⟩

/-- Where there is a text, it has no lines of code exactly when it does not parse. -/
theorem lines_figures_eq_zero_iff (nonempty : text ≠ []) :
    (pythonAnalyzer.figures text).lines = 0 ↔ IsUnparsable text := by
  constructor
  · intro none
    by_contra parsable
    rw [(lines_figures_of_not_isUnparsable parsable).2, List.length_eq_zero_iff,
      Text.lines_eq_nil_iff] at none
    exact nonempty none
  · intro unparsable
    rw [(figures_of_isUnparsable unparsable).2]
    rfl

/-- The empty text parses and has no lines, so it is an exception. -/
example : ¬IsUnparsable [] ∧ (pythonAnalyzer.figures []).lines = 0 := by decide +kernel

end Measurement

open Measurement

/-- The files of a commit that an inspection of it shows: the first one of each stem. -/
def Commit.shown (commit : Commit) : List TreeFile :=
  (commit.qualifying.map TreeFile.key).eraseDups.filterMap fun stem =>
    commit.qualifying.find? fun file => file.key == stem

/-- A sample is that of a file at a commit, with the stem of the file or without. -/
structure IsSampleOf (zone : Calendar.Zone) (version : Commit × TreeFile) (sample : Sample) :
    Prop where
  qualifies : version.2.qualifies = true
  figures : sample.figures = pythonAnalyzer.figures version.2.text
  date : sample.date = some (version.1.date zone)
  /-- No other file is named. -/
  file : sample.file = none ∨ sample.file = some version.2.key

variable {zone : Calendar.Zone} {commit : Commit} {version : Commit × TreeFile} {sample : Sample}

theorem TreeFile.text_ne_nil {file : TreeFile} (qualifies : file.qualifies = true) :
    file.text ≠ [] := by
  simp only [TreeFile.qualifies_eq, Bool.and_eq_true, Bool.not_eq_true', List.isEmpty_eq_false_iff]
    at qualifies
  exact qualifies.2

theorem isSampleOf_sampleOf (qualifies : version.2.qualifies = true) :
    IsSampleOf zone version (sampleOf pythonAnalyzer zone version) :=
  ⟨qualifies, rfl, rfl, .inl rfl⟩

theorem isSampleOf_namedSampleOf (qualifies : version.2.qualifies = true) :
    IsSampleOf zone version (namedSampleOf pythonAnalyzer zone version) :=
  ⟨qualifies, rfl, rfl, .inr rfl⟩

theorem IsSampleOf.lines_eq_zero_iff (tracked : IsSampleOf zone version sample) :
    sample.figures.lines = 0 ↔ IsUnparsable version.2.text := by
  rw [tracked.figures]
  exact lines_figures_eq_zero_iff (TreeFile.text_ne_nil tracked.qualifies)

/-- A sample of a file at a commit that has no lines exactly when the file does not parse. -/
def TellsUnparsable (zone : Calendar.Zone) (version : Commit × TreeFile) (sample : Sample) : Prop :=
  IsSampleOf zone version sample ∧
    (sample.figures.lines = 0 ↔ IsUnparsable version.2.text)

theorem IsSampleOf.tells (tracked : IsSampleOf zone version sample) :
    TellsUnparsable zone version sample :=
  ⟨tracked, tracked.lines_eq_zero_iff⟩

theorem lines_mean_of_parsable {tracked : List ((Commit × TreeFile) × Sample)}
    (samples : ∀ entry ∈ tracked, ∃ zone, IsSampleOf zone entry.1 entry.2) :
    (Sample.mean ((tracked.filter fun entry => ¬IsUnparsable entry.1.2.text).map
        Prod.snd)).figures.lines =
      (Sample.mean (tracked.map Prod.snd)).figures.lines := by
  rw [lines_mean_samples, lines_mean_samples, List.map_map, List.map_map]
  refine total_map_filter fun entry mem unparsable => ?_
  rw [decide_not, Bool.not_eq_false', decide_eq_true_iff] at unparsable
  obtain ⟨zone, tracked⟩ := samples entry mem
  exact tracked.lines_eq_zero_iff.mpr unparsable

theorem Commit.qualifies_of_mem_shown {file : TreeFile} (mem : file ∈ commit.shown) :
    file.qualifies = true := by
  obtain ⟨stem, -, found⟩ := List.mem_filterMap.mp mem
  exact (List.mem_filter.mp (List.mem_of_find?_eq_some found)).2

theorem qualifies_of_mem_qualifyingOf {log : List (Nat × Commit)}
    (mem : version ∈ qualifyingOf log) : version.2.qualifies = true := by
  obtain ⟨entry, -, mem⟩ := List.mem_flatMap.mp mem
  obtain ⟨file, file_mem, rfl⟩ := List.mem_map.mp mem
  exact (List.mem_filter.mp file_mem).2

theorem forall₂_map_self {α β : Type} {related : α → β → Prop} {items : List α} {image : α → β}
    (all : ∀ item ∈ items, related item (image item)) :
    List.Forall₂ related items (items.map image) := by
  rw [List.forall₂_map_right_iff]
  exact List.forall₂_same.mpr all

theorem forall₂_shown_firstSamples (zone : Calendar.Zone) (commit : Commit) :
    List.Forall₂ (fun file sample => IsSampleOf zone (commit, file) sample) commit.shown
      (History.ofPairs (commit.findings pythonAnalyzer zone)).firstSamples := by
  have shown_map : (History.ofPairs (commit.findings pythonAnalyzer zone)).firstSamples =
      commit.shown.map fun file => namedSampleOf pythonAnalyzer zone (commit, file) := by
    rw [firstSamples_findings, Commit.shown, List.map_filterMap]
  rw [shown_map]
  exact forall₂_map_self fun file mem =>
    isSampleOf_namedSampleOf (Commit.qualifies_of_mem_shown mem)

theorem forall₂_series_history {repository : Repository} {limit : Option Nat}
    {history : History Sample}
    (walk : repository.history pythonAnalyzer zone limit = .ok history) :
    ∃ log, repository.log limit = .ok log ∧
      List.Forall₂ (fun stem series => series.stem = stem ∧
          List.Forall₂ (IsSampleOf zone)
            ((qualifyingOf log).filter fun version => version.2.key == stem) series.samples)
        ((qualifyingOf log).map fun version => version.2.key).eraseDups history.series := by
  obtain ⟨log, walked, -, rfl⟩ := history_eq_ok_iff.mp walk
  refine ⟨log, walked, ?_⟩
  rw [History.series_ofPairs, map_fst_findingOf]
  refine forall₂_map_self fun stem _ => ⟨rfl, ?_⟩
  rw [valuesOf_findingOf]
  exact forall₂_map_self fun version mem =>
    isSampleOf_sampleOf (qualifies_of_mem_qualifyingOf (List.mem_filter.mp mem).1)

/-- The answers about a text all succeed or all fail with one error, and where there is a text, it
has no lines of code exactly when it has a broken node in its tree; then it has the sample of no
code, and otherwise all of its lines and at least one.  So a sample of a file in an inspection has
no lines exactly when the file did not parse, and a mean of such samples has the lines of the mean
without these files. -/
theorem no_lines_iff_isUnparsable :
    (∀ text : List Char, text ≠ [] →
      (pythonAnalyzer.Succeeds text ∨ ∃ error, pythonAnalyzer.FailsWith text error) ∧
      ((pythonAnalyzer.figures text).lines = 0 ↔ IsUnparsable text) ∧
      (IsUnparsable text → (∃ error, pythonAnalyzer.FailsWith text error) ∧
        Sample.ofFigures (pythonAnalyzer.figures text) = .ofFigures .zero) ∧
      (¬IsUnparsable text → pythonAnalyzer.Succeeds text ∧
        (pythonAnalyzer.figures text).lines = (Text.lines text).length ∧
        1 ≤ (pythonAnalyzer.figures text).lines)) ∧
    (∀ (repository : Repository) (path : String) (localZone : Calendar.Zone) (settings : Settings)
        (inspection : Inspection),
      repository.inspect pythonAnalyzer path localZone settings = .ok inspection →
      let zone := settings.zone localZone
      (∃ commit, repository.headCommit? = some commit ∧
        List.Forall₂ (fun file sample => TellsUnparsable zone (commit, file) sample)
          commit.shown inspection.byFile) ∧
      (settings.wholeLog = true →
        ∃ log, repository.log (historyLimit settings.mostCommits) = .ok log ∧
          List.Forall₂ (fun stem series => series.stem = stem ∧
              List.Forall₂ (TellsUnparsable zone)
                ((qualifyingOf log).filter fun version => version.2.key == stem) series.samples)
            ((qualifyingOf log).map fun version => version.2.key).eraseDups
            inspection.filesHistory.series) ∧
      (settings.wholeLog = false → inspection.filesHistory.series = [])) ∧
    (∀ tracked : List ((Commit × TreeFile) × Sample),
      (∀ entry ∈ tracked, ∃ zone, IsSampleOf zone entry.1 entry.2) →
        (Sample.mean (tracked.map Prod.snd)).figures.lines =
          (Sample.mean ((tracked.filter fun entry => ¬IsUnparsable entry.1.2.text).map
            Prod.snd)).figures.lines) := by
  refine ⟨fun text nonempty => ?_, fun repository path localZone settings inspection inspected =>
    ?_, fun tracked samples => (lines_mean_of_parsable samples).symm⟩
  · have none_iff := lines_figures_eq_zero_iff nonempty
    refine ⟨?_, none_iff, fun unparsable => ?_, fun parsable => ?_⟩
    · by_cases unparsable : IsUnparsable text
      · exact .inr (figures_of_isUnparsable unparsable).1
      · exact .inl (lines_figures_of_not_isUnparsable unparsable).1
    · obtain ⟨fails, zero⟩ := figures_of_isUnparsable unparsable
      exact ⟨fails, congrArg Sample.ofFigures zero⟩
    · obtain ⟨succeeds, lines⟩ := lines_figures_of_not_isUnparsable parsable
      exact ⟨succeeds, lines, Nat.one_le_iff_ne_zero.mpr (mt none_iff.mp parsable)⟩
  · intro zone
    obtain ⟨current, filesHistory, walk, whole_walk, rfl⟩ := inspect_eq_ok_iff.mp inspected
    obtain ⟨head, commit, at_head, present, -, rfl⟩ := history_one_eq walk
    have head_commit : repository.headCommit? = some commit := by
      simp [Repository.headCommit?, at_head, present]
    refine ⟨⟨commit, head_commit, ?_⟩, fun whole => ?_, fun headOnly => ?_⟩
    · exact (forall₂_shown_firstSamples _ commit).imp fun _ _ => IsSampleOf.tells
    · rw [if_pos whole] at whole_walk
      obtain ⟨log, walked, by_stem⟩ := forall₂_series_history whole_walk
      refine ⟨log, walked, by_stem.imp fun _ _ => And.imp_right fun by_version => ?_⟩
      exact by_version.imp fun _ _ => IsSampleOf.tells
    · rw [headOnly] at whole_walk
      obtain rfl := Except.ok.inj whole_walk
      rfl

/-- The files at the newer of two commits with their samples, of which one does not parse. -/
def newerSamples : List ((Commit × TreeFile) × Sample) :=
  newerCommit.qualifying.map fun file =>
    ((newerCommit, file), sampleOf pythonAnalyzer (.fixed 0) (newerCommit, file))

theorem small_no_lines :
    "\r".toList ≠ [] ∧ ¬IsUnparsable "\r".toList ∧
    (pythonAnalyzer.figures "\r".toList).lines = (Text.lines "\r".toList).length ∧
    "def (".toList ≠ [] ∧ IsUnparsable "def (".toList ∧
    Sample.ofFigures (pythonAnalyzer.figures "def (".toList) = .ofFigures .zero ∧
    (∃ inspection,
      smallRepository.inspect pythonAnalyzer "small" (.fixed 0) ⟨true, 0, true⟩ = .ok inspection ∧
        List.Forall₂ (fun file sample => sample.figures.lines = 0 ↔ IsUnparsable file.text)
          newerCommit.shown inspection.byFile) ∧
    (∀ entry ∈ newerSamples, ∃ zone, IsSampleOf zone entry.1 entry.2) ∧
    (Sample.mean (newerSamples.map Prod.snd)).figures.lines =
      (Sample.mean ((newerSamples.filter fun entry => ¬IsUnparsable entry.1.2.text).map
        Prod.snd)).figures.lines := by
  obtain ⟨of_texts, of_inspections, of_means⟩ := no_lines_iff_isUnparsable
  have some_text : "\r".toList ≠ [] := by decide
  have parsable : ¬IsUnparsable "\r".toList := by decide +kernel
  have other_text : "def (".toList ≠ [] := by decide
  have unparsable : IsUnparsable "def (".toList := by decide +kernel
  have success : (smallRepository.inspect pythonAnalyzer "small" (.fixed 0)
      ⟨true, 0, true⟩).toOption.isSome = true := by decide +kernel
  obtain ⟨inspection, inspected⟩ := exists_eq_ok success
  obtain ⟨⟨commit, at_head, told⟩, -, -⟩ := of_inspections _ _ _ _ _ inspected
  obtain rfl : newerCommit = commit := Option.some.inj at_head
  have tracked : ∀ entry ∈ newerSamples, ∃ zone, IsSampleOf zone entry.1 entry.2 := by
    intro entry mem
    obtain ⟨file, file_mem, rfl⟩ := List.mem_map.mp mem
    exact ⟨.fixed 0, isSampleOf_sampleOf (List.mem_filter.mp file_mem).2⟩
  exact ⟨some_text, parsable, ((of_texts _ some_text).2.2.2 parsable).2.1, other_text, unparsable,
    ((of_texts _ other_text).2.2.1 unparsable).2,
    ⟨inspection, inspected, told.imp fun _ _ both => both.2⟩, tracked, of_means _ tracked⟩

end CodeGauge
