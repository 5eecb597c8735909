import CodeGauge.Proofs.Inspection.Walk
import CodeGauge.Proofs.Repository.Order
import CodeGauge.Proofs.Repository.Tree

/-!
# Limits and success of walks

A walk under a smaller limit succeeds whenever one under a larger limit does, and finds the
beginning of what the larger one finds (`history_grows_with_limit`).  A walk succeeds exactly when
the objects that it reads are there and its commits have times in the calendar
(`history_succeeds_iff`).
-/

namespace CodeGauge

open Measurement Repository

section Limits

variable {ε : Type} {repository : Repository} {analyzer : Analyzer ε} {zone : Calendar.Zone}

theorem qualifyingOf_append (newer older : List (Nat × Commit)) :
    qualifyingOf (newer ++ older) = qualifyingOf newer ++ qualifyingOf older := by
  simp [qualifyingOf]

theorem history_extends {cap limit : Option Nat} (atMost : AtMost cap limit)
    {history : History Sample} (walk : repository.history analyzer zone limit = .ok history) :
    ∃ capped, repository.history analyzer zone cap = .ok capped ∧ capped.Extends history := by
  obtain ⟨log, walked, readable, rfl⟩ := history_eq_ok_iff.mp walk
  obtain ⟨beginning, walked_cap, ⟨older, rfl⟩⟩ := log_eq_ok_of_atMost atMost walked
  have cap_readable : ∀ entry ∈ beginning, entry.2.IsReadable zone :=
    fun entry mem => readable entry (List.mem_append_left _ mem)
  refine ⟨_, history_eq_ok_iff.mpr ⟨beginning, walked_cap, cap_readable, rfl⟩, ?_⟩
  rw [qualifyingOf_append, List.map_append, History.ofPairs_append]
  exact History.pushAll_extends _ _

/-- Under a smaller limit a walk finds the beginning of what it finds under a larger one. -/
theorem history_grows_with_limit {cap limit : Option Nat} (atMost : AtMost cap limit)
    {history : History Sample} (walk : repository.history analyzer zone limit = .ok history) :
    ∃ capped, repository.history analyzer zone cap = .ok capped ∧
      capped.stems <+: history.stems ∧
        ∀ stem values, capped.get? stem = some values →
          ∃ grown, history.get? stem = some grown ∧ values <+: grown := by
  obtain ⟨capped, walk_cap, grows⟩ := history_extends atMost walk
  exact ⟨capped, walk_cap, grows.isPrefix_stems, fun _ _ found => grows.isPrefix_get? found⟩

theorem small_history_grows :
    ∃ history, smallRepository.history pythonAnalyzer (.fixed 0) none = .ok history ∧
      AtMost (some 1) none ∧
        ∃ capped, smallRepository.history pythonAnalyzer (.fixed 0) (some 1) = .ok capped ∧
          capped.stems <+: history.stems ∧
            ∀ stem values, capped.get? stem = some values →
              ∃ grown, history.get? stem = some grown ∧ values <+: grown := by
  have success :
      (smallRepository.history pythonAnalyzer (.fixed 0) none).toOption.isSome = true := by
    decide +kernel
  obtain ⟨history, walk⟩ := exists_eq_ok success
  have atMost : AtMost (some 1) none := trivial
  exact ⟨history, walk, atMost, history_grows_with_limit atMost walk⟩

end Limits

variable {ε : Type} {zone : Calendar.Zone} {commit : Commit}

/-- Everything in the tree of a commit with its path; nothing where the root is missing. -/
def Commit.contents (commit : Commit) : List (List Char × Entry) :=
  Entries.within [] (commit.root.getD [])

/-- What a walk reads of a commit is there. -/
structure Commit.IsIntact (commit : Commit) : Prop where
  in_calendar : Calendar.inRange commit.time = true
  rooted : commit.root.isSome = true
  whole : ∀ path, (path, Entry.missingDirectory) ∉ commit.contents
  /-- A source file that does more than mark a package has its bytes. -/
  filled : ∀ path mode content, (path, Entry.file mode content) ∈ commit.contents →
    Path.isSource path = true → Path.stem (Path.name path) ≠ packageMarker →
      content.isSome = true

theorem Calendar.format?_isSome (zone : Zone) (seconds : Int) :
    (Calendar.format? zone seconds).isSome = Calendar.inRange seconds := by
  unfold Calendar.format?
  cases Calendar.inRange seconds <;> rfl

theorem Commit.dated_iff :
    Calendar.format? zone commit.time = some (commit.date zone) ↔
      Calendar.inRange commit.time = true := by
  rw [← Calendar.format?_isSome zone, Commit.date]
  cases Calendar.format? zone commit.time <;> simp

theorem Commit.files_eq_ok_iff {files : List TreeFile} :
    commit.files = .ok files ↔ ∃ entries, commit.root = some entries ∧
      entries.files = .ok files := by
  unfold Commit.files
  cases commit.root <;> simp

theorem Commit.listed_iff :
    commit.files = .ok commit.listing ↔
      commit.root.isSome = true ∧ ∀ path, (path, Entry.missingDirectory) ∉ commit.contents := by
  have listing_eq : commit.files = .ok commit.listing ↔ ∃ files, commit.files = .ok files := by
    unfold Commit.listing
    cases commit.files <;> simp [Except.toOption]
  rw [listing_eq]
  simp only [Commit.files_eq_ok_iff, Commit.contents]
  cases commit.root with
  | none => simp
  | some entries => simpa using Entries.exists_files_iff

theorem Commit.mem_listing_iff (listed : commit.files = .ok commit.listing) {file : TreeFile} :
    file ∈ commit.listing ↔
      ∃ mode, (file.path, Entry.file mode file.content) ∈ commit.contents := by
  obtain ⟨entries, root, files⟩ := Commit.files_eq_ok_iff.mp listed
  rw [Entries.mem_files_iff files, Commit.contents, root, Option.getD_some]

theorem TreeFile.isMeasured_iff {file : TreeFile} :
    file.isMeasured = true ↔
      Path.isSource file.path = true ∧ Path.stem (Path.name file.path) ≠ packageMarker := by
  simp [TreeFile.isMeasured, TreeFile.stem]

theorem Commit.isReadable_iff_isIntact : commit.IsReadable zone ↔ commit.IsIntact := by
  constructor
  · intro readable
    obtain ⟨rooted, whole⟩ := Commit.listed_iff.mp readable.listed
    refine ⟨Commit.dated_iff.mp readable.dated, rooted, whole, ?_⟩
    intro path mode content mem source marks_no_package
    have listed : ⟨path, content⟩ ∈ commit.listing :=
      (Commit.mem_listing_iff readable.listed).mpr ⟨mode, mem⟩
    exact readable.readable _ listed (TreeFile.isMeasured_iff.mpr ⟨source, marks_no_package⟩)
  · intro intact
    have listed := Commit.listed_iff.mpr ⟨intact.rooted, intact.whole⟩
    refine ⟨Commit.dated_iff.mpr intact.in_calendar, listed, ?_⟩
    intro file mem measured
    obtain ⟨mode, mem⟩ := (Commit.mem_listing_iff listed).mp mem
    obtain ⟨source, marks_no_package⟩ := TreeFile.isMeasured_iff.mp measured
    exact intact.filled file.path mode file.content mem source marks_no_package

theorem exists_history_iff {repository : Repository} {analyzer : Analyzer ε}
    {limit : Option Nat} :
    (∃ history, repository.history analyzer zone limit = .ok history) ↔
      ∃ log, repository.log limit = .ok log ∧ ∀ entry ∈ log, entry.2.IsIntact := by
  constructor
  · rintro ⟨history, walk⟩
    obtain ⟨log, walked, readable, -⟩ := history_eq_ok_iff.mp walk
    exact ⟨log, walked, fun entry mem => Commit.isReadable_iff_isIntact.mp (readable entry mem)⟩
  · rintro ⟨log, walked, intact⟩
    have readable : ∀ entry ∈ log, entry.2.IsReadable zone :=
      fun entry mem => Commit.isReadable_iff_isIntact.mpr (intact entry mem)
    exact ⟨_, history_eq_ok_iff.mpr ⟨log, walked, readable, rfl⟩⟩

/-- A walk succeeds exactly when the head leads to a commit, every commit that its limit lets it
take is there, and what it reads of these commits is there. -/
theorem history_succeeds_iff (repository : Repository) (analyzer : Analyzer ε)
    (zone : Calendar.Zone) (limit : Option Nat) :
    (∃ history, repository.history analyzer zone limit = .ok history) ↔
      (∃ commit, repository.headCommit? = some commit) ∧
        ∀ place, repository.Takes limit place →
          ∃ commit, repository.commit? place = some commit ∧ commit.IsIntact := by
  rw [exists_history_iff]
  constructor
  · rintro ⟨log, walk, intact⟩
    obtain ⟨headed, -⟩ := exists_log_iff.mp ⟨log, walk⟩
    refine ⟨headed, fun place taken => ?_⟩
    obtain ⟨entry, mem, rfl⟩ := List.mem_map.mp ((mem_log_iff_takes walk place).mpr taken)
    exact ⟨entry.2, commit?_of_mem_log walk mem, intact entry mem⟩
  · rintro ⟨headed, all_intact⟩
    have all_present : ∀ place, repository.Takes limit place →
        ∃ commit, repository.commit? place = some commit := by
      intro place taken
      obtain ⟨commit, present, -⟩ := all_intact place taken
      exact ⟨commit, present⟩
    obtain ⟨log, walk⟩ := exists_log_iff.mpr ⟨headed, all_present⟩
    refine ⟨log, walk, fun entry mem => ?_⟩
    have taken := (mem_log_iff_takes walk entry.1).mp (List.mem_map_of_mem mem)
    obtain ⟨commit, present, intact⟩ := all_intact entry.1 taken
    obtain rfl := Option.some.inj (present.symm.trans (commit?_of_mem_log walk mem))
    exact intact

/-- A head with a missing parent and a text that does not parse, beside entries that no walk reads:
a missing document, a missing package marker and a submodule. -/
def patchyRepository : Repository where
  commits := [⟨60, [7], some [("a.py".toList, plainFile "def ("),
    ("__init__.py".toList, .file .regular none), ("notes.txt".toList, .file .regular none),
    ("vendor".toList, .submodule)]⟩]
  head := some 0

example : (patchyRepository.history pythonAnalyzer (.fixed 0) (some 1)).toOption.isSome = true := by
  decide +kernel

end CodeGauge
