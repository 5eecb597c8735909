import CodeGauge.Inspection
import CodeGauge.Proofs.History.Grouping
import CodeGauge.Proofs.Repository.Log

/-!
# Walks over the log

A walk over the log files one sample for each qualifying file of each commit.  It succeeds exactly
when every commit can be read as far as it has to be (`history_eq_ok_iff`), and its history is then
the grouping of the qualifying files by stem (`history_groups_qualifying`).
-/

namespace CodeGauge

open Measurement

variable {ε : Type}

def TreeFile.key (file : TreeFile) : String := String.ofList file.stem

/-- The text on which a file is measured: its bytes decoded, without one line feed at the end.  It
is empty where the bytes are missing. -/
def TreeFile.text (file : TreeFile) : List Char :=
  let decoded := Text.decodeLossy (file.content.getD [])
  if decoded.getLast? = some '\n' then decoded.dropLast else decoded

theorem measuredText_eq (content : List UInt8) :
    measuredText content =
      if (Text.decodeLossy content).getLast? = some '\n' then (Text.decodeLossy content).dropLast
      else Text.decodeLossy content := by
  rw [measuredText, Text.dropFinalNewline]
  generalize Text.decodeLossy content = decoded
  rcases decoded.eq_nil_or_concat with rfl | ⟨front, last, rfl⟩
  · rfl
  · by_cases feed : last = '\n' <;> simp [feed]

/-- Whether a file has a sample: it is a source file, marks no package, and has a text. -/
def TreeFile.qualifies (file : TreeFile) : Bool :=
  Path.isSource file.path && file.stem != packageMarker && !file.text.isEmpty

/-- A file whose bytes are needed has them. -/
def TreeFile.IsReadable (file : TreeFile) : Prop :=
  file.isMeasured = true → file.content.isSome = true

/-- The date of a commit in a zone; the empty text where its time lies outside the calendar. -/
def Commit.date (zone : Calendar.Zone) (commit : Commit) : String :=
  (Calendar.format? zone commit.time).getD ""

def Commit.listing (commit : Commit) : List TreeFile := commit.files.toOption.getD []

/-- The files of a commit that qualify, in the order of its listing. -/
def Commit.qualifying (commit : Commit) : List TreeFile :=
  commit.listing.filter TreeFile.qualifies

/-- A commit has a date and a complete tree, and its files can be read. -/
structure Commit.IsReadable (zone : Calendar.Zone) (commit : Commit) : Prop where
  dated : Calendar.format? zone commit.time = some (commit.date zone)
  listed : commit.files = .ok commit.listing
  readable : ∀ file ∈ commit.listing, file.IsReadable

/-- The qualifying files of a log with their commits, commit by commit. -/
def qualifyingOf (log : List (Nat × Commit)) : List (Commit × TreeFile) :=
  log.flatMap fun entry => entry.2.qualifying.map fun file => (entry.2, file)

theorem entry_of_mem_qualifyingOf {log : List (Nat × Commit)} {found : Commit × TreeFile}
    (mem : found ∈ qualifyingOf log) : ∃ entry ∈ log, entry.2 = found.1 := by
  obtain ⟨entry, entry_mem, mem⟩ := List.mem_flatMap.mp mem
  obtain ⟨file, -, rfl⟩ := List.mem_map.mp mem
  exact ⟨entry, entry_mem, rfl⟩

def sampleOf (analyzer : Analyzer ε) (zone : Calendar.Zone) (found : Commit × TreeFile) : Sample :=
  textSample analyzer (found.1.date zone) found.2.text

/-- A file at a commit as a value to be filed: its sample under its stem. -/
def findingOf (analyzer : Analyzer ε) (zone : Calendar.Zone) (found : Commit × TreeFile) :
    String × Sample :=
  (found.2.key, sampleOf analyzer zone found)

def Commit.findings (analyzer : Analyzer ε) (zone : Calendar.Zone) (commit : Commit) :
    List (String × Sample) :=
  commit.qualifying.map fun file => findingOf analyzer zone (commit, file)

theorem TreeFile.qualifies_eq (file : TreeFile) :
    file.qualifies = (file.isMeasured && !file.text.isEmpty) := rfl

theorem measureFile_eq_ok_iff (analyzer : Analyzer ε) (date : String)
    (history : History Sample) (file : TreeFile) (after : History Sample) :
    measureFile analyzer date history file = .ok after ↔
      file.IsReadable ∧
        after = history.pushAll
          (if file.qualifies then [(file.key, textSample analyzer date file.text)] else []) := by
  unfold measureFile TreeFile.IsReadable
  cases measured : file.isMeasured with
  | false =>
      simp only [Bool.false_eq_true, if_false, false_imp_iff, true_and, file.qualifies_eq,
        measured, Bool.false_and, History.pushAll_nil, Except.ok.injEq]
      exact eq_comm
  | true =>
      cases content : file.content with
      | none => simp
      | some bytes =>
          have text : measuredText bytes = file.text := by
            rw [measuredText_eq, TreeFile.text, content]
            rfl
          simp only [if_true, text, file.qualifies_eq, measured, Bool.true_and]
          cases file.text.isEmpty <;> simp [TreeFile.key, eq_comm]

/-- A walk whose steps file some values each, and fail on items that cannot be read, files the
values of all its items when all of them can be read, and otherwise fails. -/
theorem foldlM_eq_ok_iff {α β : Type} {step : History α → β → Except Failure (History α)}
    {Readable : β → Prop} {values : β → List (String × α)}
    (spec : ∀ history item after, step history item = .ok after ↔
      Readable item ∧ after = history.pushAll (values item))
    {items : List β} {history after : History α} :
    items.foldlM step history = .ok after ↔
      (∀ item ∈ items, Readable item) ∧ after = history.pushAll (items.flatMap values) := by
  induction items generalizing history with
  | nil => simp [pure, Except.pure, eq_comm]
  | cons item items ih =>
      rw [List.foldlM_cons, List.forall_mem_cons, List.flatMap_cons, History.pushAll_append]
      cases first : step history item with
      | error failure =>
          have unreadable : ¬Readable item := fun readable => by
            have := (spec history item _).mpr ⟨readable, rfl⟩
            simp [first] at this
          simp [bind, Except.bind, unreadable]
      | ok middle =>
          obtain ⟨readable, rfl⟩ := (spec history item middle).mp first
          simp only [bind, Except.bind, readable, true_and]
          exact ih

theorem flatMap_qualifying {β : Type} (files : List TreeFile) (value : TreeFile → β) :
    (files.flatMap fun file => if file.qualifies then [value file] else []) =
      (files.filter TreeFile.qualifies).map value := by
  induction files with
  | nil => rfl
  | cons file files ih =>
      cases qualified : file.qualifies <;> simp [qualified, ih]

theorem Commit.isReadable_iff {zone : Calendar.Zone} {commit : Commit} {date : String}
    {files : List TreeFile} (dated : Calendar.format? zone commit.time = some date)
    (listed : commit.files = .ok files) :
    commit.IsReadable zone ↔ ∀ file ∈ files, file.IsReadable := by
  have listing : commit.listing = files := by simp [Commit.listing, listed, Except.toOption]
  constructor
  · intro readable
    exact listing ▸ readable.readable
  · intro readable
    exact ⟨by simp [Commit.date, dated], by rw [listing, listed], listing.symm ▸ readable⟩

theorem measureCommit_eq_ok_iff (analyzer : Analyzer ε) (zone : Calendar.Zone)
    (history : History Sample) (commit : Commit) (after : History Sample) :
    measureCommit analyzer zone history commit = .ok after ↔
      commit.IsReadable zone ∧
        after = history.pushAll (commit.findings analyzer zone) := by
  unfold measureCommit
  cases dated : Calendar.format? zone commit.time with
  | none =>
      have undated : ¬commit.IsReadable zone := fun readable => by
        simpa [dated] using readable.dated
      simp [undated]
  | some date =>
      cases listed : commit.files with
      | error failure =>
          have unlisted : ¬commit.IsReadable zone := fun readable => by
            simpa [listed] using readable.listed
          simp [unlisted]
      | ok files =>
          have date_eq : commit.date zone = date := by simp [Commit.date, dated]
          have listing : commit.listing = files := by
            simp [Commit.listing, listed, Except.toOption]
          rw [Commit.isReadable_iff dated listed]
          rw [Commit.findings, Commit.qualifying, listing, ← flatMap_qualifying]
          simp only [findingOf, sampleOf, date_eq]
          exact foldlM_eq_ok_iff (measureFile_eq_ok_iff analyzer date)

/-- A walk succeeds exactly when its log does and every commit of it can be read.  It files the
qualifying files of the log, commit by commit. -/
theorem history_eq_ok_iff {repository : Repository} {analyzer : Analyzer ε} {zone : Calendar.Zone}
    {limit : Option Nat} {history : History Sample} :
    repository.history analyzer zone limit = .ok history ↔
      ∃ log, repository.log limit = .ok log ∧ (∀ entry ∈ log, entry.2.IsReadable zone) ∧
        history = .ofPairs ((qualifyingOf log).map (findingOf analyzer zone)) := by
  unfold Repository.history
  cases walked : repository.log limit with
  | error failure => simp
  | ok log =>
      have filed : (log.map Prod.snd).flatMap (Commit.findings analyzer zone) =
          (qualifyingOf log).map (findingOf analyzer zone) := by
        simp [qualifyingOf, Commit.findings, List.map_flatMap, List.flatMap_map,
          Function.comp_def]
      simp only [foldlM_eq_ok_iff (measureCommit_eq_ok_iff analyzer zone), filed,
        List.forall_mem_map, History.empty_pushAll, Except.ok.injEq, exists_eq_left']

theorem map_fst_findingOf (analyzer : Analyzer ε) (zone : Calendar.Zone)
    (found : List (Commit × TreeFile)) :
    (found.map (findingOf analyzer zone)).map Prod.fst = found.map fun found => found.2.key := by
  rw [List.map_map]
  rfl

theorem map_snd_findingOf (analyzer : Analyzer ε) (zone : Calendar.Zone)
    (found : List (Commit × TreeFile)) :
    (found.map (findingOf analyzer zone)).map Prod.snd =
      found.map (sampleOf analyzer zone) := by
  rw [List.map_map]
  rfl

theorem valuesOf_findingOf (analyzer : Analyzer ε) (zone : Calendar.Zone) (stem : String)
    (found : List (Commit × TreeFile)) :
    History.valuesOf stem (found.map (findingOf analyzer zone)) =
      (found.filter fun found => found.2.key == stem).map (sampleOf analyzer zone) := by
  rw [History.valuesOf, List.filter_map, map_snd_findingOf]
  rfl

theorem exists_eq_ok {α δ : Type} {result : Except δ α}
    (success : result.toOption.isSome = true) : ∃ value, result = .ok value := by
  cases result with
  | error failure => simp [Except.toOption] at success
  | ok value => exact ⟨value, rfl⟩

def plainFile (text : String) : Entry := .file .regular (some text.toUTF8.toList)

/-- A commit at which two directories hold a file of the same name, one of them besides the marker
of a package. -/
def olderCommit : Commit where
  time := 0
  parents := []
  root := some [("a.py".toList, plainFile "x = 1\n"),
    ("lib".toList, .directory [("__init__.py".toList, plainFile "y = 0\n"),
      ("a.py".toList, plainFile "y = 1\n")])]

/-- A commit with two files to measure, of which one does not parse, and two others. -/
def newerCommit : Commit where
  time := 60
  parents := [0]
  root := some [("a.py".toList, plainFile "x = 1\nx = 2\n"), ("empty.py".toList, plainFile "\n"),
    ("notes.txt".toList, plainFile "text"),
    ("lib".toList, .directory [("b.py".toList, plainFile "def (")])]

def smallRepository : Repository := ⟨[olderCommit, newerCommit], some 1⟩

end CodeGauge
