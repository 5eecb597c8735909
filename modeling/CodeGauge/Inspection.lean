import CodeGauge.Calendar
import CodeGauge.History
import CodeGauge.Measurement.Analyzer
import CodeGauge.Path
import CodeGauge.Repository.Basic
import CodeGauge.Text.Basic

/-!
# Inspections

An inspection measures the source files of a repository at its head and, if asked, at all commits
of its log.  Files are filed by stem, in the order of the log and within a commit in the order of
its listing; markers of packages and empty files are left out.
-/

namespace CodeGauge

open Measurement

/-- The stem of the files that only mark a package. -/
def packageMarker : List Char := "__init__".toList

/-- The text of a file on which it is measured: its bytes as text, without one line feed at the
end. -/
def measuredText (content : List UInt8) : List Char :=
  Text.dropFinalNewline (Text.decodeLossy content)

variable {ε : Type}

def TreeFile.stem (file : TreeFile) : List Char := Path.stem (Path.name file.path)

/-- Whether a file is a source file that does more than mark a package. -/
def TreeFile.isMeasured (file : TreeFile) : Bool :=
  Path.isSource file.path && file.stem != packageMarker

def textSample (analyzer : Analyzer ε) (date : String) (text : List Char) : Sample :=
  (Sample.ofFigures (analyzer.figures text)).withDate date

/-- Files the sample of a file in a history, unless the file is left out. -/
def measureFile (analyzer : Analyzer ε) (date : String) (history : History Sample)
    (file : TreeFile) : Except Failure (History Sample) :=
  if file.isMeasured then
    match file.content with
    | none => .error .missingContent
    | some content =>
      let text := measuredText content
      if text.isEmpty then .ok history
      else .ok (history.push (String.ofList file.stem) (textSample analyzer date text))
  else .ok history

def measureCommit (analyzer : Analyzer ε) (zone : Calendar.Zone) (history : History Sample)
    (commit : Commit) : Except Failure (History Sample) :=
  match Calendar.format? zone commit.time with
  | none => .error (.timeOutOfRange commit.time)
  | some date =>
    match commit.files with
    | .error failure => .error failure
    | .ok files => files.foldlM (measureFile analyzer date) history

/-- The history of a repository's log, cut off at a limit if there is one. -/
def Repository.history (repository : Repository) (analyzer : Analyzer ε) (zone : Calendar.Zone)
    (limit : Option Nat) : Except Failure (History Sample) :=
  match repository.log limit with
  | .error failure => .error failure
  | .ok log => (log.map Prod.snd).foldlM (measureCommit analyzer zone) .empty

/-- What an inspection is asked for. -/
structure Settings where
  wholeLog : Bool
  /-- The most commits of the log to measure; zero or less stands for all of them. -/
  mostCommits : Int
  universalTime : Bool
  deriving Repr, DecidableEq

/-- The limit that a count of commits sets. -/
def historyLimit (count : Int) : Option Nat := if 0 < count then some count.toNat else none

/-- The zone of the dates, given the local one. -/
def Settings.zone (settings : Settings) (localZone : Calendar.Zone) : Calendar.Zone :=
  if settings.universalTime then .fixed 0 else localZone

/-- Everything that an inspection found. -/
structure Inspection where
  repositoryPath : String
  metrics : Sample
  byFile : List Sample
  filesHistory : History Sample
  timeline : List Sample
  historyInspected : Bool
  historyLimit : Option Nat

/-- The first sample of each series, with the stem as its file. -/
def History.firstSamples (history : History Sample) : List Sample :=
  history.series.filterMap fun series =>
    series.samples.head?.map fun sample => sample.withFile series.stem

/-- Inspects a repository that stands at a given place. -/
def Repository.inspect (repository : Repository) (analyzer : Analyzer ε) (path : String)
    (localZone : Calendar.Zone) (settings : Settings) : Except Failure Inspection := do
  let zone := settings.zone localZone
  let limit := historyLimit settings.mostCommits
  let current ← repository.history analyzer zone (some 1)
  let byFile := current.firstSamples
  let filesHistory ←
    if settings.wholeLog then repository.history analyzer zone limit else .ok .empty
  let timeline := if settings.wholeLog then filesHistory.timeline else []
  return ⟨path, .mean byFile, byFile, filesHistory, timeline, settings.wholeLog, limit⟩

end CodeGauge
