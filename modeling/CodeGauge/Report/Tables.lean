import CodeGauge.Csv
import CodeGauge.Decimal.Numeral
import CodeGauge.Filesystem
import CodeGauge.Inspection

/-!
# Report tables

A report is written as comma-separated tables: the mean figures, the figures by file, one table for
the history of each file, and the mean figures by date.  Every table is attempted, and the first
failure is reported afterwards.
-/

namespace CodeGauge

open Measurement

namespace Report

/-- The text of a figure: the shortest numeral that reads back, exponents without a plus sign. -/
def figureText (x : Float) : List Char :=
  match Decimal.Double.ofFloat x with
  | .finite value => value.numeral.render false
  | .infinite negative => (if negative then "-inf" else "inf").toList
  | .nan => "NaN".toList

def figureHeader : Csv.Record :=
  ["Ciclomatic_Complexity".toList, "Maintainability".toList, "Lines_of_Code".toList]

def figureFields (sample : Sample) : Csv.Record :=
  [figureText sample.figures.complexity, figureText sample.figures.maintainability,
    Decimal.digits sample.figures.lines]

def labelText (label : Option String) : List Char := (label.getD "").toList

def metricsTable (sample : Sample) : List Csv.Record := [figureHeader, figureFields sample]

def fileTable (samples : List Sample) : List Csv.Record :=
  ("File".toList :: "Date".toList :: figureHeader) ::
    samples.map fun sample =>
      labelText sample.file :: labelText sample.date :: figureFields sample

def datedTable (samples : List Sample) : List Csv.Record :=
  ("Date".toList :: figureHeader) ::
    samples.map fun sample => labelText sample.date :: figureFields sample

def filesDirectory (directory : List Char) : List Char :=
  Path.join directory "files_history".toList

def seriesPath (directory : List Char) (stem : String) : List Char :=
  Path.join (filesDirectory directory) (stem.toList ++ ".csv".toList)

/-- The tables of a report with their paths below a directory, in the order in which they are
attempted. -/
def tables (inspection : Inspection) (directory : List Char) :
    List (List Char × List Csv.Record) :=
  (Path.join directory "metrics.csv".toList, metricsTable inspection.metrics) ::
  (Path.join directory "metrics_by_file.csv".toList, fileTable inspection.byFile) ::
  inspection.filesHistory.series.map (fun series =>
    (seriesPath directory series.stem, datedTable series.samples)) ++
  [(Path.join directory "history_metrics.csv".toList, datedTable inspection.timeline)]

theorem mem_tables_iff {inspection : Inspection} {directory : List Char}
    {table : List Char × List Csv.Record} :
    table ∈ tables inspection directory ↔
      table = (Path.join directory "metrics.csv".toList, metricsTable inspection.metrics) ∨
      table = (Path.join directory "metrics_by_file.csv".toList, fileTable inspection.byFile) ∨
      (∃ series ∈ inspection.filesHistory.series,
        table = (seriesPath directory series.stem, datedTable series.samples)) ∨
      table =
        (Path.join directory "history_metrics.csv".toList, datedTable inspection.timeline) := by
  simp [tables, eq_comm]

/-- Why a report was not written in full. -/
inductive WriteError where
  | directories (error : FileError)
  | table (path : List Char) (error : FileError)
  deriving Repr, DecidableEq

def tableErrorMessage (path : List Char) (error : FileError) : String :=
  "Failed to write " ++ String.ofList path ++ ": IO error: " ++ error.message

/-- A file tree with the first failure so far. -/
structure Progress where
  files : Filesystem
  failure : Option WriteError

def attempt (working : Location) (progress : Progress)
    (table : List Char × List Csv.Record) : Progress :=
  match progress.files.write working table.1 (String.ofList (Csv.render table.2)) with
  | .ok files => ⟨files, progress.failure⟩
  | .error error => ⟨progress.files, progress.failure.or (some (.table table.1 error))⟩

/-- Writes a report below a directory. -/
def write (files : Filesystem) (working : Location) (directory : List Char)
    (inspection : Inspection) : Progress :=
  match files.makeDirectories working (filesDirectory directory) with
  | (files, some error) => ⟨files, some (.directories error)⟩
  | (files, none) => (tables inspection directory).foldl (attempt working) ⟨files, none⟩

end Report

end CodeGauge
