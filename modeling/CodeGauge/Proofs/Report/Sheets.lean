import CodeGauge.Proofs.Csv.RoundTrip
import CodeGauge.Proofs.Decimal.Nearest
import CodeGauge.Proofs.Json.Numeral
import CodeGauge.Proofs.Report.Writing
import Mathlib.Data.List.Forall2

/-!
# What the tables of a report tell

A sheet shows some samples in some columns.  The text that is written for it is read back as the
names of its columns and one record for each sample, whatever characters the stems and dates of the
samples hold (`tables_read_back`), and writing a report leaves such a text for every sheet whose
file can be created (`write_attempts_every_table`).
-/

namespace CodeGauge.Report

open Decimal Filesystem

/-- A field holds a figure: the shortest numeral of the figure, which reads back as the figure, or
the word for one that is no number or not finite. -/
def HoldsFigure (field : List Char) (figure : Float) : Prop :=
  match Double.ofFloat figure with
  | .finite double => field = double.numeral.render false ∧
      Json.readNumeral field = some (double.numeral, []) ∧ double.numeral.ReadsAs double
  | .infinite negative => field = (if negative then "-inf" else "inf").toList
  | .nan => field = "NaN".toList

/-- What the fields of a table tell about a sample. -/
inductive Column where
  | file
  | date
  | complexity
  | maintainability
  | lines
  deriving Repr, DecidableEq

namespace Column

def name : Column → List Char
  | file => "File".toList
  | date => "Date".toList
  | complexity => "Ciclomatic_Complexity".toList
  | maintainability => "Maintainability".toList
  | lines => "Lines_of_Code".toList

/-- A field tells a sample in a column.  A sample without a stem or date has an empty one. -/
def Tells (sample : Sample) : Column → List Char → Prop
  | file, field => field = (sample.file.getD "").toList
  | date, field => field = (sample.date.getD "").toList
  | complexity, field => HoldsFigure field sample.figures.complexity
  | maintainability, field => HoldsFigure field sample.figures.maintainability
  | lines, field => field = Nat.toDigits 10 sample.figures.lines

def figures : List Column := [complexity, maintainability, lines]

/-- The field that is written for a sample in a column. -/
def written (sample : Sample) : Column → List Char
  | file => labelText sample.file
  | date => labelText sample.date
  | complexity => figureText sample.figures.complexity
  | maintainability => figureText sample.figures.maintainability
  | lines => Decimal.digits sample.figures.lines

end Column

/-- Samples that are shown in columns, in a file at a path. -/
structure Sheet where
  path : List Char
  columns : List Column
  samples : List Sample

namespace Sheet

/-- A text tells a sheet: it is read as the names of the columns and one record for each sample, and
the fields of each record tell its sample, column by column. -/
def IsToldBy (sheet : Sheet) (text : String) : Prop :=
  ∃ rows, Csv.parse? text.toList = some (sheet.columns.map Column.name :: rows) ∧
    List.Forall₂ (fun sample row => List.Forall₂ (Column.Tells sample) sheet.columns row)
      sheet.samples rows

/-- The table that is written for a sheet. -/
def table (sheet : Sheet) : Table :=
  (sheet.path, sheet.columns.map Column.name ::
    sheet.samples.map fun sample => sheet.columns.map (Column.written sample))

end Sheet

/-- The sheets of a report below a directory: the mean figures, the figures by file, the history of
each file, and the mean figures by date. -/
def sheets (inspection : Inspection) (directory : List Char) : List Sheet :=
  ⟨Path.join directory "metrics.csv".toList, Column.figures, [inspection.metrics]⟩ ::
  ⟨Path.join directory "metrics_by_file.csv".toList, .file :: .date :: Column.figures,
    inspection.byFile⟩ ::
  inspection.filesHistory.series.map (fun series =>
    ⟨Path.join (Path.join directory "files_history".toList) (series.stem.toList ++ ".csv".toList),
      .date :: Column.figures, series.samples⟩) ++
  [⟨Path.join directory "history_metrics.csv".toList, .date :: Column.figures,
    inspection.timeline⟩]

variable {inspection : Inspection} {directory : List Char} {sheet : Sheet}

theorem tables_eq_map_table (inspection : Inspection) (directory : List Char) :
    tables inspection directory = (sheets inspection directory).map Sheet.table := by
  simp only [tables, sheets, List.map_append, List.map_cons, List.map_nil, List.map_map]
  rfl

theorem map_fst_tables_eq_map_path (inspection : Inspection) (directory : List Char) :
    (tables inspection directory).map Prod.fst = (sheets inspection directory).map Sheet.path := by
  rw [tables_eq_map_table, List.map_map]
  rfl

theorem columns_ne_nil_of_mem_sheets (mem : sheet ∈ sheets inspection directory) :
    sheet.columns ≠ [] := by
  simp only [sheets, List.cons_append, List.mem_cons, List.mem_append, List.mem_map,
    List.not_mem_nil, or_false] at mem
  rcases mem with rfl | rfl | ⟨series, -, rfl⟩ | rfl <;> exact List.cons_ne_nil _ _

theorem holdsFigure_figureText (figure : Float) : HoldsFigure (figureText figure) figure := by
  unfold HoldsFigure figureText
  cases number : Double.ofFloat figure with
  | finite value =>
      have read : Json.readNumeral (value.numeral.render false ++ []) = some (value.numeral, []) :=
        Json.readNumeral_render false (isWritten_numeral _ _ _) nofun
      rw [List.append_nil] at read
      exact ⟨rfl, read, readsAs_numeral (Binary.isDouble_of_ofFloat number)⟩
  | infinite negative => rfl
  | nan => rfl

theorem Column.tells_written (sample : Sample) (column : Column) :
    column.Tells sample (column.written sample) := by
  cases column with
  | file => rfl
  | date => rfl
  | complexity => exact holdsFigure_figureText _
  | maintainability => exact holdsFigure_figureText _
  | lines => rfl

theorem Column.exists_figures {sample : Sample} {row : Csv.Record}
    (told : List.Forall₂ (Column.Tells sample) Column.figures row) :
    ∃ complexity maintainability,
      row = [complexity, maintainability, Nat.toDigits 10 sample.figures.lines] ∧
        HoldsFigure complexity sample.figures.complexity ∧
        HoldsFigure maintainability sample.figures.maintainability := by
  obtain ⟨complexity, _, complexity_told, others, rfl⟩ := List.forall₂_cons_left_iff.mp told
  obtain ⟨maintainability, _, maintainability_told, last, rfl⟩ :=
    List.forall₂_cons_left_iff.mp others
  obtain ⟨_, _, rfl, none_left, rfl⟩ := List.forall₂_cons_left_iff.mp last
  obtain rfl := List.forall₂_nil_left_iff.mp none_left
  exact ⟨complexity, maintainability, rfl, complexity_told, maintainability_told⟩

namespace Sheet

theorem forall₂_map_written (sample : Sample) (columns : List Column) :
    List.Forall₂ (Column.Tells sample) columns (columns.map (Column.written sample)) :=
  List.forall₂_map_right_iff.mpr (List.forall₂_same.mpr fun column _ =>
    Column.tells_written sample column)

theorem ne_nil_of_mem_table (shown : sheet.columns ≠ []) :
    ∀ record ∈ sheet.table.2, record ≠ [] := by
  intro record mem
  rcases List.mem_cons.mp mem with rfl | row_mem
  · exact mt List.map_eq_nil_iff.mp shown
  · obtain ⟨sample, -, rfl⟩ := List.mem_map.mp row_mem
    exact mt List.map_eq_nil_iff.mp shown

theorem isToldBy_tableText (shown : sheet.columns ≠ []) :
    sheet.IsToldBy (tableText sheet.table) := by
  refine ⟨_, ?_, List.forall₂_map_right_iff.mpr (List.forall₂_same.mpr fun sample _ =>
    forall₂_map_written sample sheet.columns)⟩
  rw [tableText, String.toList_ofList]
  exact Csv.parse?_render (ne_nil_of_mem_table shown)

theorem IsToldBy.exists_header {text : String} (told : sheet.IsToldBy text) :
    ∃ header rows, Csv.parse? text.toList = some (header :: rows) ∧
      ∀ row ∈ rows, row.length = header.length := by
  obtain ⟨rows, parsed, each⟩ := told
  refine ⟨_, rows, parsed, fun row mem => ?_⟩
  obtain ⟨index, bound, rfl⟩ := List.getElem_of_mem mem
  have row_told := (List.forall₂_iff_get.mp each).2 index (each.length_eq ▸ bound) bound
  rw [List.length_map]
  exact row_told.length_eq.symm

theorem IsToldBy.exists_row {path : List Char} {columns : List Column} {sample : Sample}
    {text : String} (told : IsToldBy ⟨path, columns, [sample]⟩ text) :
    ∃ row, Csv.parse? text.toList = some [columns.map Column.name, row] ∧
      List.Forall₂ (Column.Tells sample) columns row := by
  obtain ⟨rows, parsed, each⟩ := told
  obtain ⟨row, others, row_told, none_left, rfl⟩ := List.forall₂_cons_left_iff.mp each
  obtain rfl := List.forall₂_nil_left_iff.mp none_left
  exact ⟨row, parsed, row_told⟩

end Sheet

/-- The tables of a report are its sheets, one by one and in order: each stands at the path of its
sheet, its text tells the sheet, its records are as long as its header, and an attempt at it leaves
just this text in its file. -/
theorem tables_read_back (inspection : Inspection) (directory : List Char) :
    List.Forall₂
      (fun table sheet =>
        table.1 = sheet.path ∧ sheet.IsToldBy (tableText table) ∧
        (∃ header rows, Csv.parse? (tableText table).toList = some (header :: rows) ∧
          ∀ row ∈ rows, row.length = header.length) ∧
        ∀ working progress location, progress.files.target working table.1 = .ok location →
          (attempt working progress table).files.item? location = some (.file (tableText table)))
      (tables inspection directory) (sheets inspection directory) := by
  rw [tables_eq_map_table, List.forall₂_map_left_iff, List.forall₂_same]
  intro sheet mem
  have told := Sheet.isToldBy_tableText (columns_ne_nil_of_mem_sheets mem)
  refine ⟨rfl, told, told.exists_header, fun working progress location reached => ?_⟩
  rw [attempt_of_target reached, item?_set _ _ _ _ (ne_nil_of_target reached), if_pos rfl]

/-- A report on a file whose stem holds a comma, a quote and the end of a line. -/
def quotedReport : Inspection where
  repositoryPath := "quoted"
  metrics := .ofFigures .zero
  byFile := [(Sample.ofFigures .zero).withFile "a,\"\r\n"]
  filesHistory := .empty
  timeline := []
  historyInspected := false
  historyLimit := none

def quotedTable : Table := ("metrics_by_file.csv".toList, fileTable quotedReport.byFile)

theorem quotedTable_reads_back :
    Filesystem.target ⟨[]⟩ [] quotedTable.1 = .ok ["metrics_by_file.csv".toList] ∧
      (attempt [] ⟨⟨[]⟩, none⟩ quotedTable).files.item? ["metrics_by_file.csv".toList] =
        some (.file (tableText quotedTable)) ∧
      ∃ complexity maintainability, Csv.parse? (tableText quotedTable).toList =
          some [["File".toList, "Date".toList, "Ciclomatic_Complexity".toList,
              "Maintainability".toList, "Lines_of_Code".toList],
            ["a,\"\r\n".toList, [], complexity, maintainability, ['0']]] ∧
        HoldsFigure complexity 0 ∧ HoldsFigure maintainability 0 := by
  have reached : Filesystem.target ⟨[]⟩ [] quotedTable.1 =
      .ok ["metrics_by_file.csv".toList] := by decide +kernel
  have second := (List.forall₂_iff_get.mp (tables_read_back quotedReport [])).2 1 (by decide)
    (by decide)
  obtain ⟨-, told, -, left⟩ := second
  obtain ⟨row, parsed, row_told⟩ := told.exists_row
  obtain ⟨_, _, rfl, labels, rfl⟩ := List.forall₂_cons_left_iff.mp row_told
  obtain ⟨_, _, rfl, figures, rfl⟩ := List.forall₂_cons_left_iff.mp labels
  obtain ⟨complexity, maintainability, rfl, held⟩ := Column.exists_figures figures
  exact ⟨reached, left [] ⟨⟨[]⟩, none⟩ _ reached, complexity, maintainability, parsed, held⟩

/-- What writing a report leaves, where the directories of its sheets stand. -/
structure LeavesSheets (working : Location) (sheets : List Sheet) (before : Filesystem)
    (after : Progress) : Prop where
  /-- Where the file of a sheet can be created, a text is found that tells the sheet, whatever stood
  there. -/
  written : ∀ sheet ∈ sheets, IsCreatable before working sheet.path →
    ∃ text, after.files.found? working sheet.path = some (.file text) ∧ sheet.IsToldBy text
  /-- What was found at any other path of a sheet is still found there. -/
  kept : ∀ sheet ∈ sheets, ¬IsCreatable before working sheet.path →
    after.files.found? working sheet.path = before.found? working sheet.path
  elsewhere : ∀ location,
    (∀ sheet ∈ sheets, before.target working sheet.path ≠ .ok location) →
      after.files.item? location = before.item? location
  succeeds_iff : after.failure = none ↔ ∀ sheet ∈ sheets, IsCreatable before working sheet.path
  /-- Otherwise the first path is reported at which no file can be created. -/
  first_failure : ∀ earlier path later, sheets.map Sheet.path = earlier ++ path :: later →
    (∀ other ∈ earlier, IsCreatable before working other) → ¬IsCreatable before working path →
      ∃ error, after.failure = some (.table path error)

theorem leavesSheets_attemptAll {tree : Filesystem} {working : Location}
    (distinct : HaveDistinctPlaces tree working ((sheets inspection directory).map Sheet.path)) :
    LeavesSheets working (sheets inspection directory) tree
      (attemptAll working ⟨tree, none⟩ (tables inspection directory)) where
  written sheet mem creatable := by
    rw [← map_fst_tables_eq_map_path] at distinct
    have table_mem : sheet.table ∈ tables inspection directory := by
      rw [tables_eq_map_table]
      exact List.mem_map_of_mem mem
    exact ⟨_, found?_attemptAll distinct table_mem creatable,
      Sheet.isToldBy_tableText (columns_ne_nil_of_mem_sheets mem)⟩
  kept _ _ blocked := found?_attemptAll_of_not_isCreatable blocked _
  elsewhere location elsewhere := by
    refine item?_attemptAll ⟨tree, none⟩ ?_
    rw [tables_eq_map_table, List.forall_mem_map]
    exact elsewhere
  succeeds_iff := by
    rw [failure_attemptAll_eq_none_iff, map_fst_tables_eq_map_path, List.forall_mem_map]
  first_failure earlier path later split :=
    failure_attemptAll_of_first (map_fst_tables_eq_map_path _ _ ▸ split)

/-- Writing a report adds the directories of its tables and, where one of them cannot be made, stops
with that error and writes no table.  Otherwise, where no two tables lead to one place, each table
whose file can be created is found at its path, everything else stays as it was, and the first table
in the order of the attempts whose file cannot be created is reported. -/
theorem write_attempts_every_table (files : Filesystem) (working : Location)
    (directory : List Char) (inspection : Inspection) :
    let made := files.makeDirectories working (filesDirectory directory)
    let after := write files working directory inspection
    files.GrowsByDirectories made.1 ∧
      (∀ error, made.2 = some error → after = ⟨made.1, some (.directories error)⟩) ∧
      (made.2 = none →
        HaveDistinctPlaces made.1 working ((sheets inspection directory).map Sheet.path) →
          LeavesSheets working (sheets inspection directory) made.1 after) := by
  refine ⟨makeDirectories_grows files working (filesDirectory directory), ?_, ?_⟩
  · intro error failed
    exact write_of_not_made (Prod.ext rfl failed) inspection
  · intro made distinct
    rw [write_of_made (Prod.ext rfl made) inspection]
    exact leavesSheets_attemptAll distinct

/-- A report with one file at the head and in the history. -/
def oneFileReport : Inspection where
  repositoryPath := "one"
  metrics := .ofFigures .zero
  byFile := [(Sample.ofFigures .zero).withFile "a"]
  filesHistory := ⟨[⟨"a", [.ofFigures .zero]⟩]⟩
  timeline := []
  historyInspected := true
  historyLimit := none

/-- A tree with a directory at the path of the first table. -/
def blockedTree : Filesystem := .ofDirectories [["out".toList, "metrics.csv".toList]]

theorem blockedTree_attempts_every_table :
    (blockedTree.makeDirectories [] (filesDirectory "out".toList)).2 = none ∧
      HaveDistinctPlaces (blockedTree.makeDirectories [] (filesDirectory "out".toList)).1 []
        ((sheets oneFileReport "out".toList).map Sheet.path) ∧
      (∃ error, (write blockedTree [] "out".toList oneFileReport).failure =
        some (.table "out/metrics.csv".toList error)) ∧
      ∃ text complexity maintainability,
        (write blockedTree [] "out".toList oneFileReport).files.found? []
            "out/files_history/a.csv".toList = some (.file text) ∧
          Csv.parse? text.toList =
            some [["Date".toList, "Ciclomatic_Complexity".toList, "Maintainability".toList,
                "Lines_of_Code".toList],
              [[], complexity, maintainability, ['0']]] ∧
          HoldsFigure complexity 0 ∧ HoldsFigure maintainability 0 := by
  have made : (blockedTree.makeDirectories [] (filesDirectory "out".toList)).2 = none := by
    decide +kernel
  have distinct : HaveDistinctPlaces
      (blockedTree.makeDirectories [] (filesDirectory "out".toList)).1 []
      ((sheets oneFileReport "out".toList).map Sheet.path) := by decide +kernel
  have leaves := (write_attempts_every_table blockedTree [] "out".toList oneFileReport).2.2 made
    distinct
  refine ⟨made, distinct, leaves.first_failure [] _ _ rfl (by simp) ?_, ?_⟩
  · rintro ⟨location, reached⟩
    have refused : (blockedTree.makeDirectories [] (filesDirectory "out".toList)).1.target []
        "out/metrics.csv".toList = .error .isDirectory := by decide +kernel
    exact nomatch refused.symm.trans reached
  · have creatable : IsCreatable (blockedTree.makeDirectories [] (filesDirectory "out".toList)).1 []
        "out/files_history/a.csv".toList :=
      ⟨["out".toList, "files_history".toList, "a.csv".toList], by decide +kernel⟩
    obtain ⟨text, found, told⟩ := leaves.written
      ⟨"out/files_history/a.csv".toList, .date :: Column.figures, [.ofFigures .zero]⟩
      (.tail _ (.tail _ (.head _))) creatable
    obtain ⟨row, parsed, row_told⟩ := told.exists_row
    obtain ⟨_, _, rfl, figures, rfl⟩ := List.forall₂_cons_left_iff.mp row_told
    obtain ⟨complexity, maintainability, rfl, held⟩ := Column.exists_figures figures
    exact ⟨text, complexity, maintainability, found, parsed, held⟩

end CodeGauge.Report
