import CodeGauge.Proofs.Decimal.Nearest
import CodeGauge.Proofs.Json.SingleLine
import CodeGauge.Report.Printing
import Mathlib.Data.List.Forall2

/-!
# Printed reports are read back

Whatever characters the names and dates of a report hold, its envelope is read back as an object
with just the members of the report, and its single lines are read back as the same objects for the
files (`printed_reports_tell_all`).
-/

namespace CodeGauge

open Decimal Json

namespace Report

/-- A value tells a figure: by a numeral that reads back as it, or by null if it is no number or not
finite. -/
def TellsFigure (value : Json) (figure : Float) : Prop :=
  match Double.ofFloat figure with
  | .finite double => ∃ numeral, value = .number numeral ∧ numeral.ReadsAs double
  | _ => value = .null

def TellsLimit (value : Json) (limit : Option Nat) : Prop :=
  match limit with
  | some count => value.toNat? = some count
  | none => value = .null

/-- A value is an object with just the members of some names, in their order. -/
def HasNames (value : Json) (names : List String) : Prop :=
  ∃ members, value = .object members ∧ members.map Prod.fst = names

def HasMember (value : Json) (name : String) (kind : Json → Prop) : Prop :=
  ∃ member, value.member? name = some member ∧ kind member

/-- A value is a list whose elements tell other values, one by one. -/
def TellsEach {α : Type} (tells : Json → α → Prop) (values : List α) (value : Json) : Prop :=
  ∃ elements, value = .array elements ∧ List.Forall₂ tells elements values

/-- An object tells a sample, and has no member for a label that is missing. -/
structure TellsSample (value : Json) (sample : Sample) : Prop where
  names : HasNames value
    (["ciclomatic_complexity", "maintainability", "lines_of_code"] ++
      (sample.file.map fun _ => "file_name").toList ++ (sample.date.map fun _ => "date").toList)
  complexity : HasMember value "ciclomatic_complexity" (TellsFigure · sample.figures.complexity)
  maintainability : HasMember value "maintainability" (TellsFigure · sample.figures.maintainability)
  lines : HasMember value "lines_of_code" fun member => member.toNat? = some sample.figures.lines
  file : value.member? "file_name" = sample.file.map Json.string
  date : value.member? "date" = sample.date.map Json.string

/-- An object tells a series. -/
structure TellsSeries (value : Json) (series : Series Sample) : Prop where
  names : HasNames value ["stem", "samples"]
  stem : value.member? "stem" = some (.string series.stem)
  samples : HasMember value "samples" (TellsEach TellsSample series.samples)

/-- An object tells a report that is written at a given time. -/
structure TellsReport (value : Json) (writtenAt : String) (inspection : Inspection) : Prop where
  names : HasNames value
    ["version", "generated_at", "repository_path", "history_inspected", "max_history_count",
      "metrics", "metrics_by_file", "files_history", "history_metrics"]
  version : HasMember value "version" fun member => member.toNat? = some version
  generatedAt : value.member? "generated_at" = some (.string writtenAt)
  repositoryPath : value.member? "repository_path" = some (.string inspection.repositoryPath)
  historyInspected : value.member? "history_inspected" = some (.bool inspection.historyInspected)
  historyLimit : HasMember value "max_history_count" (TellsLimit · inspection.historyLimit)
  metrics : HasMember value "metrics" (TellsSample · inspection.metrics)
  byFile : HasMember value "metrics_by_file" (TellsEach TellsSample inspection.byFile)
  filesHistory : HasMember value "files_history"
    (TellsEach TellsSeries inspection.filesHistory.series)
  timeline : HasMember value "history_metrics" (TellsEach TellsSample inspection.timeline)

theorem tellsFigure_ofFloat (figure : Float) : TellsFigure (.ofFloat figure) figure := by
  unfold TellsFigure Json.ofFloat
  cases number : Double.ofFloat figure with
  | finite value => exact ⟨value.numeral, rfl, readsAs_numeral (Binary.isDouble_of_ofFloat number)⟩
  | infinite negative => rfl
  | nan => rfl

theorem toNat?_ofNat (n : Nat) : (Json.ofNat n).toNat? = some n := by
  simp [Json.ofNat, Json.toNat?, Json.toInt?, Numeral.ofNat, Numeral.toInt?, Numeral.isWhole,
    valueOf_digits]

theorem tellsLimit_limitJson (limit : Option Nat) : TellsLimit (limitJson limit) limit := by
  cases limit with
  | none => rfl
  | some count => exact toNat?_ofNat count

theorem tellsSample_sampleJson (sample : Sample) : TellsSample (sampleJson sample) sample := by
  obtain ⟨figures, file, date⟩ := sample
  cases file <;> cases date <;> exact {
    names := ⟨_, rfl, rfl⟩
    complexity := ⟨_, rfl, tellsFigure_ofFloat figures.complexity⟩
    maintainability := ⟨_, rfl, tellsFigure_ofFloat figures.maintainability⟩
    lines := ⟨_, rfl, toNat?_ofNat figures.lines⟩
    file := rfl
    date := rfl }

theorem forall₂_map {α : Type} {tells : Json → α → Prop} {write : α → Json}
    (told : ∀ value, tells (write value) value) (values : List α) :
    List.Forall₂ tells (values.map write) values :=
  List.forall₂_map_left_iff.mpr (List.forall₂_same.mpr fun value _ => told value)

theorem tellsEach_map {α : Type} {tells : Json → α → Prop} {write : α → Json}
    (told : ∀ value, tells (write value) value) (values : List α) :
    TellsEach tells values (.array (values.map write)) :=
  ⟨_, rfl, forall₂_map told values⟩

theorem tellsSeries_seriesJson (series : Series Sample) :
    TellsSeries (seriesJson series) series where
  names := ⟨_, rfl, rfl⟩
  stem := rfl
  samples := ⟨_, rfl, tellsEach_map tellsSample_sampleJson series.samples⟩

theorem tellsReport_envelope (writtenAt : String) (inspection : Inspection) :
    TellsReport (envelope writtenAt inspection) writtenAt inspection where
  names := ⟨_, rfl, rfl⟩
  version := ⟨_, rfl, toNat?_ofNat version⟩
  generatedAt := rfl
  repositoryPath := rfl
  historyInspected := rfl
  historyLimit := ⟨_, rfl, tellsLimit_limitJson inspection.historyLimit⟩
  metrics := ⟨_, rfl, tellsSample_sampleJson inspection.metrics⟩
  byFile := ⟨_, rfl, tellsEach_map tellsSample_sampleJson inspection.byFile⟩
  filesHistory := ⟨_, rfl, tellsEach_map tellsSeries_seriesJson inspection.filesHistory.series⟩
  timeline := ⟨_, rfl, tellsEach_map tellsSample_sampleJson inspection.timeline⟩

theorem isWritten_ofFloat (figure : Float) : IsWritten (.ofFloat figure) := by
  unfold Json.ofFloat
  split
  · exact .number (isWritten_numeral _ _ _)
  · exact .null

theorem isWritten_natural (n : Nat) : IsWritten (.ofNat n) := .number (isWritten_ofNat n)

theorem isWritten_limitJson (limit : Option Nat) : IsWritten (limitJson limit) := by
  cases limit with
  | none => exact .null
  | some count => exact isWritten_natural count

theorem isWritten_labelMember {name : String} {label : Option String} :
    ∀ member ∈ labelMember name label, IsWritten member.2 := by
  intro member mem
  cases label with
  | none => cases mem
  | some text =>
      obtain rfl := List.mem_singleton.mp mem
      exact .string text

theorem isWritten_sampleJson (sample : Sample) : IsWritten (sampleJson sample) := by
  refine .object fun member mem => ?_
  simp only [List.mem_append, List.mem_cons, List.not_mem_nil, or_false] at mem
  rcases mem with ((rfl | rfl | rfl) | mem) | mem
  · exact isWritten_ofFloat sample.figures.complexity
  · exact isWritten_ofFloat sample.figures.maintainability
  · exact isWritten_natural sample.figures.lines
  · exact isWritten_labelMember member mem
  · exact isWritten_labelMember member mem

theorem isWritten_map {α : Type} {write : α → Json} (written : ∀ value, IsWritten (write value))
    (values : List α) : IsWritten (.array (values.map write)) := by
  refine .array fun element mem => ?_
  obtain ⟨value, -, rfl⟩ := List.mem_map.mp mem
  exact written value

theorem isWritten_seriesJson (series : Series Sample) : IsWritten (seriesJson series) := by
  refine .object fun member mem => ?_
  rcases List.mem_pair.mp mem with rfl | rfl
  · exact .string series.stem
  · exact isWritten_map isWritten_sampleJson series.samples

theorem isWritten_envelope (writtenAt : String) (inspection : Inspection) :
    IsWritten (envelope writtenAt inspection) := by
  refine .object fun member mem => ?_
  simp only [List.mem_cons, List.not_mem_nil, or_false] at mem
  rcases mem with rfl | rfl | rfl | rfl | rfl | rfl | rfl | rfl | rfl
  · exact isWritten_natural version
  · exact .string writtenAt
  · exact .string inspection.repositoryPath
  · exact .bool inspection.historyInspected
  · exact isWritten_limitJson inspection.historyLimit
  · exact isWritten_sampleJson inspection.metrics
  · exact isWritten_map isWritten_sampleJson inspection.byFile
  · exact isWritten_map isWritten_seriesJson inspection.filesHistory.series
  · exact isWritten_map isWritten_sampleJson inspection.timeline

theorem parse?_jsonText (writtenAt : String) (inspection : Inspection) :
    parse? (jsonText writtenAt inspection) = some (envelope writtenAt inspection) := by
  have text_eq : jsonText writtenAt inspection =
      String.ofList (renderAt .indented 0 (envelope writtenAt inspection) ++ ['\n']) := by
    rw [jsonText, render, String.ofList_append]
  have gap : IsGap ['\n'] := List.forall_mem_singleton.mpr rfl
  rw [text_eq]
  exact parse?_render isBlank_indented (isWritten_envelope writtenAt inspection) gap

def lineOf (sample : Sample) : List Char := renderAt .compact 0 (sampleJson sample)

theorem toList_linesText (inspection : Inspection) :
    (linesText inspection).toList = (inspection.byFile.map lineOf).flatMap (· ++ ['\n']) := by
  have line_eq : ∀ sample : Sample,
      ((sampleJson sample).render .compact ++ "\n").toList = lineOf sample ++ ['\n'] := by
    intro sample
    rw [String.toList_append, render, String.toList_ofList, lineOf]
    rfl
  simp only [linesText, String.toList_join, List.flatMap_map, line_eq]

theorem lines_linesText (inspection : Inspection) :
    Text.lines (linesText inspection).toList = inspection.byFile.map lineOf := by
  rw [toList_linesText]
  refine lines_flatMap fun line mem => ?_
  obtain ⟨sample, -, rfl⟩ := List.mem_map.mp mem
  exact isVisible_renderAt (isWritten_sampleJson sample) 0

theorem parse?_lineOf (sample : Sample) :
    parse? (String.ofList (lineOf sample)) = some (sampleJson sample) := by
  have parsed := parse?_render isBlank_compact (isWritten_sampleJson sample) (List.forall_mem_nil _)
  rwa [List.append_nil] at parsed

/-- Whatever a report holds, the text of its single lines is one line for each file, each ended by a
line feed, and each line is read back as an object with just the fields of the sample: labels that
are missing have no member, figures that are no numbers are null, and the numerals of the others
read back as they are.  The text of the envelope is read back as an object with just the members of
the report, and its elements for the files are the same values as the lines. -/
theorem printed_reports_tell_all (writtenAt : String) (inspection : Inspection) :
    let lines := Text.lines (linesText inspection).toList
    (linesText inspection).toList = lines.flatMap (· ++ ['\n']) ∧
    lines.length = inspection.byFile.length ∧
    ∃ objects report,
      lines.map (fun line => parse? (String.ofList line)) = objects.map some ∧
      List.Forall₂ TellsSample objects inspection.byFile ∧
      parse? (jsonText writtenAt inspection) = some report ∧
      TellsReport report writtenAt inspection ∧
      report.member? "metrics_by_file" = some (.array objects) := by
  simp only [lines_linesText]
  refine ⟨toList_linesText inspection, List.length_map lineOf,
    inspection.byFile.map sampleJson, envelope writtenAt inspection, ?_,
    forall₂_map tellsSample_sampleJson inspection.byFile, parse?_jsonText writtenAt inspection,
    tellsReport_envelope writtenAt inspection, rfl⟩
  simp only [List.map_map, Function.comp_def, parse?_lineOf]

end Report

end CodeGauge
