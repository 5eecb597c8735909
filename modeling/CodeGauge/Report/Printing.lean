import CodeGauge.Decimal.Numeral
import CodeGauge.Inspection
import CodeGauge.Json.Value

/-!
# Printed reports

A report is printed as one envelope with the version of its form, as one object for each file, or as
a summary in columns, whose figures have two places.
-/

namespace CodeGauge.Report

def version : Nat := 1

/-- A member that is left out where it has no text. -/
def labelMember (name : String) (label : Option String) : List (String × Json) :=
  match label with
  | some text => [(name, .string text)]
  | none => []

def sampleJson (sample : Sample) : Json :=
  .object <|
    [("ciclomatic_complexity", .ofFloat sample.figures.complexity),
      ("maintainability", .ofFloat sample.figures.maintainability),
      ("lines_of_code", .ofNat sample.figures.lines)] ++
    labelMember "file_name" sample.file ++ labelMember "date" sample.date

def seriesJson (series : Series Sample) : Json :=
  .object [("stem", .string series.stem), ("samples", .array (series.samples.map sampleJson))]

def limitJson (limit : Option Nat) : Json :=
  match limit with
  | some count => .ofNat count
  | none => .null

/-- The envelope of a report that is written at a given time. -/
def envelope (writtenAt : String) (inspection : Inspection) : Json :=
  .object
    [("version", .ofNat version),
      ("generated_at", .string writtenAt),
      ("repository_path", .string inspection.repositoryPath),
      ("history_inspected", .bool inspection.historyInspected),
      ("max_history_count", limitJson inspection.historyLimit),
      ("metrics", sampleJson inspection.metrics),
      ("metrics_by_file", .array (inspection.byFile.map sampleJson)),
      ("files_history", .array (inspection.filesHistory.series.map seriesJson)),
      ("history_metrics", .array (inspection.timeline.map sampleJson))]

def jsonText (writtenAt : String) (inspection : Inspection) : String :=
  (envelope writtenAt inspection).render .indented ++ "\n"

/-- The figures by file, one object a line. -/
def linesText (inspection : Inspection) : String :=
  String.join (inspection.byFile.map fun sample => (sampleJson sample).render .compact ++ "\n")

/-- How a part of a summary is styled. -/
inductive Ink where
  | bold
  | dim
  | green
  | yellow
  | cyan
  deriving Repr, DecidableEq

def Ink.code : Ink → String
  | bold => "1"
  | dim => "2"
  | green => "32"
  | yellow => "33"
  | cyan => "36"

/-- A text in a style, or plain where no styles are shown. -/
def paint (styled : Bool) (ink : Ink) (text : String) : String :=
  if styled then "\x1b[" ++ ink.code ++ "m" ++ text ++ "\x1b[0m" else text

def filling (width : Nat) (text : String) : String :=
  String.ofList (List.replicate (width - text.length) ' ')

def atLeft (width : Nat) (text : String) : String := text ++ filling width text

def atRight (width : Nat) (text : String) : String := filling width text ++ text

def twoPlaces (x : Float) : String :=
  match Decimal.Double.ofFloat x with
  | .finite value => String.ofList ((value.fixed 2).render false)
  | .infinite negative => if negative then "-inf" else "inf"
  | .nan => "NaN"

def rule (width : Nat) : String := String.ofList (List.replicate width '─')

def row (file complexity maintainability lines : String) : String :=
  file ++ " " ++ complexity ++ " " ++ maintainability ++ " " ++ lines

/-- The head of the table of files; the blanks of a column are styled with it. -/
def headRow (styled : Bool) : String :=
  row (paint styled .bold (atLeft 40 "File")) (paint styled .bold (atRight 10 "CC"))
    (paint styled .bold (atRight 10 "MI")) (paint styled .bold (atRight 8 "LOC"))

def sampleRow (sample : Sample) : String :=
  row (atLeft 40 (sample.file.getD "")) (atRight 10 (twoPlaces sample.figures.complexity))
    (atRight 10 (twoPlaces sample.figures.maintainability))
    (atRight 8 (toString sample.figures.lines))

def mostRows : Nat := 50

def headLines (styled : Bool) (inspection : Inspection) : List String :=
  let figures := inspection.metrics.figures
  [paint styled .bold "Code Quality Summary", rule 50,
    "Repository: " ++ paint styled .dim inspection.repositoryPath,
    "Cyclomatic complexity: " ++ paint styled .cyan (twoPlaces figures.complexity),
    "Maintainability index: " ++ paint styled .green (twoPlaces figures.maintainability),
    "Lines of code: " ++ paint styled .yellow (toString figures.lines),
    "Files: " ++ paint styled .cyan (toString inspection.byFile.length)]

def rangeLines (styled : Bool) (timeline : List Sample) : List String :=
  match timeline.head?, timeline.getLast? with
  | some newest, some oldest =>
    ["Date range: " ++ paint styled .dim (oldest.date.getD "") ++ " to " ++
      paint styled .dim (newest.date.getD "")]
  | _, _ => []

def historyLines (styled : Bool) (inspection : Inspection) : List String :=
  if inspection.historyInspected then
    ("History: " ++ paint styled .cyan (toString inspection.filesHistory.size) ++
      " files over " ++ paint styled .cyan (toString inspection.timeline.length) ++ " dates") ::
      rangeLines styled inspection.timeline
  else []

/-- The lines of the table of files, unless there are no files. -/
def fileLines (styled : Bool) (samples : List Sample) : List String :=
  if samples.isEmpty then []
  else
    "" :: headRow styled :: rule 71 :: (samples.take mostRows).map sampleRow ++
      if mostRows < samples.length then
        ["", "... and " ++ toString (samples.length - mostRows) ++ " more files"]
      else []

def closingLines (styled : Bool) (writtenTo : Option String) : List String :=
  match writtenTo with
  | some directory => ["", "Reports written to " ++ paint styled .bold directory]
  | none => []

def textOfLines (lines : List String) : String := String.join (lines.map (· ++ "\n"))

/-- The summary of a report. -/
def summaryText (styled : Bool) (inspection : Inspection) (writtenTo : Option String) : String :=
  textOfLines
    (headLines styled inspection ++ historyLines styled inspection ++
      fileLines styled inspection.byFile ++ closingLines styled writtenTo)

end CodeGauge.Report
