import CodeGauge.Measurement.Complexity
import CodeGauge.Measurement.Figures
import CodeGauge.Measurement.Halstead
import CodeGauge.Measurement.LineCount
import CodeGauge.Syntax.Statement

/-!
# The maintainability index and analyzers

The index falls with the Halstead volume, the complexity and the logical lines, and moves with the
share of comment lines through the sine of a square root.  An analyzer answers for the blocks, the
index and the lines of a text; where an answer fails, the text has the figures of no code.
-/

namespace CodeGauge.Measurement

open Syntax

variable {α : Type} [Analytic α]

/-- Halstead's volume: the length times the binary logarithm of the vocabulary. -/
def Halstead.volume (counts : Halstead) : α :=
  if counts.vocabulary = 0 then 0
  else ofCount counts.length * Analytic.log2 (ofCount counts.vocabulary)

/-- What the index is computed from. -/
structure IndexInputs (α : Type) where
  volume : α
  complexity : Nat
  logicalLines : Nat
  commentPercent : α

def radians (degrees : α) : α := degrees * (Analytic.pi / 180.0)

/-- A number drawn into the range from 0 to 100; what compares with nothing stays as it is. -/
def clampPercent (value : α) : α :=
  if value < 0.0 then 0.0 else if 100.0 < value then 100.0 else value

def rawIndex (inputs : IndexInputs α) : α :=
  171.0 - 5.2 * Analytic.ln inputs.volume - 0.23 * ofCount inputs.complexity -
      16.2 * Analytic.ln (ofCount inputs.logicalLines) +
    50.0 * Analytic.sin (Analytic.sqrt (2.46 * radians inputs.commentPercent))

/-- The maintainability index.  Code without operators or without logical lines scores 100. -/
def maintainabilityIndex (inputs : IndexInputs α) : α :=
  if inputs.volume ≤ 0.0 ∨ inputs.logicalLines = 0 then 100.0
  else clampPercent (rawIndex inputs * 100.0 / 171.0)

/-- Everything that is counted in a source text. -/
structure Profile where
  tally : Tally
  halstead : Halstead
  lines : LineCount

def profile (text : List Char) (root : Node) : Profile :=
  ⟨surveyModule text root, halstead text root, countLines text root⟩

namespace Profile

/-- The lines that count as comments: lines with a comment, and also the lines of string statements
if they are counted as comments. -/
def commentLines (profile : Profile) (withStrings : Bool) : Nat :=
  profile.lines.comments + if withStrings then profile.lines.multi else 0

/-- The comment lines in percent of the source lines, and 0 where there is no source line. -/
def commentPercent (profile : Profile) (withStrings : Bool) : α :=
  if profile.lines.source = 0 then 0.0
  else ofCount (profile.commentLines withStrings) / ofCount profile.lines.source * 100.0

def indexInputs (profile : Profile) (withStrings : Bool) : IndexInputs α :=
  ⟨profile.halstead.volume, profile.tally.totalComplexity, profile.lines.logical,
    profile.commentPercent withStrings⟩

def maintainability (profile : Profile) (withStrings : Bool) : α :=
  maintainabilityIndex (profile.indexInputs withStrings)

end Profile

/-- The three questions about a source text, answered or failed with an error of type `ε`. -/
structure Analyzer (ε : Type) where
  blocks : List Char → Except ε (List Block)
  maintainability : Bool → List Char → Except ε Float
  lines : List Char → Except ε LineCount

/-- The mean complexity of some blocks, and zero where there is none. -/
def meanComplexity (blocks : List Block) : Float :=
  if blocks.isEmpty then 0
  else blocks.foldl (fun sum block => sum + ofCount block.complexity) 0 / ofCount blocks.length

namespace Analyzer

variable {ε : Type}

/-- The figures of a text, or the first error in the order blocks, maintainability, lines. -/
def measure (analyzer : Analyzer ε) (text : List Char) : Except ε (Figures Float) := do
  let blocks ← analyzer.blocks text
  let index ← analyzer.maintainability true text
  let lines ← analyzer.lines text
  return ⟨meanComplexity blocks, index, lines.total⟩

/-- The figures of a text; those of no code where an answer fails. -/
def figures (analyzer : Analyzer ε) (text : List Char) : Figures Float :=
  match analyzer.measure text with
  | .ok figures => figures
  | .error _ => .zero

end Analyzer

def parse (text : List Char) : Except SyntaxError Node := (read text).accept

def pythonAnalyzer : Analyzer SyntaxError where
  blocks text := (parse text).map fun root => (surveyModule text root).blocks
  maintainability withStrings text :=
    (parse text).map fun root => (profile text root).maintainability withStrings
  lines text := (parse text).map (countLines text)

end CodeGauge.Measurement
