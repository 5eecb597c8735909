import CodeGauge.Syntax.Node
import CodeGauge.Text.Basic

/-!
# Line counts

Lines are counted in two passes.  A scan of the tree notes the rows on which comments begin and the
rows that string statements span, and counts the logical lines.  Then each physical line of the text
is put into one class: spanned by a string that is a statement of its own, or else blank, or else
nothing but a comment, or else source.  What is left of all lines after the first three classes are
the lines of source.
-/

namespace CodeGauge.Measurement

open Syntax Text

/-- Rows of a text, each held once. -/
structure RowSet where
  rows : List Nat
  nodup : rows.Nodup
  deriving Repr, DecidableEq

namespace RowSet

def empty : RowSet := ⟨[], List.nodup_nil⟩

def contains (set : RowSet) (row : Nat) : Bool := set.rows.contains row

def size (set : RowSet) : Nat := set.rows.length

def insert (set : RowSet) (row : Nat) : RowSet :=
  if held : row ∈ set.rows then set
  else ⟨row :: set.rows, List.nodup_cons.mpr ⟨held, set.nodup⟩⟩

def insertSpan (set : RowSet) (first last : Nat) : RowSet :=
  (List.range' first (last + 1 - first)).foldl insert set

end RowSet

/-- Kinds of definitions and clauses that count as logical lines beside the statements. -/
def clauseKinds : List String :=
  ["function_definition", "class_definition", "elif_clause", "else_clause", "except_clause",
    "except_group_clause", "finally_clause", "case_clause"]

def isLogical (node : Node) : Bool :=
  ("_statement".toList.isSuffixOf node.kind.toList && node.label.named) ||
    clauseKinds.contains node.kind

def isComment (node : Node) : Bool := node.kind == "comment"

/-- Whether a node is a statement that consists of strings alone. -/
def isStringStatement (node : Node) : Bool :=
  node.kind == "expression_statement" &&
    match node.children.filter fun child => child.label.named with
    | [only] => only.kind == "string" || only.kind == "concatenated_string"
    | _ => false

/-- What a scan of a tree has noted. -/
structure LineScan where
  commentRows : RowSet
  stringRows : RowSet
  logical : Nat
  deriving Repr, DecidableEq

namespace LineScan

def start : LineScan := ⟨.empty, .empty, 0⟩

/-- Notes a comment, or else whether a node is a string statement and whether it is a logical
line. -/
def meet (scan : LineScan) (node : Node) : LineScan :=
  if isComment node then
    { scan with commentRows := scan.commentRows.insert node.label.start.row }
  else
    { scan with
      stringRows :=
        if isStringStatement node then
          scan.stringRows.insertSpan node.label.start.row node.label.stopRow
        else scan.stringRows
      logical := if isLogical node then scan.logical + 1 else scan.logical }

mutual

/-- Scans a tree from its root on; what is below a comment is passed over. -/
def visit (scan : LineScan) : Node → LineScan
  | .mk label children =>
    if label.kind == "comment" then scan.meet (.mk label children)
    else (scan.meet (.mk label children)).visitAll children

def visitAll (scan : LineScan) : List Node → LineScan
  | [] => scan
  | node :: others => (scan.visit node).visitAll others

end

end LineScan

/-- The class of a physical line. -/
inductive LineClass where
  | multi
  | blank
  | comment
  | source
  deriving Repr, DecidableEq

/-- The class of a line of a given row and text, among the rows that string statements span. -/
def lineClass (stringRows : RowSet) (row : Nat) (line : List Char) : LineClass :=
  if stringRows.contains row then .multi
  else
    match trim line with
    | [] => .blank
    | first :: _ => if first = '#' then .comment else .source

/-- The lines counted so far: all of them, and those of three classes. -/
structure LineTally where
  total : Nat
  multi : Nat
  blank : Nat
  onlyComment : Nat
  deriving Repr, DecidableEq

namespace LineTally

def start : LineTally := ⟨0, 0, 0, 0⟩

def add (tally : LineTally) : LineClass → LineTally
  | .multi => { tally with total := tally.total + 1, multi := tally.multi + 1 }
  | .blank => { tally with total := tally.total + 1, blank := tally.blank + 1 }
  | .comment => { tally with total := tally.total + 1, onlyComment := tally.onlyComment + 1 }
  | .source => { tally with total := tally.total + 1 }

def ofText (stringRows : RowSet) (text : List Char) : LineTally :=
  (lines text).zipIdx.foldl (fun tally (line, row) => tally.add (lineClass stringRows row line))
    start

end LineTally

/-- The line counts of a source text. -/
structure LineCount where
  total : Nat
  logical : Nat
  source : Nat
  /-- Lines on which a comment begins, whatever stands before it. -/
  comments : Nat
  onlyComment : Nat
  multi : Nat
  blank : Nat
  deriving Repr, DecidableEq

def countLines (text : List Char) (root : Node) : LineCount :=
  let scan := LineScan.start.visit root
  let tally := LineTally.ofText scan.stringRows text
  { total := tally.total
    logical := scan.logical
    source := tally.total - tally.blank - tally.multi - tally.onlyComment
    comments := scan.commentRows.size
    onlyComment := tally.onlyComment
    multi := tally.multi
    blank := tally.blank }

end CodeGauge.Measurement
