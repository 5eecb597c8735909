import CodeGauge.Text.Basic

/-!
# Concrete syntax trees

A node has a label and a list of children in source order; comments and punctuation are children
like any other.  The file gives the tree's views: its nodes in preorder, the child that stands
under a field name, the text that a node spans, and the first broken node.
-/

namespace CodeGauge.Syntax

/-- A position in a source text: byte offset, row and column, all counted from zero. -/
structure Place where
  byte : Nat
  row : Nat
  /-- Bytes since the last line feed. -/
  column : Nat
  deriving Repr, DecidableEq

namespace Place

def zero : Place := ⟨0, 0, 0⟩

def step (place : Place) (c : Char) : Place :=
  if c = '\n' then ⟨place.byte + 1, place.row + 1, 0⟩
  else ⟨place.byte + c.utf8Size, place.row, place.column + c.utf8Size⟩

def after (place : Place) (text : List Char) : Place :=
  text.foldl step place

@[simp]
theorem after_nil (place : Place) : place.after [] = place := rfl

theorem after_append (place : Place) (first second : List Char) :
    place.after (first ++ second) = (place.after first).after second :=
  List.foldl_append

end Place

/-- What a node carries besides its children. -/
structure Label where
  kind : String
  named : Bool
  isError : Bool
  /-- Whether the node was put in where the grammar asks for a token that is not there. -/
  isMissing : Bool
  /-- Whether the node is flagged as broken itself or through a node below it. -/
  hasError : Bool
  field : Option String
  start : Place
  stopByte : Nat
  stopRow : Nat
  deriving Repr, DecidableEq

/-- A concrete syntax tree. -/
inductive Node where
  | mk (label : Label) (children : List Node)
  deriving Repr

namespace Node

def label : Node → Label
  | mk label _ => label

def children : Node → List Node
  | mk _ children => children

def kind (node : Node) : String := node.label.kind

@[simp]
theorem label_mk (label : Label) (children : List Node) : (mk label children).label = label := rfl

@[simp]
theorem children_mk (label : Label) (children : List Node) :
    (mk label children).children = children := rfl

@[simp]
theorem kind_mk (label : Label) (children : List Node) : (mk label children).kind = label.kind :=
  rfl

def isBroken (node : Node) : Bool := node.label.isError || node.label.isMissing

def line (node : Node) : Nat := node.label.start.row + 1

/-- The first child that stands under a field name. -/
def child? (node : Node) (name : String) : Option Node :=
  node.children.find? fun child => child.label.field == some name

/-- The text that a node spans, if its ends fall between two characters of the source. -/
def text? (source : List Char) (node : Node) : Option String :=
  (Text.slice source node.label.start.byte node.label.stopByte).map String.ofList

mutual

/-- A node and all nodes below it, parents before children and children in source order. -/
def preorder : Node → List Node
  | mk label children => mk label children :: preorderAll children

def preorderAll : List Node → List Node
  | [] => []
  | node :: others => node.preorder ++ preorderAll others

end

theorem preorder_eq (node : Node) : node.preorder = node :: preorderAll node.children := by
  cases node; rfl

theorem mem_preorder_self (node : Node) : node ∈ node.preorder := by
  simp [preorder_eq]

mutual

/-- The first error node or missing token of a tree, looking only below children that are flagged
as broken. -/
def firstBroken? : Node → Option Node
  | mk label children =>
    if (mk label children).isBroken then some (mk label children) else firstBrokenIn? children

def firstBrokenIn? : List Node → Option Node
  | [] => none
  | node :: others =>
    if node.label.hasError || node.label.isMissing then
      (node.firstBroken?).or (firstBrokenIn? others)
    else firstBrokenIn? others

end

end Node

/-- A source text that does not parse: the place of the first broken node, its line counted from
one and its column in bytes from zero. -/
structure SyntaxError where
  line : Nat
  column : Nat
  deriving Repr, DecidableEq

def SyntaxError.message (error : SyntaxError) : String :=
  "invalid syntax at line " ++ toString error.line ++ ", column " ++ toString error.column

/-- Accepts a tree without broken nodes, and otherwise names the place of the first one. -/
def Node.accept (root : Node) : Except SyntaxError Node :=
  if root.label.hasError then
    let broken := root.firstBroken?.getD root
    .error ⟨broken.line, broken.label.start.column⟩
  else .ok root

end CodeGauge.Syntax
