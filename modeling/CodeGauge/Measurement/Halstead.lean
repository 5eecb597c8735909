import CodeGauge.Syntax.Node

/-!
# Halstead's counts

Operators and operands are counted where an expression joins operands by operators; an operand is
the whole text of a subexpression, and its own operators count again below it.  One walk over the
tree keeps the different texts and the numbers of their occurrences: the length is the number of all
occurrences, the vocabulary that of the different texts.
-/

namespace CodeGauge.Measurement

open Syntax

/-- Texts that have occurred, each held once, and the number of all their occurrences. -/
structure Occurrences where
  texts : List String
  nodup : texts.Nodup
  count : Nat
  deriving Repr, DecidableEq

namespace Occurrences

def none : Occurrences := ⟨[], List.nodup_nil, 0⟩

def add (occurrences : Occurrences) (text : String) : Occurrences :=
  if held : text ∈ occurrences.texts then { occurrences with count := occurrences.count + 1 }
  else
    ⟨text :: occurrences.texts, List.nodup_cons.mpr ⟨held, occurrences.nodup⟩,
      occurrences.count + 1⟩

def addAll (occurrences : Occurrences) (texts : List String) : Occurrences :=
  texts.foldl add occurrences

end Occurrences

/-- The operators and operands of some code. -/
structure Halstead where
  operators : Occurrences
  operands : Occurrences
  deriving Repr, DecidableEq

namespace Halstead

def vocabulary (counts : Halstead) : Nat :=
  counts.operators.texts.length + counts.operands.texts.length

def length (counts : Halstead) : Nat := counts.operators.count + counts.operands.count

end Halstead

/-- Kinds of nodes with an operator between two operands. -/
def infixKinds : List String := ["binary_operator", "boolean_operator", "augmented_assignment"]

def fieldTexts (source : List Char) (node : Node) (names : List String) : List String :=
  names.filterMap fun name => (node.child? name).bind (Node.text? source)

/-- The operators that a node itself applies. -/
def ownOperators (source : List Char) (node : Node) : List String :=
  if infixKinds.contains node.kind || node.kind == "unary_operator" then
    fieldTexts source node ["operator"]
  else if node.kind == "not_operator" then ["not"]
  else if node.kind == "comparison_operator" then
    (node.children.filter fun child => !child.label.named).filterMap (Node.text? source)
  else []

/-- The operands to which a node itself applies its operators. -/
def ownOperands (source : List Char) (node : Node) : List String :=
  if infixKinds.contains node.kind then fieldTexts source node ["left", "right"]
  else if node.kind == "unary_operator" || node.kind == "not_operator" then
    fieldTexts source node ["argument"]
  else if node.kind == "comparison_operator" then
    (node.children.filter fun child => child.label.named && child.kind != "comment").filterMap
      (Node.text? source)
  else []

namespace Halstead

def meet (source : List Char) (counts : Halstead) (node : Node) : Halstead :=
  ⟨counts.operators.addAll (ownOperators source node),
    counts.operands.addAll (ownOperands source node)⟩

mutual

/-- Counts the operators and operands of a node and of all nodes below it. -/
def visit (source : List Char) (counts : Halstead) : Node → Halstead
  | .mk label children => (counts.meet source (.mk label children)).visitAll source children

def visitAll (source : List Char) (counts : Halstead) : List Node → Halstead
  | [] => counts
  | node :: others => (counts.visit source node).visitAll source others

end

end Halstead

def halstead (source : List Char) (root : Node) : Halstead :=
  Halstead.visit source ⟨.none, .none⟩ root

end CodeGauge.Measurement
