import CodeGauge.Measurement.Figures
import CodeGauge.Syntax.Node

/-!
# Cyclomatic complexity

Every branch of a program is a decision point, and a stretch of code is as complex as one plus its
decision points.  A survey of a tree counts the points outside functions and classes and scores
each outermost definition by a survey of its body.  A function passes on its own points only, so
closures weigh nothing; a class passes on its points together with its methods.
-/

namespace CodeGauge.Measurement

open Syntax

/-- What kind of definition a block of code is. -/
inductive BlockKind where
  | function
  | method
  | classDefinition
  deriving Repr, DecidableEq

/-- A definition with its complexity as it is reported. -/
structure Block where
  kind : BlockKind
  name : String
  line : Nat
  complexity : Nat
  deriving Repr, DecidableEq

/-- A scored function. -/
structure FunctionScore where
  name : String
  line : Nat
  complexity : Nat
  deriving Repr, DecidableEq

def FunctionScore.block (kind : BlockKind) (score : FunctionScore) : Block :=
  ⟨kind, score.name, score.line, score.complexity⟩

def functionsComplexity (scores : List FunctionScore) : Nat :=
  total (scores.map FunctionScore.complexity)

/-- A scored class. -/
structure ClassScore where
  name : String
  line : Nat
  methods : List FunctionScore
  whole : Nat
  deriving Repr, DecidableEq

/-- The reported complexity of a class: the mean over its methods, rounded down, and one more where
there are several methods; a class without methods reports its whole complexity. -/
def ClassScore.complexity (score : ClassScore) : Nat :=
  if score.methods.isEmpty then score.whole
  else score.whole / score.methods.length + if 1 < score.methods.length then 1 else 0

/-- The block of a class followed by the blocks of its methods. -/
def ClassScore.blocks (score : ClassScore) : List Block :=
  ⟨.classDefinition, score.name, score.line, score.complexity⟩ ::
    score.methods.map (FunctionScore.block .method)

/-- What a survey finds in some code. -/
structure Tally where
  points : Nat
  functions : List FunctionScore
  classes : List ClassScore
  deriving Repr, DecidableEq

namespace Tally

def nothing : Tally := ⟨0, [], []⟩

def append (first second : Tally) : Tally :=
  ⟨first.points + second.points, first.functions ++ second.functions,
    first.classes ++ second.classes⟩

instance instAppend : Append Tally := ⟨append⟩

@[simp]
theorem points_append (first second : Tally) :
    (first ++ second).points = first.points + second.points := rfl

@[simp]
theorem functions_append (first second : Tally) :
    (first ++ second).functions = first.functions ++ second.functions := rfl

@[simp]
theorem classes_append (first second : Tally) :
    (first ++ second).classes = first.classes ++ second.classes := rfl

/-- The tally of a function whose body has a given tally. -/
def ofFunction (name : String) (line : Nat) (body : Tally) : Tally :=
  ⟨0, [⟨name, line, 1 + body.points⟩], []⟩

/-- The tally of a class whose body has a given tally. -/
def ofClass (name : String) (line : Nat) (body : Tally) : Tally :=
  ⟨0, [], [⟨name, line, body.functions, 1 + body.points + functionsComplexity body.functions⟩]⟩

def totalComplexity (tally : Tally) : Nat :=
  1 + tally.points + functionsComplexity tally.functions +
    total (tally.classes.map ClassScore.whole)

/-- The blocks of a module: the functions first, then each class with its methods. -/
def blocks (tally : Tally) : List Block :=
  tally.functions.map (FunctionScore.block .function) ++ tally.classes.flatMap ClassScore.blocks

end Tally

def branchKinds : List String :=
  ["if_statement", "elif_clause", "conditional_expression", "boolean_operator", "for_in_clause",
    "if_clause", "assert_statement", "case_clause"]

def handlerKinds : List String := ["except_clause", "except_group_clause", "else_clause"]

/-- The decision points of a node itself.  A loop counts twice when it has an else branch, and a
try statement once for each handler and for its else branch. -/
def decisionPoints (node : Node) : Nat :=
  if branchKinds.contains node.kind then 1
  else if node.kind == "for_statement" || node.kind == "while_statement" then
    1 + if (node.child? "alternative").isSome then 1 else 0
  else if node.kind == "try_statement" then
    node.children.countP fun child => handlerKinds.contains child.kind
  else 0

/-- The name under which a definition is reported. -/
def definitionName (source : List Char) (node : Node) : String :=
  ((node.child? "name").bind (Node.text? source)).getD "<anonymous>"

mutual

def survey (source : List Char) : Node → Tally
  | .mk label children =>
    if label.kind == "function_definition" then
      .ofFunction (definitionName source (.mk label children)) (label.start.row + 1)
        (surveyBody source children)
    else if label.kind == "class_definition" then
      .ofClass (definitionName source (.mk label children)) (label.start.row + 1)
        (surveyBody source children)
    else ⟨decisionPoints (.mk label children), [], []⟩ ++ surveyAll source children

def surveyAll (source : List Char) : List Node → Tally
  | [] => .nothing
  | node :: others => survey source node ++ surveyAll source others

/-- The survey of what stands below the body among the children of a definition. -/
def surveyBody (source : List Char) : List Node → Tally
  | [] => .nothing
  | .mk label children :: others =>
    if label.field == some "body" then surveyAll source children else surveyBody source others

end

theorem surveyBody_eq (source : List Char) (label : Label) (children : List Node) :
    surveyBody source children =
      match (Node.mk label children).child? "body" with
      | some body => surveyAll source body.children
      | none => .nothing := by
  unfold Node.child?
  induction children with
  | nil => simp [surveyBody]
  | cons node others ih =>
    obtain ⟨own, below⟩ := node
    by_cases isBody : own.field = some "body" <;> simp_all [surveyBody]

/-- The survey of a whole module, whose root is no definition. -/
def surveyModule (source : List Char) (root : Node) : Tally :=
  surveyAll source root.children

end CodeGauge.Measurement
