import CodeGauge.Measurement.Complexity

/-!
# Surveys with limited numbers

Complexities are counted in words of a machine, which hold the numbers below some limit.  Here a
survey is made as it is counted: with a running tally, to which one tree after the other is added,
and with a fresh one for each part of a body.  It comes to an end only if every sum on the way stays
below the limit, every number of things is below it, and no division is by zero.
-/

namespace CodeGauge.Measurement

open Syntax

/-- A sum, if it is below the limit. -/
def addWithin? (limit first second : Nat) : Option Nat :=
  if first + second < limit then some (first + second) else none

/-- The sum of some counts, added up one after the other, if every sum on the way is below the
limit. -/
def sumWithin? (limit : Nat) (counts : List Nat) : Option Nat := counts.foldlM (addWithin? limit) 0

def countWithin? (limit count : Nat) : Option Nat := if count < limit then some count else none

/-- A quotient rounded down, unless the divisor is zero. -/
def quotient? (dividend divisor : Nat) : Option Nat :=
  if divisor = 0 then none else some (dividend / divisor)

def decisionPointsWithin? (limit : Nat) (node : Node) : Option Nat :=
  if branchKinds.contains node.kind then some 1
  else if node.kind == "for_statement" || node.kind == "while_statement" then
    addWithin? limit 1 (if (node.child? "alternative").isSome then 1 else 0)
  else if node.kind == "try_statement" then
    countWithin? limit (node.children.countP fun child => handlerKinds.contains child.kind)
  else some 0

def functionWithin? (limit : Nat) (parts : List Tally) : Option Nat := do
  let points ← sumWithin? limit (parts.map Tally.points)
  addWithin? limit 1 points

def addPartWithin? (limit whole : Nat) (part : Tally) : Option Nat := do
  let methods ← sumWithin? limit (part.functions.map FunctionScore.complexity)
  let more ← addWithin? limit part.points methods
  addWithin? limit whole more

/-- A running tally with one more function, given the parts of its body. -/
def addFunctionWithin? (limit : Nat) (tally : Tally) (name : String) (line : Nat)
    (parts : List Tally) : Option Tally := do
  let complexity ← functionWithin? limit parts
  return { tally with functions := tally.functions ++ [⟨name, line, complexity⟩] }

def addClassWithin? (limit : Nat) (tally : Tally) (name : String) (line : Nat)
    (parts : List Tally) : Option Tally := do
  let whole ← parts.foldlM (addPartWithin? limit) 1
  return { tally with
    classes := tally.classes ++ [⟨name, line, parts.flatMap Tally.functions, whole⟩] }

def addPointsWithin? (limit : Nat) (tally : Tally) (node : Node) : Option Tally := do
  let more ← decisionPointsWithin? limit node
  let points ← addWithin? limit tally.points more
  return { tally with points := points }

mutual

/-- A running tally with one more tree. -/
def visitWithin? (limit : Nat) (source : List Char) (tally : Tally) : Node → Option Tally
  | .mk label children =>
    if label.kind == "function_definition" then
      (visitBodyWithin? limit source children).bind
        (addFunctionWithin? limit tally (definitionName source (.mk label children))
          (label.start.row + 1))
    else if label.kind == "class_definition" then
      (visitBodyWithin? limit source children).bind
        (addClassWithin? limit tally (definitionName source (.mk label children))
          (label.start.row + 1))
    else
      (addPointsWithin? limit tally (.mk label children)).bind fun tally =>
        visitAllWithin? limit source tally children

def visitAllWithin? (limit : Nat) (source : List Char) (tally : Tally) :
    List Node → Option Tally
  | [] => some tally
  | node :: others =>
    (visitWithin? limit source tally node).bind fun tally =>
      visitAllWithin? limit source tally others

/-- The tallies of some trees, each begun afresh. -/
def visitEachWithin? (limit : Nat) (source : List Char) : List Node → Option (List Tally)
  | [] => some []
  | node :: others =>
    (visitWithin? limit source .nothing node).bind fun first =>
      (visitEachWithin? limit source others).map (first :: ·)

def visitBodyWithin? (limit : Nat) (source : List Char) : List Node → Option (List Tally)
  | [] => some []
  | .mk label children :: others =>
    if label.field == some "body" then visitEachWithin? limit source children
    else visitBodyWithin? limit source others

end

/-- The tally of a module, whose points begin at one. -/
def moduleWithin? (limit : Nat) (source : List Char) (root : Node) : Option Tally :=
  visitAllWithin? limit source ⟨1, [], []⟩ root.children

def totalWithin? (limit : Nat) (tally : Tally) : Option Nat := do
  let functions ← sumWithin? limit (tally.functions.map FunctionScore.complexity)
  let classes ← sumWithin? limit (tally.classes.map ClassScore.whole)
  let both ← addWithin? limit tally.points functions
  addWithin? limit both classes

def classWithin? (limit : Nat) (score : ClassScore) : Option Nat :=
  if score.methods.isEmpty then some score.whole
  else do
    let count ← countWithin? limit score.methods.length
    let mean ← quotient? score.whole count
    addWithin? limit mean (if 1 < count then 1 else 0)

def classBlocksWithin? (limit : Nat) (score : ClassScore) : Option (List Block) := do
  let complexity ← classWithin? limit score
  return ⟨.classDefinition, score.name, score.line, complexity⟩ ::
    score.methods.map (FunctionScore.block .method)

/-- The complexity of a module and its blocks. -/
def reportWithin? (limit : Nat) (source : List Char) (root : Node) :
    Option (Nat × List Block) := do
  let tally ← moduleWithin? limit source root
  let whole ← totalWithin? limit tally
  let blocks ← tally.classes.mapM (classBlocksWithin? limit)
  return (whole, tally.functions.map (FunctionScore.block .function) ++ blocks.flatten)

end CodeGauge.Measurement
