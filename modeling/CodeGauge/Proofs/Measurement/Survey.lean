import CodeGauge.Measurement.Complexity
import CodeGauge.Proofs.Syntax.Address

/-!
# Surveys as sums over sites

A site below a node is exposed if no definition stands strictly between the two.  The survey of a
tree puts together what each exposed site counts for, whatever stands around it
(`surveyAll_children_eq`): its own decision points, or one function, or one class.
-/

namespace CodeGauge

open Syntax

namespace Syntax.Node

def isFunction (node : Node) : Bool := node.kind == "function_definition"

def isClass (node : Node) : Bool := node.kind == "class_definition"

def isDefinition (node : Node) : Bool := node.isFunction || node.isClass

/-- No definition stands strictly between a node and an address below it. -/
def IsClear (node : Node) (address : List Nat) : Prop :=
  ∀ depth < address.length, 0 < depth →
    (node.at? (address.take depth)).any isDefinition = false

instance instDecidableIsClear (node : Node) (address : List Nat) :
    Decidable (node.IsClear address) :=
  inferInstanceAs (Decidable (∀ depth < _, _))

/-- The sites below a node with no definition strictly between, in preorder. -/
def exposed (node : Node) : List Site :=
  node.sites.filter fun site => node.IsClear site.address

theorem isClear_singleton (node : Node) (place : Nat) : node.IsClear [place] := by
  intro depth shorter positive
  rw [List.length_singleton] at shorter
  omega

theorem isClear_cons_iff {node child : Node} {place : Nat}
    (at_place : node.children[place]? = some child) {address : List Nat} (deeper : address ≠ []) :
    node.IsClear (place :: address) ↔ child.isDefinition = false ∧ child.IsClear address := by
  have below (depth : Nat) :
      node.at? ((place :: address).take (depth + 1)) = child.at? (address.take depth) := by
    rw [List.take_succ_cons, at?_cons, at_place, Option.bind_some]
  have length_pos := List.length_pos_iff.mpr deeper
  constructor
  · intro clear
    refine ⟨?_, fun depth shorter _ => ?_⟩
    · simpa [at_place] using clear 1 (by simpa using length_pos) Nat.one_pos
    · simpa only [below] using clear (depth + 1) (by simpa using shorter) depth.succ_pos
  · rintro ⟨plain, clear⟩ depth shorter positive
    obtain ⟨depth, rfl⟩ := Nat.exists_eq_succ_of_ne_zero positive.ne'
    rw [below]
    cases depth with
    | zero => simpa using plain
    | succ depth => exact clear (depth + 1) (by simpa using shorter) depth.succ_pos

def exposedAt (child : Node × Nat) : List Site :=
  ⟨[child.2], child.1⟩ ::
    if child.1.isDefinition then [] else child.1.exposed.map (Site.under child.2)

/-- What is below a definition is not exposed, and all else is as far as it is below the child. -/
theorem exposed_eq (node : Node) : node.exposed = node.children.zipIdx.flatMap exposedAt := by
  rw [exposed, sites_eq, List.filter_flatMap]
  refine List.flatMap_congr fun child mem => ?_
  have at_place := (mem_zipIdx_children mem).2
  have clear_under : ∀ site ∈ child.1.sites,
      ((fun site => decide (node.IsClear site.address)) ∘ Site.under child.2) site =
        (!child.1.isDefinition && decide (child.1.IsClear site.address)) := by
    intro site site_mem
    have deeper := (mem_sites_iff.mp site_mem).1
    rw [Bool.eq_iff_iff, Function.comp_apply, decide_eq_true_iff, Site.address_under,
      isClear_cons_iff at_place deeper]
    simp
  rw [childSites, List.filter_cons_of_pos (by simpa using isClear_singleton node child.2),
    List.filter_map, List.filter_congr clear_under, exposedAt]
  cases child.1.isDefinition <;> simp [exposed]

end Syntax.Node

namespace Measurement

def Tally.concat (tallies : List Tally) : Tally :=
  ⟨total (tallies.map Tally.points), tallies.flatMap Tally.functions,
    tallies.flatMap Tally.classes⟩

@[simp]
theorem Tally.points_concat (tallies : List Tally) :
    (concat tallies).points = total (tallies.map Tally.points) := rfl

@[simp]
theorem Tally.functions_concat (tallies : List Tally) :
    (concat tallies).functions = tallies.flatMap Tally.functions := rfl

@[simp]
theorem Tally.classes_concat (tallies : List Tally) :
    (concat tallies).classes = tallies.flatMap Tally.classes := rfl

theorem Tally.ext {first second : Tally} (points : first.points = second.points)
    (functions : first.functions = second.functions)
    (classes : first.classes = second.classes) : first = second := by
  cases first
  cases second
  simp_all

theorem Tally.concat_cons (tally : Tally) (tallies : List Tally) :
    concat (tally :: tallies) = tally ++ concat tallies := rfl

theorem Tally.append_nothing (tally : Tally) : tally ++ nothing = tally :=
  Tally.ext rfl (List.append_nil _) (List.append_nil _)

theorem Tally.nothing_append (tally : Tally) : nothing ++ tally = tally :=
  Tally.ext (Nat.zero_add _) rfl rfl

theorem Tally.append_assoc (first second third : Tally) :
    first ++ second ++ third = first ++ (second ++ third) :=
  Tally.ext (Nat.add_assoc _ _ _) (List.append_assoc _ _ _) (List.append_assoc _ _ _)

theorem Tally.concat_flatMap {β : Type} (items : List β) (tallies : β → List Tally) :
    concat (items.flatMap tallies) = concat (items.map fun item => concat (tallies item)) :=
  Tally.ext (by simp [List.map_flatMap, total_flatMap, Function.comp_def])
    (by simp [List.flatMap_assoc, List.flatMap_map])
    (by simp [List.flatMap_assoc, List.flatMap_map])

theorem surveyAll_eq_concat (source : List Char) (nodes : List Node) :
    surveyAll source nodes = .concat (nodes.map (survey source)) := by
  induction nodes with
  | nil => rfl
  | cons node others ih => rw [surveyAll, ih, List.map_cons, Tally.concat_cons]

def bodyTally (source : List Char) (node : Node) : Tally :=
  match node.child? "body" with
  | some body => surveyAll source body.children
  | none => .nothing

/-- What a node counts for itself: a definition as a function or a class, another node with its
decision points. -/
def ownTally (source : List Char) (node : Node) : Tally :=
  if node.isFunction then
    .ofFunction (definitionName source node) node.line (bodyTally source node)
  else if node.isClass then
    .ofClass (definitionName source node) node.line (bodyTally source node)
  else ⟨decisionPoints node, [], []⟩

theorem surveyBody_children (source : List Char) (node : Node) :
    surveyBody source node.children = bodyTally source node := by
  obtain ⟨label, children⟩ := node
  exact surveyBody_eq source label children

theorem survey_eq (source : List Char) (node : Node) :
    survey source node = ownTally source node ++
      if node.isDefinition then .nothing else surveyAll source node.children := by
  obtain ⟨label, children⟩ := node
  have body : surveyBody source children = bodyTally source (.mk label children) :=
    surveyBody_children source (.mk label children)
  rw [survey]
  by_cases function : label.kind = "function_definition"
  · simp [ownTally, Node.isFunction, Node.isDefinition, function, body, Node.line,
      Tally.append_nothing]
  · by_cases classes : label.kind = "class_definition"
    · simp [ownTally, Node.isFunction, Node.isClass, Node.isDefinition, classes, body,
        Node.line, Tally.append_nothing]
    · simp [ownTally, Node.isFunction, Node.isClass, Node.isDefinition, function, classes]

/-- The survey of the children of a node puts together what the exposed sites below it count for
themselves. -/
theorem surveyAll_children_eq (source : List Char) (node : Node) :
    surveyAll source node.children =
      .concat (node.exposed.map fun site => ownTally source site.node) := by
  induction node using Node.induction with
  | step node ih =>
      have child_tally : ∀ child ∈ node.children.zipIdx, survey source child.1 =
          .concat ((Node.exposedAt child).map fun site => ownTally source site.node) := by
        intro child mem
        rw [survey_eq, ih child.1 (Node.mem_zipIdx_children mem).1, Node.exposedAt, List.map_cons,
          Tally.concat_cons]
        -- a definition keeps what is below it to itself, and any other node passes it on
        cases child.1.isDefinition with
        | true => rfl
        | false => simp [Function.comp_def]
      have children_eq : node.children.map (survey source) =
          node.children.zipIdx.map fun child => survey source child.1 := by
        conv_lhs => rw [← List.zipIdx_map_fst 0 node.children, List.map_map]
        rfl
      rw [surveyAll_eq_concat, children_eq, List.map_congr_left child_tally, Node.exposed_eq,
        List.map_flatMap, Tally.concat_flatMap]

end Measurement

namespace Syntax.Node

/-- The functions below a node that no other definition holds, in preorder. -/
def functions (node : Node) : List Site := node.exposed.filter fun site => site.node.isFunction

def classes (node : Node) : List Site := node.exposed.filter fun site => site.node.isClass

/-- The decision points of all nodes below a node that are not at or below a definition. -/
def ownPoints (node : Node) : Nat :=
  Measurement.total
    ((node.exposed.filter fun site => !site.node.isDefinition).map fun site =>
      Measurement.decisionPoints site.node)

def bodyPoints (definition : Node) : Nat := (definition.child? "body").elim 0 ownPoints

/-- The functions below the body of a class that no other definition of the body holds. -/
def methods (definition : Node) : List Site := (definition.child? "body").elim [] functions

def functionComplexity (definition : Node) : Nat := 1 + definition.bodyPoints

def classComplexity (definition : Node) : Nat :=
  1 + definition.bodyPoints +
    Measurement.total (definition.methods.map fun site => site.node.functionComplexity)

/-- The rounded mean of a class over its methods, and one more where there are several; the whole
complexity where there is none. -/
def reportedComplexity (definition : Node) : Nat :=
  if definition.methods.length = 0 then definition.classComplexity
  else definition.classComplexity / definition.methods.length +
    if 1 < definition.methods.length then 1 else 0

theorem isClass_eq_false_of_isFunction {node : Node} (function : node.isFunction = true) :
    node.isClass = false := by
  have kind : node.kind = "function_definition" := by simpa [isFunction] using function
  simp [isClass, kind]

end Syntax.Node

namespace Measurement

def functionScore (source : List Char) (node : Node) : FunctionScore :=
  ⟨definitionName source node, node.line, node.functionComplexity⟩

def classScore (source : List Char) (node : Node) : ClassScore :=
  ⟨definitionName source node, node.line,
    node.methods.map fun site => functionScore source site.node, node.classComplexity⟩

theorem flatMap_ite {β γ : Type} (items : List β) (test : β → Bool) (image : β → γ) :
    (items.flatMap fun item => if test item then [image item] else []) =
      (items.filter test).map image := by
  induction items with
  | nil => rfl
  | cons item items ih => cases accepted : test item <;> simp [accepted, ih]

theorem points_ownTally (source : List Char) (node : Node) :
    (ownTally source node).points = if !node.isDefinition then decisionPoints node else 0 := by
  cases function : node.isFunction <;> cases classes : node.isClass <;>
    simp [ownTally, Node.isDefinition, function, classes, Tally.ofFunction, Tally.ofClass]

theorem points_surveyAll (source : List Char) (node : Node) :
    (surveyAll source node.children).points = node.ownPoints := by
  rw [surveyAll_children_eq, Tally.points_concat, List.map_map, Node.ownPoints, ← total_map_ite]
  simp only [Function.comp_def, points_ownTally]

theorem points_bodyTally (source : List Char) (node : Node) :
    (bodyTally source node).points = node.bodyPoints := by
  unfold bodyTally Node.bodyPoints
  cases node.child? "body" with
  | none => rfl
  | some body => exact points_surveyAll source body

theorem functions_ownTally (source : List Char) (node : Node) :
    (ownTally source node).functions =
      if node.isFunction then [functionScore source node] else [] := by
  cases function : node.isFunction <;> cases classes : node.isClass <;>
    simp [ownTally, function, classes, Tally.ofFunction, Tally.ofClass, functionScore,
      Node.functionComplexity, points_bodyTally]

theorem functions_surveyAll (source : List Char) (node : Node) :
    (surveyAll source node.children).functions =
      node.functions.map fun site => functionScore source site.node := by
  rw [surveyAll_children_eq, Tally.functions_concat, List.flatMap_map, Node.functions,
    ← flatMap_ite]
  simp only [functions_ownTally]

theorem functions_bodyTally (source : List Char) (node : Node) :
    (bodyTally source node).functions =
      node.methods.map fun site => functionScore source site.node := by
  unfold bodyTally Node.methods
  cases node.child? "body" with
  | none => rfl
  | some body => exact functions_surveyAll source body

theorem classes_ownTally (source : List Char) (node : Node) :
    (ownTally source node).classes =
      if node.isClass then [classScore source node] else [] := by
  cases function : node.isFunction with
  | true =>
      simp [ownTally, function, Node.isClass_eq_false_of_isFunction function, Tally.ofFunction]
  | false =>
      cases classes : node.isClass with
      | false => simp [ownTally, function, classes]
      | true =>
          have whole : 1 + node.bodyPoints +
              functionsComplexity (node.methods.map fun site => functionScore source site.node) =
                node.classComplexity := by
            rw [functionsComplexity, List.map_map]
            rfl
          simp [ownTally, function, classes, Tally.ofClass, points_bodyTally, functions_bodyTally,
            whole, classScore]

theorem classes_surveyAll (source : List Char) (node : Node) :
    (surveyAll source node.children).classes =
      node.classes.map fun site => classScore source site.node := by
  rw [surveyAll_children_eq, Tally.classes_concat, List.flatMap_map, Node.classes, ← flatMap_ite]
  simp only [classes_ownTally]

end Measurement

end CodeGauge
