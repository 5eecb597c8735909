import CodeGauge.Measurement.LimitedSurvey
import CodeGauge.Proofs.Measurement.Blocks
import CodeGauge.Syntax.Statement
import Mathlib.Algebra.Order.BigOperators.Group.List
import Mathlib.Algebra.Order.Group.Nat
import Mathlib.Order.Interval.Set.Defs

/-!
# The range of complexities

A node has at most one decision point more than it has children, so what a survey counts stays below
twice the number of nodes (`weight_survey_lt`).  A survey with limited numbers therefore comes to
the same end as one without a limit, if the limit is at least twice the number of nodes
(`reportWithin?_eq_some`).
-/

namespace CodeGauge

open Syntax

namespace Syntax.Node

def size (node : Node) : Nat := node.preorder.length

def sizeAll (nodes : List Node) : Nat := (preorderAll nodes).length

@[simp]
theorem size_mk (label : Label) (children : List Node) :
    (mk label children).size = sizeAll children + 1 := rfl

@[simp]
theorem sizeAll_cons (node : Node) (others : List Node) :
    sizeAll (node :: others) = node.size + sizeAll others := List.length_append

theorem sizeAll_children (node : Node) : sizeAll node.children + 1 = node.size := by
  cases node
  rfl

theorem size_le_of_mem {root node : Node} (mem : node ∈ root.preorder) :
    node.size ≤ root.size := by
  induction root using induction with
  | step root ih =>
      rcases mem_preorder_iff.mp mem with rfl | ⟨child, child_mem, below⟩
      · exact Nat.le_refl _
      · have within_children : child.size ≤ sizeAll root.children := by
          rw [sizeAll, preorderAll_eq, List.length_flatMap]
          exact List.le_sum_of_mem (List.mem_map_of_mem child_mem)
        have deeper := ih child child_mem below
        have whole := sizeAll_children root
        omega

end Syntax.Node

namespace Measurement

/-- Everything that a tally counts, the classes with their whole complexities. -/
def Tally.weight (tally : Tally) : Nat :=
  tally.points + functionsComplexity tally.functions +
    total (tally.classes.map ClassScore.whole)

theorem functionsComplexity_append (first second : List FunctionScore) :
    functionsComplexity (first ++ second) =
      functionsComplexity first + functionsComplexity second := by
  rw [functionsComplexity, List.map_append, total_append]
  rfl

@[simp]
theorem Tally.weight_nothing : nothing.weight = 0 := rfl

theorem Tally.weight_append (first second : Tally) :
    (first ++ second).weight = first.weight + second.weight := by
  simp only [weight, points_append, functions_append, classes_append, functionsComplexity_append,
    List.map_append, total_append]
  omega

theorem Tally.weight_ofFunction (name : String) (line : Nat) (body : Tally) :
    (ofFunction name line body).weight ≤ 1 + body.weight := by
  simp only [weight, ofFunction, functionsComplexity, List.map_cons, List.map_nil, total_cons,
    total_nil]
  omega

theorem Tally.weight_ofClass (name : String) (line : Nat) (body : Tally) :
    (ofClass name line body).weight ≤ 1 + body.weight := by
  simp only [weight, ofClass, functionsComplexity, List.map_cons, List.map_nil, total_cons,
    total_nil]
  omega

/-- A decision point is charged to the node itself or to one of its children. -/
theorem decisionPoints_le (node : Node) : decisionPoints node ≤ node.children.length + 1 := by
  rw [decisionPoints]
  split_ifs with branch loop alternative handlers
  · omega
  -- a loop with two points has the child that is its alternative
  · obtain ⟨child, found⟩ := Option.isSome_iff_exists.mp alternative
    have mem : child ∈ node.children := List.mem_of_find?_eq_some found
    have some_child := List.length_pos_of_mem mem
    omega
  · omega
  · exact Nat.le_succ_of_le List.countP_le_length
  · omega

mutual

/-- A survey counts less than two for each node. -/
theorem weight_survey_lt (source : List Char) :
    ∀ node : Node, (survey source node).weight < 2 * node.size
  | .mk label children => by
      have all := weight_surveyAll_le source children
      have body := weight_surveyBody_le source children
      have own := decisionPoints_le (.mk label children)
      rw [survey, Node.size_mk]
      split_ifs with function classes
      · have score := Tally.weight_ofFunction (definitionName source (.mk label children))
          (label.start.row + 1) (surveyBody source children)
        omega
      · have score := Tally.weight_ofClass (definitionName source (.mk label children))
          (label.start.row + 1) (surveyBody source children)
        omega
      -- the points are charged to the children, each of which counts one less than two per node
      · rw [Tally.weight_append]
        have points : (⟨decisionPoints (.mk label children), [], []⟩ : Tally).weight =
            decisionPoints (.mk label children) := rfl
        rw [Node.children_mk] at own
        omega

theorem weight_surveyAll_le (source : List Char) :
    ∀ nodes : List Node,
      (surveyAll source nodes).weight + nodes.length ≤ 2 * Node.sizeAll nodes
  | [] => by simp [surveyAll]
  | node :: others => by
      have first := weight_survey_lt source node
      have rest := weight_surveyAll_le source others
      rw [surveyAll, Tally.weight_append, Node.sizeAll_cons, List.length_cons]
      omega

theorem weight_surveyBody_le (source : List Char) :
    ∀ nodes : List Node, (surveyBody source nodes).weight ≤ 2 * Node.sizeAll nodes
  | [] => by simp [surveyBody]
  | .mk label children :: others => by
      have all := weight_surveyAll_le source children
      have rest := weight_surveyBody_le source others
      rw [surveyBody, Node.sizeAll_cons, Node.size_mk]
      split_ifs <;> omega

end

variable {limit : Nat}

theorem addWithin?_eq_some {first second : Nat} (below : first + second < limit) :
    addWithin? limit first second = some (first + second) := if_pos below

theorem countWithin?_eq_some {count : Nat} (below : count < limit) :
    countWithin? limit count = some count := if_pos below

theorem quotient?_eq_some {divisor : Nat} (positive : 0 < divisor) (dividend : Nat) :
    quotient? dividend divisor = some (dividend / divisor) := if_neg positive.ne'

/-- No sum on the way is greater than the last one. -/
theorem foldlM_addWithin?_eq_some {counts : List Nat} {start : Nat}
    (below : start + total counts < limit) :
    counts.foldlM (addWithin? limit) start = some (start + total counts) := by
  induction counts generalizing start with
  | nil => rfl
  | cons count counts ih =>
      rw [total_cons, ← Nat.add_assoc] at below ⊢
      have first : start + count < limit := by omega
      rw [List.foldlM_cons, addWithin?_eq_some first]
      exact ih below

theorem sumWithin?_eq_some {counts : List Nat} (below : total counts < limit) :
    sumWithin? limit counts = some (total counts) := by
  have summed : sumWithin? limit counts = some (0 + total counts) :=
    foldlM_addWithin?_eq_some (by rwa [Nat.zero_add])
  rwa [Nat.zero_add] at summed

theorem decisionPointsWithin?_eq_some {node : Node} (below : decisionPoints node < limit) :
    decisionPointsWithin? limit node = some (decisionPoints node) := by
  rw [decisionPoints] at below ⊢
  rw [decisionPointsWithin?]
  split_ifs at below ⊢ with branch loop alternative handlers
  · rfl
  · exact addWithin?_eq_some below
  · exact addWithin?_eq_some below
  · exact countWithin?_eq_some below
  · rfl

theorem addFunctionWithin?_eq_some {parts : List Tally} {body : Tally}
    (body_eq : Tally.concat parts = body) (below : 1 + body.points < limit) (tally : Tally)
    (name : String) (line : Nat) :
    addFunctionWithin? limit tally name line parts =
      some (tally ++ .ofFunction name line body) := by
  subst body_eq
  rw [Tally.points_concat] at below
  have points := sumWithin?_eq_some (Nat.lt_of_le_of_lt (Nat.le_add_left _ 1) below)
  rw [addFunctionWithin?, functionWithin?, points]
  simp only [Option.bind_eq_bind, Option.bind_some, addWithin?_eq_some below, Option.pure_def]
  exact congrArg some (Tally.ext rfl rfl (List.append_nil _).symm)

theorem foldlM_addPartWithin?_eq_some {parts : List Tally} {start : Nat}
    (below : start + (Tally.concat parts).points +
      functionsComplexity (Tally.concat parts).functions < limit) :
    parts.foldlM (addPartWithin? limit) start =
      some (start + (Tally.concat parts).points +
        functionsComplexity (Tally.concat parts).functions) := by
  induction parts generalizing start with
  | nil => rfl
  | cons part parts ih =>
      rw [Tally.concat_cons, Tally.points_append, Tally.functions_append,
        functionsComplexity_append] at below ⊢
      have methods : sumWithin? limit (part.functions.map FunctionScore.complexity) =
          some (functionsComplexity part.functions) :=
        sumWithin?_eq_some (by rw [← functionsComplexity]; omega)
      let added := part.points + functionsComplexity part.functions
      have more : addWithin? limit part.points (functionsComplexity part.functions) =
          some added := addWithin?_eq_some (by omega)
      have whole : addWithin? limit start added = some (start + added) :=
        addWithin?_eq_some (by omega)
      have rest : parts.foldlM (addPartWithin? limit) (start + added) =
          some (start + added + (Tally.concat parts).points +
            functionsComplexity (Tally.concat parts).functions) := ih (by omega)
      rw [List.foldlM_cons, addPartWithin?, methods]
      simp only [Option.bind_eq_bind, Option.bind_some, more, whole, rest]
      congr 1
      omega

theorem addClassWithin?_eq_some {parts : List Tally} {body : Tally}
    (body_eq : Tally.concat parts = body)
    (below : 1 + body.points + functionsComplexity body.functions < limit) (tally : Tally)
    (name : String) (line : Nat) :
    addClassWithin? limit tally name line parts = some (tally ++ .ofClass name line body) := by
  subst body_eq
  rw [addClassWithin?, foldlM_addPartWithin?_eq_some below]
  exact congrArg some (Tally.ext rfl (List.append_nil _).symm rfl)

theorem addPointsWithin?_eq_some {tally : Tally} {node : Node}
    (below : tally.points + decisionPoints node < limit) :
    addPointsWithin? limit tally node = some (tally ++ ⟨decisionPoints node, [], []⟩) := by
  have own := decisionPointsWithin?_eq_some (Nat.lt_of_le_of_lt (Nat.le_add_left _ _) below)
  rw [addPointsWithin?, own]
  simp only [Option.bind_eq_bind, Option.bind_some, addWithin?_eq_some below, Option.pure_def]
  exact congrArg some (Tally.ext rfl (List.append_nil _).symm (List.append_nil _).symm)

theorem Tally.points_le_weight (tally : Tally) : tally.points ≤ tally.weight := by
  rw [weight]
  omega

mutual

/-- A tree is added to a running tally if the points stay below the limit and the limit is at least
twice the number of nodes. -/
theorem visitWithin?_eq_some (source : List Char) :
    ∀ (node : Node) (tally : Tally), tally.points + (survey source node).points < limit →
      2 * node.size ≤ limit →
      visitWithin? limit source tally node = some (tally ++ survey source node)
  | .mk label children, tally, below, room => by
      rw [Node.size_mk] at room
      have within_body : 2 * Node.sizeAll children < limit := by omega
      obtain ⟨parts, visited, body_eq⟩ := visitBodyWithin?_eq_some source children
        (Nat.le_of_lt within_body)
      have weight := weight_surveyBody_le source children
      rw [Tally.weight] at weight
      rw [visitWithin?]
      rw [survey] at below ⊢
      split_ifs at below ⊢ with function classes
      · rw [visited]
        exact addFunctionWithin?_eq_some body_eq (by omega) tally _ _
      · rw [visited]
        exact addClassWithin?_eq_some body_eq (by omega) tally _ _
      · rw [Tally.points_append, ← Nat.add_assoc] at below
        have own : tally.points + decisionPoints (.mk label children) < limit :=
          Nat.lt_of_le_of_lt (Nat.le_add_right _ _) below
        rw [addPointsWithin?_eq_some own, Option.bind_some, ← Tally.append_assoc]
        exact visitAllWithin?_eq_some source children _ below (Nat.le_of_lt within_body)

theorem visitAllWithin?_eq_some (source : List Char) :
    ∀ (nodes : List Node) (tally : Tally),
      tally.points + (surveyAll source nodes).points < limit → 2 * Node.sizeAll nodes ≤ limit →
      visitAllWithin? limit source tally nodes = some (tally ++ surveyAll source nodes)
  | [], tally, _, _ => congrArg some (Tally.append_nothing tally).symm
  | node :: others, tally, below, room => by
      rw [Node.sizeAll_cons] at room
      rw [surveyAll, Tally.points_append, ← Nat.add_assoc] at below
      have first := visitWithin?_eq_some source node tally
        (Nat.lt_of_le_of_lt (Nat.le_add_right _ _) below) (by omega)
      rw [visitAllWithin?, first, Option.bind_some, surveyAll, ← Tally.append_assoc]
      exact visitAllWithin?_eq_some source others _ below (by omega)

theorem visitEachWithin?_eq_some (source : List Char) :
    ∀ nodes : List Node, 2 * Node.sizeAll nodes ≤ limit →
      visitEachWithin? limit source nodes = some (nodes.map (survey source))
  | [], _ => rfl
  | node :: others, room => by
      rw [Node.sizeAll_cons] at room
      have weight := weight_survey_lt source node
      have points := (survey source node).points_le_weight
      have first := visitWithin?_eq_some source node .nothing
        (by rw [Tally.nothing, Nat.zero_add]; omega) (by omega)
      have rest := visitEachWithin?_eq_some source others (by omega)
      rw [visitEachWithin?, first, rest, Tally.nothing_append]
      rfl

theorem visitBodyWithin?_eq_some (source : List Char) :
    ∀ nodes : List Node, 2 * Node.sizeAll nodes ≤ limit →
      ∃ parts, visitBodyWithin? limit source nodes = some parts ∧
        Tally.concat parts = surveyBody source nodes
  | [], _ => ⟨[], rfl, rfl⟩
  | .mk label children :: others, room => by
      rw [Node.sizeAll_cons, Node.size_mk] at room
      have each := visitEachWithin?_eq_some source children (by omega)
      rw [visitBodyWithin?, surveyBody]
      split_ifs with body
      · exact ⟨_, each, (surveyAll_eq_concat source children).symm⟩
      · exact visitBodyWithin?_eq_some source others (by omega)

end

end Measurement

namespace Syntax.Node

open Measurement

theorem weight_bodyTally_le (source : List Char) (node : Node) :
    (bodyTally source node).weight + 2 ≤ 2 * node.size := by
  have body := weight_surveyBody_le source node.children
  have whole := sizeAll_children node
  rw [surveyBody_children] at body
  omega

theorem functionComplexity_eq (source : List Char) (node : Node) :
    node.functionComplexity = 1 + (bodyTally source node).points := by
  rw [functionComplexity, points_bodyTally]

theorem classComplexity_eq (source : List Char) (node : Node) :
    node.classComplexity = 1 + (bodyTally source node).points +
      functionsComplexity (bodyTally source node).functions := by
  rw [classComplexity, points_bodyTally, functions_bodyTally, functionsComplexity, List.map_map]
  rfl

theorem one_le_functionComplexity (node : Node) : 1 ≤ node.functionComplexity :=
  Nat.le_add_right 1 _

theorem functionComplexity_lt (node : Node) : node.functionComplexity < 2 * node.size := by
  have body := weight_bodyTally_le [] node
  rw [functionComplexity_eq []]
  rw [Tally.weight] at body
  omega

theorem classComplexity_lt (node : Node) : node.classComplexity < 2 * node.size := by
  have body := weight_bodyTally_le [] node
  rw [classComplexity_eq []]
  rw [Tally.weight] at body
  omega

/-- Every method adds at least one to its class, which begins at one itself. -/
theorem length_methods_lt (node : Node) : node.methods.length < node.classComplexity := by
  have each : ∀ sites : List Site,
      sites.length ≤ total (sites.map fun site => site.node.functionComplexity) := by
    intro sites
    induction sites with
    | nil => exact Nat.le_refl 0
    | cons site sites ih =>
        have first := one_le_functionComplexity site.node
        rw [List.length_cons, List.map_cons, total_cons]
        omega
  have methods := each node.methods
  rw [classComplexity]
  omega

/-- The mean over the methods, and one more where there are several, is between one and the whole
complexity. -/
theorem reportedComplexity_bounds (node : Node) :
    1 ≤ node.reportedComplexity ∧ node.reportedComplexity ≤ node.classComplexity := by
  have more := length_methods_lt node
  rw [reportedComplexity]
  split_ifs with none several
  · omega
  · have mean_pos := Nat.div_pos (Nat.le_of_lt more) (Nat.pos_of_ne_zero none)
    have mean_le : node.classComplexity / node.methods.length ≤ node.classComplexity / 2 :=
      Nat.div_le_div_left several Nat.two_pos
    omega
  · have one : node.methods.length = 1 := by omega
    rw [one, Nat.div_one]
    omega

end Syntax.Node

namespace Measurement

variable {source : List Char} {root : Node} {limit : Nat}

theorem mem_preorder_of_mem_exposed {node : Node} {site : Site} (mem : site ∈ node.exposed) :
    site.node ∈ node.preorder := by
  have listed : site.node ∈ node.sites.map Site.node :=
    List.mem_map_of_mem (Node.mem_exposed_iff.mp mem).1
  rw [Node.map_node_sites] at listed
  rw [Node.preorder_eq]
  exact List.mem_cons_of_mem _ listed

theorem mem_preorder_of_mem_methods {definition : Node} {site : Site}
    (mem : site ∈ definition.methods) : site.node ∈ definition.preorder := by
  unfold Node.methods at mem
  cases held : definition.child? "body" with
  | none => simp [held] at mem
  | some body =>
      have exposed : site ∈ body.functions := by simpa [held] using mem
      have lower := mem_preorder_of_mem_exposed (Node.mem_functions_iff.mp exposed).1
      have body_mem : body ∈ definition.children := List.mem_of_find?_eq_some held
      exact Node.mem_preorder_iff.mpr (.inr ⟨body, body_mem, lower⟩)

theorem exists_node_of_mem_blocks {block : Block}
    (mem : block ∈ (surveyModule source root).blocks) :
    ∃ node ∈ root.preorder, block.complexity = node.functionComplexity ∨
      block.complexity = node.reportedComplexity := by
  rw [blocks_surveyModule, List.mem_append] at mem
  rcases mem with function | classes
  · obtain ⟨site, site_mem, rfl⟩ := List.mem_map.mp function
    exact ⟨site.node, mem_preorder_of_mem_exposed (Node.mem_functions_iff.mp site_mem).1, .inl rfl⟩
  · obtain ⟨site, site_mem, block_mem⟩ := List.mem_flatMap.mp classes
    have in_tree := mem_preorder_of_mem_exposed (Node.mem_classes_iff.mp site_mem).1
    have listed : block.complexity ∈ (classScore source site.node).blocks.map Block.complexity :=
      List.mem_map_of_mem block_mem
    rw [map_complexity_classScore, List.mem_cons, List.mem_map] at listed
    rcases listed with whole | ⟨method, method_mem, complexity⟩
    · exact ⟨site.node, in_tree, .inr whole⟩
    · have below := Node.mem_preorder_trans (mem_preorder_of_mem_methods method_mem) in_tree
      exact ⟨method.node, below, .inl complexity.symm⟩

theorem totalComplexity_eq (tally : Tally) : tally.totalComplexity = 1 + tally.weight := by
  rw [Tally.totalComplexity, Tally.weight]
  omega

theorem totalComplexity_lt (source : List Char) (root : Node) :
    (surveyModule source root).totalComplexity < 2 * root.size := by
  have all := weight_surveyAll_le source root.children
  have whole := Node.sizeAll_children root
  rw [totalComplexity_eq, surveyModule]
  omega

theorem moduleWithin?_eq_some (room : 2 * root.size ≤ limit) :
    moduleWithin? limit source root = some (⟨1, [], []⟩ ++ surveyModule source root) := by
  have total_lt := totalComplexity_lt source root
  have whole := Node.sizeAll_children root
  rw [totalComplexity_eq, Tally.weight] at total_lt
  apply visitAllWithin?_eq_some
  · change 1 + (surveyModule source root).points < limit
    omega
  · omega

theorem totalWithin?_eq_some {tally : Tally} (below : tally.totalComplexity < limit) :
    totalWithin? limit (⟨1, [], []⟩ ++ tally) = some tally.totalComplexity := by
  have begun : (⟨1, [], []⟩ ++ tally).points = 1 + tally.points := rfl
  rw [Tally.totalComplexity] at below ⊢
  have functions : sumWithin? limit (tally.functions.map FunctionScore.complexity) =
      some (functionsComplexity tally.functions) :=
    sumWithin?_eq_some (by rw [← functionsComplexity]; omega)
  have classes : sumWithin? limit (tally.classes.map ClassScore.whole) =
      some (total (tally.classes.map ClassScore.whole)) := sumWithin?_eq_some (by omega)
  have both : addWithin? limit (1 + tally.points) (functionsComplexity tally.functions) =
      some (1 + tally.points + functionsComplexity tally.functions) :=
    addWithin?_eq_some (by omega)
  rw [totalWithin?, begun]
  simp only [Tally.functions_append, Tally.classes_append, List.nil_append, functions, classes,
    Option.bind_eq_bind, Option.bind_some, both, addWithin?_eq_some below]

theorem classWithin?_eq_some {score : ClassScore} (few : score.methods.length < score.whole)
    (below : score.whole < limit) : classWithin? limit score = some score.complexity := by
  rw [classWithin?, ClassScore.complexity]
  split_ifs with none several
  · rfl
  · have mean_le : score.whole / score.methods.length ≤ score.whole / 2 :=
      Nat.div_le_div_left several Nat.two_pos
    rw [countWithin?_eq_some (few.trans below)]
    simp only [Option.bind_eq_bind, Option.bind_some, if_pos several]
    rw [quotient?_eq_some (by omega)]
    exact addWithin?_eq_some (by omega)
  · have positive : 0 < score.methods.length := List.length_pos_iff.mpr (by simpa using none)
    have mean_le := Nat.div_le_self score.whole score.methods.length
    rw [countWithin?_eq_some (few.trans below)]
    simp only [Option.bind_eq_bind, Option.bind_some, if_neg several]
    rw [quotient?_eq_some positive]
    exact addWithin?_eq_some (by omega)

theorem mapM_classBlocksWithin?_eq_some {scores : List ClassScore}
    (fits : ∀ score ∈ scores, score.methods.length < score.whole ∧ score.whole < limit) :
    scores.mapM (classBlocksWithin? limit) = some (scores.map ClassScore.blocks) := by
  induction scores with
  | nil => rfl
  | cons score scores ih =>
      obtain ⟨⟨few, below⟩, others⟩ := List.forall_mem_cons.mp fits
      rw [List.mapM_cons, ih others, classBlocksWithin?, classWithin?_eq_some few below]
      rfl

theorem fits_of_mem_classes (room : 2 * root.size ≤ limit) {score : ClassScore}
    (mem : score ∈ (surveyModule source root).classes) :
    score.methods.length < score.whole ∧ score.whole < limit := by
  rw [surveyModule, classes_surveyAll] at mem
  obtain ⟨site, site_mem, rfl⟩ := List.mem_map.mp mem
  have in_tree := mem_preorder_of_mem_exposed (Node.mem_classes_iff.mp site_mem).1
  have smaller := Node.size_le_of_mem in_tree
  have whole := Node.classComplexity_lt site.node
  have methods := Node.length_methods_lt site.node
  refine ⟨?_, ?_⟩
  · rw [classScore, List.length_map]
    exact methods
  · change site.node.classComplexity < limit
    omega

/-- A module is reported below a limit as without one, if the limit is at least twice the number of
nodes. -/
theorem reportWithin?_eq_some (room : 2 * root.size ≤ limit) :
    reportWithin? limit source root =
      some ((surveyModule source root).totalComplexity, (surveyModule source root).blocks) := by
  have total_lt := Nat.lt_of_lt_of_le (totalComplexity_lt source root) room
  have fits : ∀ score ∈ (surveyModule source root).classes,
      score.methods.length < score.whole ∧ score.whole < limit :=
    fun score mem => fits_of_mem_classes room mem
  have blocks := mapM_classBlocksWithin?_eq_some fits
  rw [reportWithin?, moduleWithin?_eq_some room]
  simp only [Option.bind_eq_bind, Option.bind_some, totalWithin?_eq_some total_lt,
    Tally.functions_append, Tally.classes_append, List.nil_append, blocks, Option.pure_def,
    Tally.blocks, List.flatMap_def]

/-- The complexities of a tree are between one and one less than twice the number of its nodes: that
of the module, those of its blocks, and those of the functions and classes at every depth.  Every
sum on the way to them is less than twice the number of nodes, and for trees of at most `2 ^ 31`
nodes neither these sums nor the numbers of methods leave the words of 32 bits; no mean over methods
divides by zero. -/
theorem complexities_fit_words (source : List Char) {root : Node} (small : root.size ≤ 2 ^ 31) :
    let found := surveyModule source root
    let range := Set.Icc 1 (2 * root.size - 1)
    found.totalComplexity ∈ range ∧ (∀ block ∈ found.blocks, block.complexity ∈ range) ∧
    (∀ node ∈ root.preorder, node.functionComplexity ∈ range ∧ node.classComplexity ∈ range ∧
      node.reportedComplexity ∈ range) ∧
    reportWithin? (2 * root.size) source root = some (found.totalComplexity, found.blocks) ∧
    reportWithin? UInt32.size source root = some (found.totalComplexity, found.blocks) ∧
    ∀ score ∈ found.classes, score.methods.length < UInt32.size ∧
      (score.methods ≠ [] → score.methods.length % UInt32.size ≠ 0) := by
  intro found range
  have mem_range {value : Nat} (positive : 1 ≤ value) (less : value < 2 * root.size) :
      value ∈ range := ⟨positive, Nat.le_sub_one_of_lt less⟩
  have of_node : ∀ node ∈ root.preorder, node.functionComplexity ∈ range ∧
      node.classComplexity ∈ range ∧ node.reportedComplexity ∈ range := by
    intro node mem
    have smaller := Node.size_le_of_mem mem
    have function := Node.functionComplexity_lt node
    have whole := Node.classComplexity_lt node
    obtain ⟨reported_pos, reported_le⟩ := Node.reportedComplexity_bounds node
    refine ⟨mem_range node.one_le_functionComplexity ?_, mem_range ?_ ?_,
      mem_range reported_pos ?_⟩
    all_goals omega
  have words : 2 * root.size ≤ UInt32.size := by
    have size : UInt32.size = 2 * 2 ^ 31 := rfl
    omega
  refine ⟨mem_range ?_ (totalComplexity_lt source root), ?_, of_node,
    reportWithin?_eq_some (Nat.le_refl _), reportWithin?_eq_some words, ?_⟩
  · rw [totalComplexity_eq]
    omega
  · intro block mem
    obtain ⟨node, node_mem, function | classes⟩ := exists_node_of_mem_blocks mem
    · exact function ▸ (of_node node node_mem).1
    · exact classes ▸ (of_node node node_mem).2.2
  · intro score mem
    obtain ⟨few, below⟩ := fits_of_mem_classes words mem
    refine ⟨few.trans below, ?_⟩
    intro nonempty
    rw [Nat.mod_eq_of_lt (few.trans below)]
    exact (List.length_pos_iff.mpr nonempty).ne'

def loopClass : List Char :=
  ("class A:\n  def f(self):\n    for x in y:\n      f\n    else:\n      g\n" ++
    "  def g(self):\n    h\n").toList

/-- The complexity of the module is six, which is not below a limit of six. -/
theorem loopClass_fits_words :
    let root := read loopClass
    root.size ≤ 2 ^ 31 ∧
    (surveyModule loopClass root).totalComplexity ∈ Set.Icc 1 (2 * root.size - 1) ∧
    reportWithin? UInt32.size loopClass root = some (6, (surveyModule loopClass root).blocks) ∧
    reportWithin? 6 loopClass root = none := by
  intro root
  have small : root.size ≤ 2 ^ 31 := by decide +kernel
  have six : (surveyModule loopClass root).totalComplexity = 6 := by decide +kernel
  obtain ⟨total_mem, -, -, -, words, -⟩ := complexities_fit_words loopClass small
  exact ⟨small, total_mem, six ▸ words, by decide +kernel⟩

end Measurement

end CodeGauge
