import CodeGauge.Proofs.Measurement.Survey
import Mathlib.Data.List.Nodup

/-!
# Blocks of a module

A module has a block for each function that no definition holds and, for each class that no
definition holds, one for the class and one for each of its methods, and no definition has two
(`blocks_name_outermost`).  Their complexities, and that of the module, are sums of the decision
points that stand outside all definitions on the way (`complexities_sum_own_points`).
-/

namespace CodeGauge

open Syntax

namespace Syntax

namespace Node

theorem mem_exposed_iff {node : Node} {site : Site} :
    site ∈ node.exposed ↔ site ∈ node.sites ∧ node.IsClear site.address := by
  rw [exposed, List.mem_filter, decide_eq_true_iff]

theorem at?_of_mem_exposed {node : Node} {site : Site} (mem : site ∈ node.exposed) :
    node.at? site.address = some site.node :=
  (mem_sites_iff.mp (mem_exposed_iff.mp mem).1).2

/-- No exposed site is below an exposed definition. -/
theorem address_eq_of_prefix {node : Node} {outer inner : Site} (outer_mem : outer ∈ node.exposed)
    (defines : outer.node.isDefinition = true) (inner_mem : inner ∈ node.exposed)
    (above : outer.address <+: inner.address) : outer.address = inner.address := by
  by_contra apart
  have shorter : outer.address.length < inner.address.length :=
    lt_of_le_of_ne above.length_le fun same => apart (above.eq_of_length same)
  have deeper := (mem_sites_iff.mp (mem_exposed_iff.mp outer_mem).1).1
  have clear := (mem_exposed_iff.mp inner_mem).2 _ shorter (List.length_pos_iff.mpr deeper)
  rw [← List.prefix_iff_eq_take.mp above, at?_of_mem_exposed outer_mem] at clear
  simp [defines] at clear

theorem mem_functions_iff {node : Node} {site : Site} :
    site ∈ node.functions ↔ site ∈ node.exposed ∧ site.node.isFunction = true := by
  rw [functions, List.mem_filter]

theorem mem_classes_iff {node : Node} {site : Site} :
    site ∈ node.classes ↔ site ∈ node.exposed ∧ site.node.isClass = true := by
  rw [classes, List.mem_filter]

theorem isDefinition_of_isClass {node : Node} (classes : node.isClass = true) :
    node.isDefinition = true := by
  rw [isDefinition, classes, Bool.or_true]

theorem nodup_address_exposed (node : Node) : (node.exposed.map Site.address).Nodup :=
  (nodup_address_sites node).sublist (List.filter_sublist.map _)

theorem nodup_address_functions (node : Node) : (node.functions.map Site.address).Nodup :=
  (nodup_address_exposed node).sublist (List.filter_sublist.map _)

theorem nodup_address_classes (node : Node) : (node.classes.map Site.address).Nodup :=
  (nodup_address_exposed node).sublist (List.filter_sublist.map _)

def bodyPlace (definition : Node) : Nat :=
  definition.children.findIdx fun child => child.label.field == some "body"

theorem child?_body_eq (definition : Node) :
    definition.child? "body" = definition.children[definition.bodyPlace]? :=
  List.find?_eq_getElem?_findIdx

end Node

/-- A site below the body of a definition as a site of the tree in which the definition stands. -/
def Site.inBody (definition site : Site) : Site :=
  ⟨definition.address ++ definition.node.bodyPlace :: site.address, site.node⟩

theorem at?_inBody {root : Node} {definition : Site}
    (found : root.at? definition.address = some definition.node) {site : Site}
    (mem : site ∈ definition.node.methods) :
    root.at? (definition.inBody site).address = some site.node := by
  rw [Site.inBody, Node.at?_append, found, Option.bind_some, Node.at?_cons, ← Node.child?_body_eq]
  unfold Node.methods at mem
  cases held : definition.node.child? "body" with
  | none => simp [held] at mem
  | some body =>
      have exposed : site ∈ body.functions := by simpa [held] using mem
      exact Node.at?_of_mem_exposed (Node.mem_functions_iff.mp exposed).1

theorem nodup_address_methods (definition : Node) :
    (definition.methods.map Site.address).Nodup := by
  unfold Node.methods
  cases definition.child? "body" with
  | none => exact List.nodup_nil
  | some body => exact Node.nodup_address_functions body

end Syntax

namespace Measurement

/-- The sites for which a class has blocks: its own and those of its methods. -/
def classSites (definition : Site) : List (BlockKind × Site) :=
  (.classDefinition, definition) ::
    definition.node.methods.map fun site => (.method, definition.inBody site)

/-- The sites for which a module has blocks: the functions, then each class with its methods. -/
def blockSites (root : Node) : List (BlockKind × Site) :=
  root.functions.map (fun site => (.function, site)) ++ root.classes.flatMap classSites

theorem mem_classSites_iff {definition : Site} {entry : BlockKind × Site} :
    entry ∈ classSites definition ↔ entry = (.classDefinition, definition) ∨
      ∃ site ∈ definition.node.methods, (.method, definition.inBody site) = entry := by
  rw [classSites, List.mem_cons, List.mem_map]

theorem prefix_of_mem_classSites {definition : Site} {entry : BlockKind × Site}
    (mem : entry ∈ classSites definition) : definition.address <+: entry.2.address := by
  rcases mem_classSites_iff.mp mem with rfl | ⟨site, -, rfl⟩
  · exact List.prefix_rfl
  · exact List.prefix_append _ _

theorem at?_of_mem_blockSites {root : Node} {entry : BlockKind × Site}
    (mem : entry ∈ blockSites root) : root.at? entry.2.address = some entry.2.node := by
  rcases List.mem_append.mp mem with function | classes
  · obtain ⟨site, site_mem, rfl⟩ := List.mem_map.mp function
    exact Node.at?_of_mem_exposed (Node.mem_functions_iff.mp site_mem).1
  · obtain ⟨definition, definition_mem, entry_mem⟩ := List.mem_flatMap.mp classes
    have found := Node.at?_of_mem_exposed (Node.mem_classes_iff.mp definition_mem).1
    rcases mem_classSites_iff.mp entry_mem with rfl | ⟨site, site_mem, rfl⟩
    · exact found
    · exact at?_inBody found site_mem

theorem nodup_address_classSites (definition : Site) :
    ((classSites definition).map fun entry => entry.2.address).Nodup := by
  rw [classSites, List.map_cons, List.map_map, List.nodup_cons]
  constructor
  · intro mem
    obtain ⟨site, -, same⟩ := List.mem_map.mp mem
    have := congrArg List.length same
    simp [Site.inBody] at this
  · have injective : Function.Injective fun address : List Nat =>
        definition.address ++ definition.node.bodyPlace :: address := fun first second same =>
      (List.cons.inj (List.append_cancel_left same)).2
    have moved := (nodup_address_methods definition.node).map injective
    rwa [List.map_map] at moved

theorem address_eq_of_mem_classSites {root : Node} {definition other : Site}
    (definition_mem : definition ∈ root.classes) (other_mem : other ∈ root.exposed)
    {entry : BlockKind × Site} (mem : entry ∈ classSites definition)
    (above : other.address <+: entry.2.address)
    (outermost : other.node.isDefinition = true) : definition.address = other.address := by
  obtain ⟨exposed, classes⟩ := Node.mem_classes_iff.mp definition_mem
  have defines := Node.isDefinition_of_isClass classes
  rcases List.prefix_or_prefix_of_prefix (prefix_of_mem_classSites mem) above with first | second
  · exact Node.address_eq_of_prefix exposed defines other_mem first
  · exact (Node.address_eq_of_prefix other_mem outermost exposed second).symm

theorem nodup_address_blockSites (root : Node) :
    ((blockSites root).map fun entry => entry.2.address).Nodup := by
  rw [blockSites, List.map_append, List.map_map, List.map_flatMap, List.nodup_append']
  refine ⟨Node.nodup_address_functions root, ?_, ?_⟩
  -- a block that two classes shared would be at or below both, and neither is below the other
  · rw [List.nodup_flatMap]
    refine ⟨fun definition _ => nodup_address_classSites definition, ?_⟩
    have distinct := List.pairwise_map.mp (Node.nodup_address_classes root)
    refine distinct.imp_of_mem fun {first second} first_mem second_mem apart => ?_
    refine List.disjoint_left.mpr fun address in_first in_second => ?_
    obtain ⟨entry, entry_mem, rfl⟩ := List.mem_map.mp in_first
    obtain ⟨other, other_mem, same⟩ := List.mem_map.mp in_second
    obtain ⟨exposed, classes⟩ := Node.mem_classes_iff.mp second_mem
    have above : second.address <+: entry.2.address := same ▸ prefix_of_mem_classSites other_mem
    exact apart (address_eq_of_mem_classSites first_mem exposed entry_mem above
      (Node.isDefinition_of_isClass classes))
  -- a function that had a block of a class would be that class
  · rw [List.disjoint_left]
    intro address in_functions in_classes
    obtain ⟨site, site_mem, rfl⟩ := List.mem_map.mp in_functions
    obtain ⟨definition, definition_mem, in_class⟩ := List.mem_flatMap.mp in_classes
    obtain ⟨entry, entry_mem, same⟩ := List.mem_map.mp in_class
    obtain ⟨exposed, function⟩ := Node.mem_functions_iff.mp site_mem
    have defines : site.node.isDefinition = true := by
      rw [Node.isDefinition, function, Bool.true_or]
    have above : site.address <+: entry.2.address := by
      rw [same]
      exact List.prefix_rfl
    have same_address := address_eq_of_mem_classSites definition_mem exposed entry_mem above defines
    obtain ⟨definition_exposed, classes⟩ := Node.mem_classes_iff.mp definition_mem
    have same_node : definition.node = site.node := Option.some.inj <| by
      rw [← Node.at?_of_mem_exposed definition_exposed, same_address,
        Node.at?_of_mem_exposed exposed]
    rw [same_node, Node.isClass_eq_false_of_isFunction function] at classes
    cases classes

def Block.heading (block : Block) : BlockKind × String × Nat :=
  (block.kind, block.name, block.line)

/-- The heading of a block for a site: the name is the text in the name field of its node. -/
def headingAt (source : List Char) (entry : BlockKind × Site) : BlockKind × String × Nat :=
  let node := entry.2.node
  let nameNode := node.children.find? fun child => child.label.field == some "name"
  (entry.1, (nameNode.bind (Node.text? source)).getD "<anonymous>", node.line)

theorem headingAt_eq (source : List Char) (entry : BlockKind × Site) :
    headingAt source entry =
      (entry.1, definitionName source entry.2.node, entry.2.node.line) := rfl

theorem blocks_surveyModule (source : List Char) (root : Node) :
    (surveyModule source root).blocks =
      (root.functions.map fun site =>
        (functionScore source site.node).block .function) ++
      root.classes.flatMap fun site => (classScore source site.node).blocks := by
  rw [Tally.blocks, surveyModule, functions_surveyAll, classes_surveyAll, List.map_map,
    List.flatMap_map]
  rfl

theorem map_heading_classScore (source : List Char) (definition : Site) :
    (classScore source definition.node).blocks.map Block.heading =
      (classSites definition).map (headingAt source) := by
  simp [ClassScore.blocks, classScore, classSites, Block.heading, headingAt_eq, Site.inBody,
    FunctionScore.block, functionScore, Function.comp_def]

/-- The blocks of a module are, in this order: one for each function that no definition below the
root holds, in preorder; and for each class that no definition below the root holds, in preorder,
one for the class and one for each function below its body that no definition below the body holds,
in preorder.  Each has the name and the line of its own node, and no node has two. -/
theorem blocks_name_outermost (source : List Char) (root : Node) :
    (surveyModule source root).blocks.map Block.heading =
      (blockSites root).map (headingAt source) ∧
    (∀ entry ∈ blockSites root, root.at? entry.2.address = some entry.2.node) ∧
    ((blockSites root).map fun entry => entry.2.address).Nodup ∧
    root.sites.map Site.node = Node.preorderAll root.children := by
  refine ⟨?_, fun entry mem => at?_of_mem_blockSites mem, nodup_address_blockSites root,
    Node.map_node_sites root⟩
  simp only [blocks_surveyModule, blockSites, List.map_append, List.map_map, List.map_flatMap,
    map_heading_classScore]
  rfl

theorem map_complexity_functionScore (source : List Char) (kind : BlockKind) (sites : List Site) :
    (sites.map fun site => (functionScore source site.node).block kind).map Block.complexity =
      sites.map fun site => site.node.functionComplexity := by
  rw [List.map_map]
  rfl

theorem complexity_classScore (source : List Char) (definition : Node) :
    (classScore source definition).complexity = definition.reportedComplexity := by
  unfold ClassScore.complexity Node.reportedComplexity classScore
  cases definition.methods <;> simp

theorem map_complexity_classScore (source : List Char) (definition : Node) :
    (classScore source definition).blocks.map Block.complexity =
      definition.reportedComplexity ::
        definition.methods.map fun site => site.node.functionComplexity := by
  rw [ClassScore.blocks, List.map_cons, complexity_classScore]
  simp [classScore, FunctionScore.block, functionScore, Function.comp_def]

/-- A function or method has one and the own points of its body, wherever it stands.  A class has
one, the own points of its body and the complexities of its methods, of which its block reports the
rounded mean, and one more where there are several methods.  A module has one, its own points and
the complexities of the functions and classes that no definition below the root holds. -/
theorem complexities_sum_own_points (source : List Char) (root : Node) :
    (surveyModule source root).blocks.map Block.complexity =
      (root.functions.map fun site => site.node.functionComplexity) ++
        (root.classes.flatMap fun site =>
          site.node.reportedComplexity ::
            site.node.methods.map fun method => method.node.functionComplexity) ∧
    (surveyModule source root).classes.map ClassScore.whole =
      root.classes.map (fun site => site.node.classComplexity) ∧
    (surveyModule source root).totalComplexity =
      1 + root.ownPoints + total (root.functions.map fun site => site.node.functionComplexity) +
        total (root.classes.map fun site => site.node.classComplexity) := by
  refine ⟨?_, ?_, ?_⟩
  · simp only [blocks_surveyModule, List.map_append, map_complexity_functionScore,
      List.map_flatMap, map_complexity_classScore]
  · rw [surveyModule, classes_surveyAll, List.map_map]
    rfl
  · rw [Tally.totalComplexity, surveyModule, points_surveyAll, functions_surveyAll,
      classes_surveyAll, functionsComplexity, List.map_map, List.map_map]
    rfl

end Measurement

end CodeGauge
