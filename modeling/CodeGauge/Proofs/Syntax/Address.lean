import CodeGauge.Syntax.Node
import Mathlib.Data.List.Nodup
import Mathlib.Data.List.Range

/-!
# Addresses in syntax trees

The address of a node below another one is the list of the places of children on the way down.  The
sites below a node are listed in preorder (`map_node_sites`), which is the lexicographic order of
their addresses (`pairwise_sites`), and every address that leads to a node is among them
(`mem_sites_iff`).
-/

namespace CodeGauge.Syntax

/-- A node with its address below another one. -/
structure Site where
  address : List Nat
  node : Node
  deriving Repr

/-- A site below a child as a site below its parent. -/
def Site.under (place : Nat) (site : Site) : Site := ⟨place :: site.address, site.node⟩

@[simp]
theorem Site.address_under (place : Nat) (site : Site) :
    (site.under place).address = place :: site.address := rfl

@[simp]
theorem Site.node_under (place : Nat) (site : Site) : (site.under place).node = site.node := rfl

namespace Node

theorem induction {motive : Node → Prop}
    (step : ∀ node, (∀ child ∈ node.children, motive child) → motive node) (node : Node) :
    motive node :=
  step node fun child _ => induction step child
termination_by sizeOf node
decreasing_by
  obtain ⟨label, children⟩ := node
  have smaller := List.sizeOf_lt_of_mem ‹child ∈ children›
  simp only [mk.sizeOf_spec]
  omega

def at? : Node → List Nat → Option Node
  | node, [] => some node
  | node, place :: address => node.children[place]?.bind fun child => child.at? address

@[simp]
theorem at?_nil (node : Node) : node.at? [] = some node := rfl

@[simp]
theorem at?_cons (node : Node) (place : Nat) (address : List Nat) :
    node.at? (place :: address) =
      node.children[place]?.bind fun child => child.at? address := rfl

theorem at?_append (node : Node) (first second : List Nat) :
    node.at? (first ++ second) = (node.at? first).bind fun middle => middle.at? second := by
  induction first generalizing node with
  | nil => rfl
  | cons place first ih =>
      rw [List.cons_append, at?_cons, at?_cons, Option.bind_assoc]
      simp only [ih]

mutual

def sites : Node → List Site
  | mk _ children => sitesFrom 0 children

/-- The sites at and below some children in a row, the first of which has a given place. -/
def sitesFrom (place : Nat) : List Node → List Site
  | [] => []
  | child :: others =>
    ⟨[place], child⟩ :: (child.sites.map (Site.under place) ++ sitesFrom (place + 1) others)

end

def childSites (child : Node × Nat) : List Site :=
  ⟨[child.2], child.1⟩ :: child.1.sites.map (Site.under child.2)

theorem mem_childSites_iff {child : Node × Nat} {site : Site} :
    site ∈ childSites child ↔
      site = ⟨[child.2], child.1⟩ ∨ ∃ lower ∈ child.1.sites, lower.under child.2 = site := by
  rw [childSites, List.mem_cons, List.mem_map]

theorem head?_address_of_mem_childSites {child : Node × Nat} {site : Site}
    (mem : site ∈ childSites child) : site.address.head? = some child.2 := by
  rcases mem_childSites_iff.mp mem with rfl | ⟨lower, -, rfl⟩ <;> rfl

theorem sitesFrom_eq (place : Nat) (children : List Node) :
    sitesFrom place children = (children.zipIdx place).flatMap childSites := by
  induction children generalizing place with
  | nil => rfl
  | cons child others ih =>
      rw [sitesFrom, ih, List.zipIdx_cons, List.flatMap_cons]
      rfl

theorem sites_eq (node : Node) : node.sites = node.children.zipIdx.flatMap childSites := by
  cases node with
  | mk label children => exact sitesFrom_eq 0 children

theorem mem_zipIdx_children {node : Node} {child : Node × Nat}
    (mem : child ∈ node.children.zipIdx) :
    child.1 ∈ node.children ∧ node.children[child.2]? = some child.1 := by
  have found := List.mem_zipIdx_iff_getElem?.mp mem
  exact ⟨List.mem_of_getElem? found, found⟩

/-- The sites below a node are the nodes at the addresses other than its own. -/
theorem mem_sites_iff {node : Node} {site : Site} :
    site ∈ node.sites ↔ site.address ≠ [] ∧ node.at? site.address = some site.node := by
  induction node using induction generalizing site with
  | step node ih =>
      obtain ⟨address, found⟩ := site
      rw [sites_eq, List.mem_flatMap]
      constructor
      · rintro ⟨child, child_mem, mem⟩
        obtain ⟨child_below, at_place⟩ := mem_zipIdx_children child_mem
        rcases mem_childSites_iff.mp mem with here | ⟨lower, lower_mem, moved⟩
        · obtain ⟨rfl, rfl⟩ := Site.mk.inj here
          simp [at_place]
        · obtain ⟨rfl, rfl⟩ := Site.mk.inj moved
          simpa [at_place] using ((ih child.1 child_below).mp lower_mem).2
      -- an address of one place leads to a child, and a longer one below it
      · rintro ⟨deeper, reached⟩
        cases address with
        | nil => exact absurd rfl deeper
        | cons place address =>
            obtain ⟨child, at_place, child_reached⟩ := Option.bind_eq_some_iff.mp reached
            have child_mem : (child, place) ∈ node.children.zipIdx :=
              List.mem_zipIdx_iff_getElem?.mpr at_place
            refine ⟨(child, place), child_mem, mem_childSites_iff.mpr ?_⟩
            cases address with
            | nil =>
                obtain rfl := Option.some.inj child_reached
                exact .inl rfl
            | cons next address =>
                have lower_mem : ⟨next :: address, found⟩ ∈ child.sites :=
                  (ih child (List.mem_of_getElem? at_place)).mpr
                    ⟨List.cons_ne_nil _ _, child_reached⟩
                exact .inr ⟨_, lower_mem, rfl⟩

theorem pairwise_sites (node : Node) :
    node.sites.Pairwise fun first second => first.address < second.address := by
  induction node using induction with
  | step node ih =>
      have places : node.children.zipIdx.Pairwise fun first second => first.2 < second.2 := by
        rw [← List.pairwise_map, List.zipIdx_map_snd]
        exact List.pairwise_lt_range'
      rw [sites_eq, List.pairwise_flatMap]
      -- within a child a site comes before those below it, and among children the places decide
      refine ⟨fun child child_mem => ?_,
        places.imp fun before first first_mem second second_mem => ?_⟩
      · rw [childSites, List.pairwise_cons, List.pairwise_map]
        refine ⟨fun site mem => ?_, ?_⟩
        · obtain ⟨lower, lower_mem, rfl⟩ := List.mem_map.mp mem
          obtain ⟨place, address, deeper⟩ :=
            List.exists_cons_of_ne_nil (mem_sites_iff.mp lower_mem).1
          rw [Site.address_under, List.cons_lt_cons_iff, deeper]
          exact .inr ⟨rfl, List.nil_lt_cons ..⟩
        · refine (ih child.1 (mem_zipIdx_children child_mem).1).imp fun less => ?_
          exact List.cons_lt_cons_iff.mpr (.inr ⟨rfl, less⟩)
      · obtain ⟨_, first_address⟩ := List.head?_eq_some_iff.mp
          (head?_address_of_mem_childSites first_mem)
        obtain ⟨_, second_address⟩ := List.head?_eq_some_iff.mp
          (head?_address_of_mem_childSites second_mem)
        rw [first_address, second_address, List.cons_lt_cons_iff]
        exact .inl before

theorem nodup_address_sites (node : Node) : (node.sites.map Site.address).Nodup :=
  (List.pairwise_map.mpr (pairwise_sites node)).nodup

theorem preorderAll_eq (nodes : List Node) : preorderAll nodes = nodes.flatMap preorder := by
  induction nodes with
  | nil => rfl
  | cons node others ih => rw [preorderAll, ih, List.flatMap_cons]

theorem mem_preorder_iff {node root : Node} :
    node ∈ root.preorder ↔ node = root ∨ ∃ child ∈ root.children, node ∈ child.preorder := by
  rw [preorder_eq, List.mem_cons, preorderAll_eq, List.mem_flatMap]

theorem mem_preorder_trans {root middle node : Node} (lower : node ∈ middle.preorder)
    (upper : middle ∈ root.preorder) : node ∈ root.preorder := by
  induction root using induction with
  | step root ih =>
      rcases mem_preorder_iff.mp upper with rfl | ⟨child, child_mem, upper⟩
      · exact lower
      · exact mem_preorder_iff.mpr (.inr ⟨child, child_mem, ih child child_mem upper⟩)

theorem mem_preorder_of_mem_children {root node child : Node} (mem : node ∈ root.preorder)
    (below : child ∈ node.children) : child ∈ root.preorder :=
  mem_preorder_trans (mem_preorder_iff.mpr (.inr ⟨child, below, child.mem_preorder_self⟩)) mem

theorem map_node_sites (node : Node) : node.sites.map Site.node = preorderAll node.children := by
  induction node using induction with
  | step node ih =>
      have child_nodes : ∀ child ∈ node.children.zipIdx,
          (childSites child).map Site.node = child.1.preorder := by
        intro child mem
        rw [childSites, List.map_cons, List.map_map, preorder_eq,
          ← ih child.1 (mem_zipIdx_children mem).1]
        rfl
      rw [sites_eq, List.map_flatMap, List.flatMap_congr child_nodes, preorderAll_eq,
        ← List.flatMap_map, List.zipIdx_map_fst]

end Node

end CodeGauge.Syntax
