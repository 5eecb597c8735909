import CodeGauge.Proofs.Syntax.Address

/-!
# Trees without some of their comments

A comment is a leaf that no field names, and it may stand below any node.  Stripping takes comments
out of a tree at any set of addresses and leaves the labels of all other nodes as they are
(`map_label_preorder_strip`).  A view that reads the children of a node one by one does not see the
difference if it passes over comments and sees none in each child (`view_children_strip`).
-/

namespace CodeGauge.Syntax

/-- Whether a child is a comment that may be missing: a leaf of that kind that no field names.  An
anonymous child of a comparison is one of its operators, whatever its kind. -/
def isLooseComment (parent : Label) (child : Node) : Bool :=
  child.kind == "comment" && child.label.field.isNone && child.children.isEmpty &&
    (child.label.named || parent.kind != "comparison_operator")

namespace Node

mutual

/-- The tree without its loose comments at some addresses. -/
def strip (chosen : List Nat → Bool) : Node → Node
  | mk label children => mk label (stripFrom chosen label 0 children)

def stripFrom (chosen : List Nat → Bool) (parent : Label) (place : Nat) : List Node → List Node
  | [] => []
  | child :: others =>
    if isLooseComment parent child && chosen [place] then
      stripFrom chosen parent (place + 1) others
    else
      child.strip (fun address => chosen (place :: address)) ::
        stripFrom chosen parent (place + 1) others

end

@[simp]
theorem label_strip (chosen : List Nat → Bool) (node : Node) :
    (node.strip chosen).label = node.label := by
  cases node with
  | mk label children => rfl

@[simp]
theorem kind_strip (chosen : List Nat → Bool) (node : Node) :
    (node.strip chosen).kind = node.kind := by
  rw [kind, label_strip, kind]

theorem children_strip (chosen : List Nat → Bool) (node : Node) :
    (node.strip chosen).children = stripFrom chosen node.label 0 node.children := by
  cases node with
  | mk label children => rfl

theorem kind_of_isLooseComment {parent : Label} {child : Node}
    (comment : isLooseComment parent child = true) : child.kind = "comment" := by
  simp only [isLooseComment, Bool.and_eq_true, beq_iff_eq] at comment
  exact comment.1.1.1

theorem field_of_isLooseComment {parent : Label} {child : Node}
    (comment : isLooseComment parent child = true) : child.label.field = none := by
  simp only [isLooseComment, Bool.and_eq_true, Option.isNone_iff_eq_none] at comment
  exact comment.1.1.2

theorem children_of_isLooseComment {parent : Label} {child : Node}
    (comment : isLooseComment parent child = true) : child.children = [] := by
  simp only [isLooseComment, Bool.and_eq_true, List.isEmpty_iff] at comment
  exact comment.1.2

theorem named_of_isLooseComment {parent : Label} {child : Node}
    (comparison : parent.kind = "comparison_operator")
    (comment : isLooseComment parent child = true) : child.label.named = true := by
  simpa [isLooseComment, comparison] using And.right (Bool.and_eq_true_iff.mp comment)

/-- A view of a list of nodes that is put together node by node, that passes over the comments of a
node and that stripping a child does not change, is the same for the stripped children. -/
theorem view_children_strip {β : Type} (view : List Node → β) (step : Node → β → β)
    (cons : ∀ child others, view (child :: others) = step child (view others)) (node : Node)
    (blind : ∀ child, isLooseComment node.label child = true → ∀ rest, step child rest = rest)
    (same : ∀ child ∈ node.children, ∀ chosen, step (child.strip chosen) = step child)
    (chosen : List Nat → Bool) : view (node.strip chosen).children = view node.children := by
  rw [children_strip]
  generalize node.children = children at same
  generalize 0 = place
  induction children generalizing place with
  | nil => rfl
  | cons child others ih =>
      have rest := ih (fun later mem => same later (List.mem_cons_of_mem child mem)) (place + 1)
      rw [stripFrom, cons]
      split
      · rename_i dropped
        rw [rest, blind child (Bool.and_eq_true_iff.mp dropped).1]
      · rw [cons, rest, same child List.mem_cons_self]

theorem map_label_child?_strip (chosen : List Nat → Bool) (node : Node) (name : String) :
    ((node.strip chosen).child? name).map label = (node.child? name).map label := by
  refine view_children_strip
    (fun children =>
      (children.find? fun child => child.label.field == some name).map label)
    (fun child rest =>
      if child.label.field == some name then some child.label else rest)
    (fun child others => ?_) node (fun child comment rest => ?_) (fun child _ chosen => ?_) chosen
  · rw [List.find?_cons]
    cases child.label.field == some name <;> rfl
  · simp [field_of_isLooseComment comment]
  · rw [label_strip]

theorem isSome_child?_strip (chosen : List Nat → Bool) (node : Node) (name : String) :
    ((node.strip chosen).child? name).isSome = (node.child? name).isSome := by
  rw [← Option.isSome_map (f := label), map_label_child?_strip, Option.isSome_map]

theorem bind_text?_child?_strip (source : List Char) (chosen : List Nat → Bool) (node : Node)
    (name : String) :
    ((node.strip chosen).child? name).bind (text? source) =
      (node.child? name).bind (text? source) := by
  have by_label (found : Option Node) : found.bind (text? source) =
      (found.map label).bind fun label =>
        (Text.slice source label.start.byte label.stopByte).map String.ofList := by
    cases found <;> rfl
  rw [by_label, map_label_child?_strip, ← by_label]

/-- What the nodes of a tree give, comments nothing, is what those of the stripped tree give. -/
theorem flatMap_preorder_strip {β : Type} {image : Node → List β}
    (same : ∀ node chosen, image (strip chosen node) = image node)
    (blind : ∀ parent child, isLooseComment parent child = true → image child = [])
    (node : Node) (chosen : List Nat → Bool) :
    (node.strip chosen).preorder.flatMap image = node.preorder.flatMap image := by
  induction node using induction generalizing chosen with
  | step node ih =>
      rw [preorder_eq, preorder_eq, List.flatMap_cons, List.flatMap_cons, same]
      congr 1
      refine view_children_strip (fun children => (preorderAll children).flatMap image)
        (fun child rest => child.preorder.flatMap image ++ rest)
        (fun child others => ?_) node (fun child comment rest => ?_) (fun child mem chosen => ?_)
        chosen
      · rw [preorderAll, List.flatMap_append]
      · simp [preorder_eq, children_of_isLooseComment comment, preorderAll,
          blind node.label child comment]
      · rw [ih child mem]

def isStripped (chosen : List Nat → Bool) (node : Node) (site : Site) : Bool :=
  chosen site.address &&
    (node.at? site.address.dropLast).any fun parent => isLooseComment parent.label site.node

theorem preorderAll_stripFrom (chosen : List Nat → Bool) (parent : Label) (place : Nat)
    (children : List Node) :
    preorderAll (stripFrom chosen parent place children) =
      (children.zipIdx place).flatMap fun child =>
        if isLooseComment parent child.1 && chosen [child.2] then []
        else (child.1.strip fun address => chosen (child.2 :: address)).preorder := by
  induction children generalizing place with
  | nil => rfl
  | cons child others ih =>
      rw [stripFrom, List.zipIdx_cons, List.flatMap_cons, ← ih]
      split <;> rfl

theorem isStripped_under {node child : Node} {place : Nat}
    (at_place : node.children[place]? = some child) (chosen : List Nat → Bool) {site : Site}
    (deeper : site.address ≠ []) :
    isStripped chosen node (site.under place) =
      isStripped (fun address => chosen (place :: address)) child site := by
  rw [isStripped, isStripped, Site.address_under, Site.node_under,
    List.dropLast_cons_of_ne_nil deeper, at?_cons, at_place, Option.bind_some]

/-- The nodes of a stripped tree have the labels of the nodes of the tree in their order, but for
the loose comments at the chosen addresses. -/
theorem map_label_preorder_strip (chosen : List Nat → Bool) (node : Node) :
    (node.strip chosen).preorder.map label =
      node.label :: (node.sites.filter fun site => !isStripped chosen node site).map
        fun site => site.node.label := by
  induction node using induction generalizing chosen with
  | step node ih =>
      rw [preorder_eq, List.map_cons, label_strip, children_strip, preorderAll_stripFrom, sites_eq,
        List.filter_flatMap, List.map_flatMap, List.map_flatMap]
      congr 1
      refine List.flatMap_congr fun child mem => ?_
      obtain ⟨below, at_place⟩ := mem_zipIdx_children mem
      have own : isStripped chosen node ⟨[child.2], child.1⟩ =
          (isLooseComment node.label child.1 && chosen [child.2]) := by
        simp [isStripped, Bool.and_comm]
      have lower : ∀ site ∈ child.1.sites,
          ((fun site => !isStripped chosen node site) ∘ Site.under child.2) site =
            !isStripped (fun address => chosen (child.2 :: address)) child.1 site := by
        intro site site_mem
        rw [Function.comp_apply, isStripped_under at_place chosen (mem_sites_iff.mp site_mem).1]
      rw [childSites, List.filter_cons, own, List.filter_map, List.filter_congr lower]
      cases dropped : isLooseComment node.label child.1 && chosen [child.2] with
      | false => simp [ih child.1 below, Function.comp_def]
      | true =>
          -- a comment that goes has no sites below it
          have leaf := children_of_isLooseComment (Bool.and_eq_true_iff.mp dropped).1
          simp [sites_eq, leaf]

end Node

end CodeGauge.Syntax
