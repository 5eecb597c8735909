import CodeGauge.Proofs.Measurement.Lines
import CodeGauge.Proofs.Syntax.Broken
import CodeGauge.Syntax.Expression

/-!
# What phrases show

A reader puts phrases together and makes nodes of them.  On the way to a tree no comment and no
string is lost (`Mark`), and no node becomes broken (`Node.IsWhole`).  Each way of changing a phrase
keeps both: it only adds to the marks, and what was whole stays whole (`Phrase.Derives`).
-/

namespace CodeGauge.Syntax

open Measurement

/-- What a tree shows of the lines of its text. -/
inductive Mark where
  | comment (row : Nat)
  | string (first last : Nat)
  deriving Repr, DecidableEq

def Label.mark? (label : Label) : Option Mark :=
  if label.kind = "comment" then some (.comment label.start.row)
  else if label.kind = "string" then some (.string label.start.row label.stopRow)
  else none

/-- The marks of some trees, apart from what is below a comment. -/
def marksOf (nodes : List Node) : List Mark :=
  (nodes.flatMap outsideComments).filterMap fun node => node.label.mark?

@[simp]
theorem marksOf_nil : marksOf [] = [] := rfl

@[simp]
theorem marksOf_append (first second : List Node) :
    marksOf (first ++ second) = marksOf first ++ marksOf second := by
  rw [marksOf, List.flatMap_append, List.filterMap_append]
  rfl

theorem marksOf_cons (node : Node) (others : List Node) :
    marksOf (node :: others) = marksOf [node] ++ marksOf others :=
  marksOf_append [node] others

theorem marksOf_eq_nil {nodes : List Node} (unmarked : ∀ node ∈ nodes, marksOf [node] = []) :
    marksOf nodes = [] := by
  induction nodes with
  | nil => rfl
  | cons node nodes ih =>
      obtain ⟨first, others⟩ := List.forall_mem_cons.mp unmarked
      rw [marksOf_cons, first, ih others, List.append_nil]

theorem marksOf_singleton (label : Label) (children : List Node) :
    marksOf [.mk label children] =
      label.mark?.toList ++ if label.kind = "comment" then [] else marksOf children := by
  rw [marksOf, List.flatMap_singleton, outsideComments_eq, Node.outsideCommentsAll_eq, isComment,
    Node.kind_mk, List.filterMap_cons]
  by_cases comment : label.kind = "comment"
  · simp [comment, Label.mark?]
  · simp only [comment, beq_iff_eq, if_false, Node.label_mk, Node.children_mk, marksOf]
    cases label.mark? <;> rfl

/-- A node shows what its children show, unless it is a comment. -/
theorem marksOf_children_subset {label : Label} (proper : label.kind ≠ "comment")
    (children : List Node) : marksOf children ⊆ marksOf [.mk label children] := by
  rw [marksOf_singleton, if_neg proper]
  exact List.subset_append_right _ _

theorem marksOf_withKind (label : Label) (kind : String) {before after : List Node}
    (old : label.kind ≠ "comment" ∧ label.kind ≠ "string")
    (new : kind ≠ "comment" ∧ kind ≠ "string") (same : marksOf before = marksOf after) :
    marksOf [.mk label before] = marksOf [.mk { label with kind } after] := by
  simp [marksOf_singleton, Label.mark?, old, new, same]

def Label.IsWhole (label : Label) : Prop :=
  label.isError = false ∧ label.isMissing = false ∧ label.hasError = false

namespace Node

/-- No node of a tree is broken or flagged. -/
def IsWhole (root : Node) : Prop := ∀ node ∈ root.preorder, node.label.IsWhole

theorem isWhole_mk_iff {label : Label} {children : List Node} :
    (mk label children).IsWhole ↔ label.IsWhole ∧ ∀ child ∈ children, child.IsWhole := by
  constructor
  · intro whole
    refine ⟨whole _ (mem_preorder_self _), fun child mem node below => whole node ?_⟩
    exact mem_preorder_iff.mpr (.inr ⟨child, mem, below⟩)
  · rintro ⟨own, below⟩ node mem
    rcases mem_preorder_iff.mp mem with rfl | ⟨child, child_mem, mem⟩
    · exact own
    · exact below child child_mem node mem

theorem IsWhole.withLabel {label other : Label} {children : List Node}
    (whole : (mk label children).IsWhole) (own : label.IsWhole → other.IsWhole) :
    (mk other children).IsWhole := by
  obtain ⟨label_whole, below⟩ := isWhole_mk_iff.mp whole
  exact isWhole_mk_iff.mpr ⟨own label_whole, below⟩

theorem isWhole_leaf (kind : String) (named : Bool) (start stop : Place) :
    (leaf kind named start stop).IsWhole :=
  isWhole_mk_iff.mpr ⟨⟨rfl, rfl, rfl⟩, fun _ mem => absurd mem List.not_mem_nil⟩

theorem IsWhole.isBroken_eq_false {root node : Node} (whole : root.IsWhole)
    (mem : node ∈ root.preorder) : node.isBroken = false := by
  obtain ⟨no_error, not_missing, -⟩ := whole node mem
  rw [isBroken, no_error, not_missing]
  rfl

/-- A whole tree is flagged rightly: nothing in it is broken or flagged. -/
theorem IsWhole.isFlagged {root : Node} (whole : root.IsWhole) : root.IsFlagged := by
  intro node mem
  constructor
  · intro flag
    exact absurd flag (by rw [(whole node mem).2.2]; exact Bool.false_ne_true)
  · rintro ⟨broken, below, is_broken⟩
    rw [whole.isBroken_eq_false (mem_preorder_trans below mem)] at is_broken
    exact absurd is_broken Bool.false_ne_true

end Node

def Item.IsWhole (item : Item) : Prop := (∀ node ∈ item.lead, node.IsWhole) ∧ item.node.IsWhole

def Item.shown (item : Item) : List Node := item.lead ++ item.visible

/-- An item that shows at least as much as another one, and is as whole. -/
structure Item.Derives (before after : Item) : Prop where
  marks : marksOf before.shown ⊆ marksOf after.shown
  whole : before.IsWhole → after.IsWhole

theorem Item.Derives.refl (item : Item) : item.Derives item := ⟨List.Subset.refl _, id⟩

theorem Item.Derives.ofNode {item : Item} {node : Node}
    (marks : marksOf [item.node] ⊆ marksOf [node]) (whole : item.node.IsWhole → node.IsWhole) :
    item.Derives { item with node } := by
  refine ⟨?_, fun item_whole => ⟨item_whole.1, whole item_whole.2⟩⟩
  rw [Item.shown, Item.shown, marksOf_append, marksOf_append]
  refine List.append_subset.mpr ⟨List.subset_append_left _ _, ?_⟩
  refine List.Subset.trans ?_ (List.subset_append_right _ _)
  cases hidden : item.hidden with
  | true =>
      rw [Item.visible, hidden, if_pos rfl]
      exact List.nil_subset _
  | false =>
      rw [Item.visible, Item.visible, hidden, if_neg Bool.false_ne_true]
      exact marks

namespace Phrase

def shown (phrase : Phrase) : List Node := phrase.flatMap Item.shown

def marks (phrase : Phrase) : List Mark := marksOf (shown phrase)

def IsWhole (phrase : Phrase) : Prop := ∀ item ∈ phrase, item.IsWhole

/-- A phrase that shows at least as much as another one, and is as whole. -/
structure Derives (before after : Phrase) : Prop where
  marks : Phrase.marks before ⊆ Phrase.marks after
  whole : IsWhole before → IsWhole after

variable {p q r s : Phrase} {kind : String}

@[simp]
theorem marks_nil : marks [] = [] := rfl

@[simp]
theorem marks_append (p q : Phrase) : marks (p ++ q) = marks p ++ marks q := by
  rw [marks, shown, List.flatMap_append, marksOf_append]
  rfl

theorem marks_cons (item : Item) (p : Phrase) :
    marks (item :: p) = marksOf item.shown ++ marks p := by
  rw [marks, shown, List.flatMap_cons, marksOf_append]
  rfl

theorem isWhole_nil : IsWhole [] := fun _ mem => absurd mem List.not_mem_nil

theorem isWhole_append_iff : IsWhole (p ++ q) ↔ IsWhole p ∧ IsWhole q := List.forall_mem_append

theorem isWhole_cons_iff {item : Item} : IsWhole (item :: p) ↔ item.IsWhole ∧ IsWhole p :=
  List.forall_mem_cons

namespace Derives

theorem refl (p : Phrase) : Derives p p := ⟨List.Subset.refl _, id⟩

theorem trans (first : Derives p q) (second : Derives q r) : Derives p r :=
  ⟨List.Subset.trans first.marks second.marks, second.whole ∘ first.whole⟩

theorem append (first : Derives p q) (second : Derives r s) : Derives (p ++ r) (q ++ s) := by
  refine ⟨?_, fun whole => ?_⟩
  · rw [marks_append, marks_append]
    exact List.append_subset.mpr
      ⟨List.Subset.trans first.marks (List.subset_append_left _ _),
        List.Subset.trans second.marks (List.subset_append_right _ _)⟩
  · obtain ⟨left, right⟩ := isWhole_append_iff.mp whole
    exact isWhole_append_iff.mpr ⟨first.whole left, second.whole right⟩

theorem concat (p : Phrase) {added : Phrase} (added_whole : IsWhole added) :
    Derives p (p ++ added) := by
  refine ⟨?_, fun whole => isWhole_append_iff.mpr ⟨whole, added_whole⟩⟩
  rw [marks_append]
  exact List.subset_append_left _ _

theorem cons {first second : Item} (items : first.Derives second) (rest : Derives p q) :
    Derives (first :: p) (second :: q) := by
  refine ⟨?_, fun whole => ?_⟩
  · rw [marks_cons, marks_cons]
    exact List.append_subset.mpr
      ⟨List.Subset.trans items.marks (List.subset_append_left _ _),
        List.Subset.trans rest.marks (List.subset_append_right _ _)⟩
  · obtain ⟨head, tail⟩ := isWhole_cons_iff.mp whole
    exact isWhole_cons_iff.mpr ⟨items.whole head, rest.whole tail⟩

theorem map {change : Item → Item} (items : ∀ item : Item, item.Derives (change item)) :
    ∀ p : Phrase, Derives p (List.map change p)
  | [] => refl []
  | item :: p => cons (items item) (map items p)

theorem mapM {change : Item → Option Item}
    (items : ∀ item changed, change item = some changed → item.Derives changed) :
    ∀ {p q : Phrase}, List.mapM change p = some q → Derives p q
  | [], q, changed => by
      obtain rfl := Option.some.inj changed
      exact refl []
  | item :: p, q, changed => by
      rw [List.mapM_cons] at changed
      obtain ⟨first, first_eq, changed⟩ := Option.bind_eq_some_iff.mp changed
      obtain ⟨others, others_eq, changed⟩ := Option.bind_eq_some_iff.mp changed
      obtain rfl := Option.some.inj changed
      exact cons (items item first first_eq) (mapM items others_eq)

end Derives

theorem shown_cons (first : Item) (others : Phrase) :
    shown (first :: others) = first.lead ++ nodes (first :: others) := by
  rw [shown, List.flatMap_cons, nodes, Item.shown, List.append_assoc]
  rfl

theorem isWhole_of_mem_shown {node : Node} (whole : IsWhole p) (mem : node ∈ shown p) :
    node.IsWhole := by
  obtain ⟨item, item_mem, mem⟩ := List.mem_flatMap.mp mem
  rcases List.mem_append.mp mem with lead | visible
  · exact (whole item item_mem).1 node lead
  · rw [Item.visible] at visible
    split at visible
    · exact absurd visible List.not_mem_nil
    · rw [List.mem_singleton.mp visible]
      exact (whole item item_mem).2

theorem Derives.wrapAs {named : Bool} (proper : kind ≠ "comment") (derived : Derives p q) :
    Derives p (wrapAs named kind q) := by
  refine derived.trans ?_
  cases q with
  | nil => exact .refl []
  | cons first others =>
      refine ⟨?_, fun whole => ?_⟩
      · rw [Phrase.wrapAs, Phrase.marks, Phrase.marks, shown_cons, shown, List.flatMap_singleton,
          Item.shown,
          marksOf_append, marksOf_append]
        refine List.append_subset.mpr ⟨List.subset_append_left _ _, ?_⟩
        exact List.Subset.trans (marksOf_children_subset proper _) (List.subset_append_right _ _)
      · have below : ∀ node ∈ shown (first :: others), node.IsWhole :=
          fun node => isWhole_of_mem_shown whole
        rw [shown_cons, List.forall_mem_append] at below
        refine List.forall_mem_singleton.mpr ⟨below.1, ?_⟩
        exact Node.isWhole_mk_iff.mpr ⟨⟨rfl, rfl, rfl⟩, below.2⟩

theorem Derives.wrap (proper : kind ≠ "comment") (derived : Derives p q) :
    Derives p (wrap kind q) := derived.wrapAs proper

theorem Derives.named {field : String} (derived : Derives p q) : Derives p (named field q) := by
  refine derived.trans (Derives.map (fun item => ?_) q)
  obtain ⟨lead, ⟨label, children⟩, hidden⟩ := item
  refine .ofNode ?_ fun whole => whole.withLabel id
  rw [marksOf_singleton, marksOf_singleton]
  exact List.Subset.refl _

end Phrase

end CodeGauge.Syntax
