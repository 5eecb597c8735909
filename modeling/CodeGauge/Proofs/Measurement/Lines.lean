import CodeGauge.Proofs.Measurement.LineScan
import CodeGauge.Proofs.Syntax.Address

/-!
# Line counts as counts of classes

A site of a tree is uncommented if no comment stands above it.  The scan for lines meets just these
sites (`outsideComments_eq_map`), so every count of a text with its tree is the number of the lines
of a class, of the rows of comments, or of the logical lines (`countLines_counts_classes`).
-/

namespace CodeGauge

open Syntax Text

namespace Syntax.Node

open Measurement

def allSites (node : Node) : List Site := ⟨[], node⟩ :: node.sites

/-- No comment stands above an address. -/
def IsUncommented (root : Node) (address : List Nat) : Prop :=
  ∀ depth < address.length, (root.at? (address.take depth)).any isComment = false

instance instDecidableIsUncommented (root : Node) (address : List Nat) :
    Decidable (root.IsUncommented address) :=
  inferInstanceAs (Decidable (∀ depth < _, _))

/-- The sites of a tree above which there is no comment, in preorder. -/
def uncommented (root : Node) : List Site :=
  root.allSites.filter fun site => root.IsUncommented site.address

theorem childSites_eq_map (child : Node × Nat) :
    childSites child = child.1.allSites.map (Site.under child.2) := rfl

theorem isUncommented_nil (root : Node) : root.IsUncommented [] := by
  intro depth above
  exact absurd above (Nat.not_lt_zero depth)

theorem isUncommented_cons_iff {root child : Node} {place : Nat}
    (at_place : root.children[place]? = some child) {address : List Nat} :
    root.IsUncommented (place :: address) ↔
      isComment root = false ∧ child.IsUncommented address := by
  have below (depth : Nat) :
      root.at? ((place :: address).take (depth + 1)) = child.at? (address.take depth) := by
    rw [List.take_succ_cons, at?_cons, at_place, Option.bind_some]
  constructor
  · intro clear
    refine ⟨clear 0 (Nat.zero_lt_succ _), fun depth above => ?_⟩
    rw [← below]
    exact clear (depth + 1) (Nat.succ_lt_succ above)
  · rintro ⟨plain, clear⟩ depth above
    cases depth with
    | zero => exact plain
    | succ depth =>
        rw [below]
        exact clear depth (Nat.lt_of_succ_lt_succ above)

/-- Below a comment nothing is uncommented, and below another node what is so below a child. -/
theorem uncommented_eq (root : Node) :
    root.uncommented =
      ⟨[], root⟩ :: if isComment root then [] else
        root.children.zipIdx.flatMap fun child =>
          child.1.uncommented.map (Site.under child.2) := by
  rw [uncommented, allSites, List.filter_cons_of_pos (by simpa using isUncommented_nil root),
    sites_eq, List.filter_flatMap]
  have in_child : ∀ child ∈ root.children.zipIdx,
      (childSites child).filter (fun site => root.IsUncommented site.address) =
        if isComment root then [] else child.1.uncommented.map (Site.under child.2) := by
    intro child mem
    have at_place := (mem_zipIdx_children mem).2
    rw [childSites_eq_map, List.filter_map]
    cases commented : isComment root with
    | true => simp [Function.comp_def, isUncommented_cons_iff at_place, commented]
    | false => simp [Function.comp_def, isUncommented_cons_iff at_place, commented, uncommented]
  rw [List.flatMap_congr in_child]
  cases isComment root <;> simp

theorem outsideCommentsAll_eq (nodes : List Node) :
    outsideCommentsAll nodes = nodes.flatMap outsideComments := by
  induction nodes with
  | nil => rfl
  | cons node others ih => rw [outsideCommentsAll, ih, List.flatMap_cons]

theorem outsideComments_eq_map (root : Node) :
    outsideComments root = root.uncommented.map Site.node := by
  induction root using induction with
  | step root ih =>
      have child_nodes : ∀ child ∈ root.children.zipIdx,
          (child.1.uncommented.map (Site.under child.2)).map Site.node =
            outsideComments child.1 := by
        intro child mem
        rw [ih child.1 (mem_zipIdx_children mem).1, List.map_map]
        rfl
      rw [outsideComments_eq, uncommented_eq, List.map_cons]
      cases isComment root with
      | true => rfl
      | false =>
          simp only [Bool.false_eq_true, if_false]
          rw [List.map_flatMap, List.flatMap_congr child_nodes, outsideCommentsAll_eq,
            ← List.flatMap_map Prod.fst, List.zipIdx_map_fst]

end Syntax.Node

namespace Measurement

/-- Some string statement that is not below a comment spans a row of a text. -/
def InString (root : Node) (row : Nat) : Prop :=
  ∃ site ∈ root.uncommented, isStringStatement site.node = true ∧ Spans site.node row

instance InString.instDecidable (root : Node) (row : Nat) : Decidable (InString root row) :=
  inferInstanceAs (Decidable (∃ site ∈ _, _))

/-- The class of a line of a given row and text. -/
def classOf (root : Node) (row : Nat) (line : List Char) : LineClass :=
  if InString root row then .multi
  else if trim line = [] then .blank
  else if (trim line).head? = some '#' then .comment
  else .source

theorem lineClass_eq_classOf (root : Node) (row : Nat) (line : List Char) :
    lineClass (stringRowsOf root) row line = classOf root row line := by
  have spanned : (stringRowsOf root).contains row = true ↔ InString root row := by
    rw [RowSet.contains_iff, mem_stringRowsOf_iff, Node.outsideComments_eq_map, InString]
    simp only [List.mem_map, exists_exists_and_eq_and]
  rw [lineClass, classOf]
  by_cases inside : InString root row
  · rw [if_pos inside, if_pos (spanned.mpr inside)]
  · rw [if_neg inside, if_neg (mt spanned.mp inside)]
    cases trim line with
    | nil => rfl
    | cons first others => simp

/-- A statement is never a clause, so a logical line is counted for one reason only. -/
theorem countP_isLogical (nodes : List Node) :
    nodes.countP isLogical =
      (nodes.countP fun node =>
        "_statement".toList.isSuffixOf node.kind.toList && node.label.named) +
      nodes.countP fun node => clauseKinds.contains node.kind := by
  have apart : ∀ kind ∈ clauseKinds, "_statement".toList.isSuffixOf kind.toList = false := by
    decide
  induction nodes with
  | nil => rfl
  | cons node nodes ih =>
      rw [List.countP_cons, List.countP_cons, List.countP_cons, ih, isLogical]
      cases clause : clauseKinds.contains node.kind with
      | true =>
          rw [apart node.kind (List.contains_iff_mem.mp clause)]
          simp only [Bool.false_and, Bool.false_or, if_true, if_false, Bool.false_eq_true]
          omega
      | false =>
          simp only [Bool.or_false, if_false, Bool.false_eq_true]
          omega

theorem lineClasses_eq_map (text : List Char) (root : Node) :
    lineClasses (stringRowsOf root) text =
      (lines text).zipIdx.map fun (line, row) => classOf root row line :=
  List.map_congr_left fun entry _ => lineClass_eq_classOf root entry.2 entry.1

theorem total_countLines (text : List Char) (root : Node) :
    (countLines text root).total = (lines text).length := by
  rw [(countLines_eq text root).1, lineClasses_eq_map, List.length_map, List.length_zipIdx]

theorem comments_countLines_eq_card (text : List Char) (root : Node) :
    (countLines text root).comments =
      ((root.uncommented.filter fun site => isComment site.node).map
        fun site => site.node.label.start.row).toFinset.card := by
  rw [comments_countLines, Node.outsideComments_eq_map, List.filter_map, List.map_map]
  rfl

/-- Each physical line is in one class, and the counts of lines are the numbers of lines in the
classes; no subtraction on the way to the lines of source falls below zero.  The comments are the
rows on which comments begin, and the logical lines are the statements and the clauses, in both
cases of what is not below a comment. -/
theorem countLines_counts_classes (text : List Char) (root : Node) :
    let count := countLines text root
    let classes := (lines text).zipIdx.map fun (line, row) => classOf root row line
    count.total = (lines text).length ∧ count.multi = classes.count .multi ∧
    count.blank = classes.count .blank ∧ count.onlyComment = classes.count .comment ∧
    count.source = classes.count .source ∧
    count.total = count.source + count.blank + count.multi + count.onlyComment ∧
    count.source = count.total - count.blank - count.multi - count.onlyComment ∧
    count.blank ≤ count.total ∧ count.multi ≤ count.total - count.blank ∧
    count.onlyComment ≤ count.total - count.blank - count.multi ∧
    count.comments = ((root.uncommented.filter fun site => isComment site.node).map
      fun site => site.node.label.start.row).toFinset.card ∧
    count.logical =
      (root.uncommented.countP fun site =>
        "_statement".toList.isSuffixOf site.node.kind.toList && site.node.label.named) +
      root.uncommented.countP fun site => clauseKinds.contains site.node.kind := by
  intro count classes
  have classes_eq : lineClasses (stringRowsOf root) text = classes := lineClasses_eq_map text root
  obtain ⟨total, multi, blank, onlyComment, source⟩ :
      count.total = classes.length ∧ count.multi = classes.count .multi ∧
        count.blank = classes.count .blank ∧ count.onlyComment = classes.count .comment ∧
        count.source = classes.count .source := classes_eq ▸ countLines_eq text root
  have every_line : classes.length = (lines text).length := by simp [classes]
  have split := length_eq_sum_counts classes
  have comments := comments_countLines_eq_card text root
  have logical := logical_countLines text root
  rw [Node.outsideComments_eq_map, countP_isLogical, List.countP_map, List.countP_map] at logical
  refine ⟨total.trans every_line, multi, blank, onlyComment, source, ?_, rfl, ?_, ?_, ?_,
    comments, logical⟩
  · omega
  · omega
  · omega
  · omega

end Measurement

end CodeGauge
