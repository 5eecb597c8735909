import CodeGauge.Measurement.LineCount
import Mathlib.Data.Finset.Card

/-!
# The two passes over lines

The scan of a tree meets the nodes that are not below a comment, in preorder (`visit_eq_foldl`), so
what it has noted at the end is a count and two unions over these nodes.  The pass over the physical
lines counts each line in its class (`foldl_add`).
-/

namespace CodeGauge.Measurement

open Syntax Text

namespace RowSet

variable {set : RowSet} {row other : Nat}

theorem mem_rows_insert : other ∈ (set.insert row).rows ↔ other = row ∨ other ∈ set.rows := by
  unfold insert
  split
  · rename_i held
    constructor
    · exact .inr
    · rintro (rfl | mem)
      · exact held
      · exact mem
  · exact List.mem_cons

theorem mem_rows_foldl_insert (rows : List Nat) :
    row ∈ (rows.foldl insert set).rows ↔ row ∈ rows ∨ row ∈ set.rows := by
  induction rows generalizing set with
  | nil => simp
  | cons first rows ih =>
      rw [List.foldl_cons, ih, mem_rows_insert, List.mem_cons]
      exact or_left_comm.trans or_assoc.symm

theorem mem_rows_insertSpan {first last : Nat} :
    row ∈ (set.insertSpan first last).rows ↔ (first ≤ row ∧ row ≤ last) ∨ row ∈ set.rows := by
  have span : row ∈ List.range' first (last + 1 - first) ↔ first ≤ row ∧ row ≤ last := by
    rw [List.mem_range'_1]
    omega
  rw [insertSpan, mem_rows_foldl_insert, span]

theorem contains_iff : set.contains row = true ↔ row ∈ set.rows := List.contains_iff_mem

theorem size_eq_card (set : RowSet) : set.size = set.rows.toFinset.card :=
  (List.toFinset_card_of_nodup set.nodup).symm

end RowSet

mutual

/-- A node and all nodes below it that are not below a comment, in preorder. -/
def outsideComments : Node → List Node
  | .mk label children =>
    .mk label children ::
      if label.kind == "comment" then [] else outsideCommentsAll children

def outsideCommentsAll : List Node → List Node
  | [] => []
  | node :: others => outsideComments node ++ outsideCommentsAll others

end

theorem outsideComments_eq (node : Node) :
    outsideComments node =
      node :: if isComment node then [] else outsideCommentsAll node.children := by
  cases node with
  | mk label children => rfl

theorem isLogical_of_isComment {node : Node} (comment : isComment node = true) :
    isLogical node = false := by
  have statement : "_statement".toList.isSuffixOf "comment".toList = false := by decide
  rw [isLogical, eq_of_beq comment, statement]
  rfl

theorem isStringStatement_of_isComment {node : Node} (comment : isComment node = true) :
    isStringStatement node = false := by
  rw [isStringStatement, eq_of_beq comment]
  rfl

def Spans (node : Node) (row : Nat) : Prop := node.label.start.row ≤ row ∧ row ≤ node.label.stopRow

instance Spans.instDecidable (node : Node) (row : Nat) : Decidable (Spans node row) :=
  inferInstanceAs (Decidable (_ ∧ _))

namespace LineScan

mutual

/-- A scan meets the nodes that are not below a comment, in preorder. -/
theorem visit_eq_foldl (scan : LineScan) :
    ∀ node, scan.visit node = (outsideComments node).foldl meet scan
  | .mk label children => by
      rw [visit, outsideComments, List.foldl_cons]
      split
      · rfl
      · exact visitAll_eq_foldl _ children

theorem visitAll_eq_foldl (scan : LineScan) :
    ∀ nodes, scan.visitAll nodes = (outsideCommentsAll nodes).foldl meet scan
  | [] => rfl
  | node :: others => by
      rw [visitAll, outsideCommentsAll, List.foldl_append, visit_eq_foldl scan node]
      exact visitAll_eq_foldl _ others

end

variable {scan : LineScan} {node : Node} {row : Nat}

theorem logical_meet :
    (scan.meet node).logical = scan.logical + if isLogical node then 1 else 0 := by
  unfold meet
  cases comment : isComment node with
  | true => simp [isLogical_of_isComment comment]
  | false => cases isLogical node <;> rfl

theorem mem_commentRows_meet :
    row ∈ (scan.meet node).commentRows.rows ↔
      (isComment node = true ∧ node.label.start.row = row) ∨ row ∈ scan.commentRows.rows := by
  unfold meet
  cases isComment node with
  | true => simpa [RowSet.mem_rows_insert] using or_congr_left eq_comm
  | false => simp

theorem mem_stringRows_meet :
    row ∈ (scan.meet node).stringRows.rows ↔
      (isStringStatement node = true ∧ Spans node row) ∨ row ∈ scan.stringRows.rows := by
  unfold meet
  cases comment : isComment node with
  | true => simp [isStringStatement_of_isComment comment]
  | false =>
      cases isStringStatement node with
      | true => simp [RowSet.mem_rows_insertSpan, Spans]
      | false => simp

theorem logical_foldl_meet (nodes : List Node) (scan : LineScan) :
    (nodes.foldl meet scan).logical = scan.logical + nodes.countP isLogical := by
  induction nodes generalizing scan with
  | nil => rfl
  | cons node nodes ih =>
      rw [List.foldl_cons, ih, logical_meet, List.countP_cons]
      omega

theorem mem_commentRows_foldl_meet (nodes : List Node) (scan : LineScan) :
    row ∈ (nodes.foldl meet scan).commentRows.rows ↔
      (∃ node ∈ nodes, isComment node = true ∧ node.label.start.row = row) ∨
        row ∈ scan.commentRows.rows := by
  induction nodes generalizing scan with
  | nil => simp
  | cons node nodes ih =>
      rw [List.foldl_cons, ih, mem_commentRows_meet, List.exists_mem_cons_iff]
      exact or_left_comm.trans or_assoc.symm

theorem mem_stringRows_foldl_meet (nodes : List Node) (scan : LineScan) :
    row ∈ (nodes.foldl meet scan).stringRows.rows ↔
      (∃ node ∈ nodes, isStringStatement node = true ∧ Spans node row) ∨
        row ∈ scan.stringRows.rows := by
  induction nodes generalizing scan with
  | nil => simp
  | cons node nodes ih =>
      rw [List.foldl_cons, ih, mem_stringRows_meet, List.exists_mem_cons_iff]
      exact or_left_comm.trans or_assoc.symm

end LineScan

def lineClasses (stringRows : RowSet) (text : List Char) : List LineClass :=
  (lines text).zipIdx.map fun (line, row) => lineClass stringRows row line

namespace LineTally

theorem foldl_add (classes : List LineClass) (tally : LineTally) :
    classes.foldl add tally =
      ⟨tally.total + classes.length, tally.multi + classes.count .multi,
        tally.blank + classes.count .blank, tally.onlyComment + classes.count .comment⟩ := by
  induction classes generalizing tally with
  | nil => rfl
  | cons first classes ih =>
      rw [List.foldl_cons, ih]
      cases first <;> simp [add, Nat.add_assoc, Nat.add_comm 1]

theorem ofText_eq (stringRows : RowSet) (text : List Char) :
    ofText stringRows text =
      ⟨(lineClasses stringRows text).length, (lineClasses stringRows text).count .multi,
        (lineClasses stringRows text).count .blank,
        (lineClasses stringRows text).count .comment⟩ := by
  have folded : ofText stringRows text = (lineClasses stringRows text).foldl add start := by
    rw [ofText, lineClasses, List.foldl_map]
  rw [folded, foldl_add]
  simp [start]

end LineTally

theorem length_eq_sum_counts (classes : List LineClass) :
    classes.length =
      classes.count .source + classes.count .blank + classes.count .multi +
        classes.count .comment := by
  induction classes with
  | nil => rfl
  | cons first classes ih =>
      rw [List.length_cons, ih]
      cases first <;> simp <;> omega

/-- The rows that string statements of a tree span. -/
def stringRowsOf (root : Node) : RowSet := (LineScan.start.visit root).stringRows

theorem mem_stringRowsOf_iff {root : Node} {row : Nat} :
    row ∈ (stringRowsOf root).rows ↔
      ∃ node ∈ outsideComments root, isStringStatement node = true ∧ Spans node row := by
  rw [stringRowsOf, LineScan.visit_eq_foldl, LineScan.mem_stringRows_foldl_meet]
  exact or_iff_left List.not_mem_nil

theorem logical_countLines (text : List Char) (root : Node) :
    (countLines text root).logical = (outsideComments root).countP isLogical := by
  have scanned : (countLines text root).logical = (LineScan.start.visit root).logical := rfl
  rw [scanned, LineScan.visit_eq_foldl, LineScan.logical_foldl_meet]
  exact Nat.zero_add _

theorem comments_countLines (text : List Char) (root : Node) :
    (countLines text root).comments =
      (((outsideComments root).filter isComment).map
        fun node => node.label.start.row).toFinset.card := by
  have scanned : (countLines text root).comments =
      (LineScan.start.visit root).commentRows.size := rfl
  rw [scanned, RowSet.size_eq_card]
  congr 1
  ext row
  rw [List.mem_toFinset, List.mem_toFinset, LineScan.visit_eq_foldl,
    LineScan.mem_commentRows_foldl_meet]
  simp only [LineScan.start, RowSet.empty, List.not_mem_nil, or_false, List.mem_map,
    List.mem_filter, and_assoc]

/-- The lines of a text by their classes; what is left after three classes are those of source. -/
theorem countLines_eq (text : List Char) (root : Node) :
    let classes := lineClasses (stringRowsOf root) text
    let count := countLines text root
    count.total = classes.length ∧ count.multi = classes.count .multi ∧
      count.blank = classes.count .blank ∧ count.onlyComment = classes.count .comment ∧
      count.source = classes.count .source := by
  intro classes count
  have tally : LineTally.ofText (LineScan.start.visit root).stringRows text = _ :=
    LineTally.ofText_eq _ _
  have split := length_eq_sum_counts classes
  refine ⟨congrArg LineTally.total tally, congrArg LineTally.multi tally,
    congrArg LineTally.blank tally, congrArg LineTally.onlyComment tally, ?_⟩
  have rest : count.source = classes.length - classes.count .blank - classes.count .multi -
      classes.count .comment := by
    change _ - _ - _ - _ = _
    rw [tally]
    rfl
  omega

end CodeGauge.Measurement
