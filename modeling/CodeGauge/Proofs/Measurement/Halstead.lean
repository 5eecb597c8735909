import CodeGauge.Measurement.Analyzer
import CodeGauge.Measurement.Figures
import CodeGauge.Measurement.Halstead
import CodeGauge.Proofs.Syntax.Address
import CodeGauge.Syntax.Statement
import Mathlib.Analysis.SpecialFunctions.Log.Base
import Mathlib.Analysis.SpecialFunctions.Trigonometric.Basic
import Mathlib.Data.Finset.Card

/-!
# Operators and operands

A walk over a tree meets its nodes in preorder.  Where every node spans a text, the length is the
number of the occurrences of operators and operands at every depth and the vocabulary that of the
different texts among them; and where every application has an operator and an operand, the volume
is zero only if nothing is applied at all (`halstead_counts_occurrences`).  The volume is exact over
the real numbers.
-/

namespace CodeGauge.Measurement

noncomputable instance Quantity.instReal : Quantity ℝ where
  zero := 0
  ofCount := Nat.cast

noncomputable instance Analytic.instReal : Analytic ℝ where
  ln := Real.log
  log2 := Real.logb 2
  sin := Real.sin
  sqrt := Real.sqrt
  pi := Real.pi
  decidableLE := inferInstance
  decidableLT := inferInstance

@[simp]
theorem ofCount_real (count : Nat) : (ofCount count : ℝ) = count := rfl

@[simp]
theorem log2_real (x : ℝ) : Analytic.log2 x = Real.logb 2 x := rfl

open Syntax

namespace Occurrences

variable (occurrences : Occurrences)

@[simp]
theorem addAll_nil : occurrences.addAll [] = occurrences := rfl

theorem addAll_cons (text : String) (texts : List String) :
    occurrences.addAll (text :: texts) = (occurrences.add text).addAll texts := rfl

theorem addAll_append (first second : List String) :
    occurrences.addAll (first ++ second) = (occurrences.addAll first).addAll second :=
  List.foldl_append

theorem count_add (text : String) : (occurrences.add text).count = occurrences.count + 1 := by
  unfold add
  split <;> rfl

theorem mem_texts_add {text other : String} :
    other ∈ (occurrences.add text).texts ↔ other = text ∨ other ∈ occurrences.texts := by
  unfold add
  split
  · rename_i held
    exact (or_iff_right_of_imp fun same => same ▸ held).symm
  · exact List.mem_cons

theorem count_addAll (texts : List String) :
    (occurrences.addAll texts).count = occurrences.count + texts.length := by
  induction texts generalizing occurrences with
  | nil => rfl
  | cons text texts ih =>
      rw [addAll_cons, ih, count_add, List.length_cons]
      omega

theorem mem_texts_addAll {texts : List String} {other : String} :
    other ∈ (occurrences.addAll texts).texts ↔ other ∈ texts ∨ other ∈ occurrences.texts := by
  induction texts generalizing occurrences with
  | nil => simp
  | cons text texts ih =>
      rw [addAll_cons, ih, mem_texts_add, List.mem_cons]
      exact or_left_comm.trans or_assoc.symm

/-- From nothing on, the texts that are held are the different ones among those that occurred. -/
theorem length_texts_addAll_none (texts : List String) :
    (none.addAll texts).texts.length = texts.toFinset.card := by
  rw [← List.toFinset_card_of_nodup (none.addAll texts).nodup]
  congr 1
  ext text
  rw [List.mem_toFinset, List.mem_toFinset, mem_texts_addAll]
  exact or_iff_left List.not_mem_nil

end Occurrences

namespace Halstead

variable (source : List Char)

mutual

theorem visit_eq (counts : Halstead) : ∀ node,
    counts.visit source node =
      ⟨counts.operators.addAll (node.preorder.flatMap (ownOperators source)),
        counts.operands.addAll (node.preorder.flatMap (ownOperands source))⟩
  | .mk label children => by
      rw [visit, visitAll_eq, meet, Node.preorder, List.flatMap_cons, List.flatMap_cons,
        Occurrences.addAll_append, Occurrences.addAll_append]

theorem visitAll_eq (counts : Halstead) : ∀ nodes,
    counts.visitAll source nodes =
      ⟨counts.operators.addAll ((Node.preorderAll nodes).flatMap (ownOperators source)),
        counts.operands.addAll ((Node.preorderAll nodes).flatMap (ownOperands source))⟩
  | [] => rfl
  | node :: others => by
      rw [visitAll, visit_eq, visitAll_eq, Node.preorderAll, List.flatMap_append,
        List.flatMap_append, Occurrences.addAll_append, Occurrences.addAll_append]

end

end Halstead

theorem halstead_eq (source : List Char) (root : Node) :
    halstead source root =
      ⟨Occurrences.none.addAll (root.preorder.flatMap (ownOperators source)),
        Occurrences.none.addAll (root.preorder.flatMap (ownOperands source))⟩ :=
  Halstead.visit_eq source _ root

variable (source : List Char)

def fieldOperatorKinds : List String := "unary_operator" :: infixKinds

/-- Whether a node applies operators to operands. -/
def isApplication (node : Node) : Bool :=
  fieldOperatorKinds.contains node.kind || node.kind == "not_operator" ||
    node.kind == "comparison_operator"

/-- The text that a node spans; the empty text where it cuts a character. -/
def spelling (node : Node) : String := (node.text? source).getD ""

def fieldNodes (node : Node) (names : List String) : List Node := names.filterMap node.child?

/-- The operators of a node, one text for each occurrence. -/
def operatorsAt (node : Node) : List String :=
  if fieldOperatorKinds.contains node.kind then
    (fieldNodes node ["operator"]).map (spelling source)
  else if node.kind = "not_operator" then ["not"]
  else if node.kind = "comparison_operator" then
    (node.children.filter fun child => !child.label.named).map (spelling source)
  else []

def operandNodes (node : Node) : List Node :=
  if infixKinds.contains node.kind then fieldNodes node ["left", "right"]
  else if node.kind = "unary_operator" ∨ node.kind = "not_operator" then
    fieldNodes node ["argument"]
  else if node.kind = "comparison_operator" then
    node.children.filter fun child => child.label.named && child.kind != "comment"
  else []

def operandsAt (node : Node) : List String := (operandNodes node).map (spelling source)

/-- Every node of a tree spans a part of the text that begins and ends between two characters. -/
def SpansText (root : Node) : Prop := ∀ node ∈ root.preorder, (node.text? source).isSome = true

instance SpansText.instDecidable (root : Node) : Decidable (SpansText source root) :=
  inferInstanceAs (Decidable (∀ node ∈ _, _))

variable {source}

theorem filterMap_text?_eq_map {nodes : List Node}
    (spanned : ∀ node ∈ nodes, (node.text? source).isSome = true) :
    nodes.filterMap (Node.text? source) = nodes.map (spelling source) := by
  induction nodes with
  | nil => rfl
  | cons node nodes ih =>
      obtain ⟨here, others⟩ := List.forall_mem_cons.mp spanned
      obtain ⟨text, text_eq⟩ := Option.isSome_iff_exists.mp here
      rw [List.filterMap_cons, text_eq, List.map_cons, ih others, spelling, text_eq,
        Option.getD_some]

theorem child?_mem {node child : Node} {name : String} (found : node.child? name = some child) :
    child ∈ node.children := List.mem_of_find?_eq_some found

theorem fieldTexts_eq_map {node : Node}
    (spanned : ∀ child ∈ node.children, (child.text? source).isSome = true)
    (names : List String) :
    fieldTexts source node names = (fieldNodes node names).map (spelling source) := by
  have found_spanned : ∀ child ∈ fieldNodes node names, (child.text? source).isSome = true := by
    intro child mem
    obtain ⟨name, -, found⟩ := List.mem_filterMap.mp mem
    exact spanned child (child?_mem found)
  rw [← filterMap_text?_eq_map found_spanned, fieldNodes, List.filterMap_filterMap]
  rfl

theorem ownOperators_eq_operatorsAt {node : Node}
    (spanned : ∀ child ∈ node.children, (child.text? source).isSome = true) :
    ownOperators source node = operatorsAt source node := by
  have anonymous : (node.children.filter fun child => !child.label.named).filterMap
      (Node.text? source) = _ :=
    filterMap_text?_eq_map fun child mem => spanned child (List.mem_filter.mp mem).1
  have by_field : (infixKinds.contains node.kind || node.kind == "unary_operator") =
      fieldOperatorKinds.contains node.kind := by
    rw [fieldOperatorKinds, List.contains_cons, Bool.or_comm]
  simp only [ownOperators, operatorsAt, by_field, fieldTexts_eq_map spanned, anonymous, beq_iff_eq]

theorem ownOperands_eq_operandsAt {node : Node}
    (spanned : ∀ child ∈ node.children, (child.text? source).isSome = true) :
    ownOperands source node = operandsAt source node := by
  have named : (node.children.filter fun child =>
      child.label.named && child.kind != "comment").filterMap (Node.text? source) = _ :=
    filterMap_text?_eq_map fun child mem => spanned child (List.mem_filter.mp mem).1
  simp only [ownOperands, operandsAt, operandNodes, fieldTexts_eq_map spanned, named,
    Bool.or_eq_true, beq_iff_eq]
  split_ifs <;> rfl

theorem operatorsAt_eq_nil {node : Node} (plain : isApplication node = false) :
    operatorsAt source node = [] := by
  simp only [isApplication, Bool.or_eq_false_iff, beq_eq_false_iff_ne] at plain
  rw [operatorsAt, plain.1.1, if_neg Bool.false_ne_true, if_neg plain.1.2, if_neg plain.2]

theorem operandNodes_eq_nil {node : Node} (plain : isApplication node = false) :
    operandNodes node = [] := by
  simp only [isApplication, fieldOperatorKinds, List.contains_cons, Bool.or_eq_false_iff,
    beq_eq_false_iff_ne] at plain
  rw [operandNodes, plain.1.1.2, if_neg Bool.false_ne_true,
    if_neg (not_or.mpr ⟨plain.1.1.1, plain.1.2⟩), if_neg plain.2]

variable (source)

def operatorsIn (root : Node) : List String := root.preorder.flatMap (operatorsAt source)

def operandsIn (root : Node) : List String := root.preorder.flatMap (operandsAt source)

variable {source} {root : Node}

theorem halstead_eq_addAll (spans : SpansText source root) :
    halstead source root =
      ⟨Occurrences.none.addAll (operatorsIn source root),
        Occurrences.none.addAll (operandsIn source root)⟩ := by
  have spanned : ∀ node ∈ root.preorder, ∀ child ∈ node.children,
      (child.text? source).isSome = true :=
    fun node mem child below => spans child (Node.mem_preorder_of_mem_children mem below)
  rw [halstead_eq, operatorsIn, operandsIn,
    List.flatMap_congr fun node mem => ownOperators_eq_operatorsAt (spanned node mem),
    List.flatMap_congr fun node mem => ownOperands_eq_operandsAt (spanned node mem)]

theorem length_halstead (spans : SpansText source root) :
    (halstead source root).length =
      (operatorsIn source root).length + (operandsIn source root).length := by
  rw [halstead_eq_addAll spans, Halstead.length, Occurrences.count_addAll,
    Occurrences.count_addAll]
  exact congrArg₂ (· + ·) (Nat.zero_add _) (Nat.zero_add _)

theorem vocabulary_halstead (spans : SpansText source root) :
    (halstead source root).vocabulary =
      (operatorsIn source root).toFinset.card + (operandsIn source root).toFinset.card := by
  rw [halstead_eq_addAll spans, Halstead.vocabulary, Occurrences.length_texts_addAll_none,
    Occurrences.length_texts_addAll_none]

theorem vocabulary_le_length (spans : SpansText source root) :
    (halstead source root).vocabulary ≤ (halstead source root).length := by
  rw [vocabulary_halstead spans, length_halstead spans]
  exact Nat.add_le_add (List.toFinset_card_le _) (List.toFinset_card_le _)

/-- Every application in a tree has an operator and an operand. -/
def HasOperands (source : List Char) (root : Node) : Prop :=
  ∀ node ∈ root.preorder, isApplication node = true →
    operatorsAt source node ≠ [] ∧ operandNodes node ≠ []

instance HasOperands.instDecidable (source : List Char) (root : Node) :
    Decidable (HasOperands source root) :=
  inferInstanceAs (Decidable (∀ node ∈ _, _ → _))

theorem operatorsIn_eq_nil (plain : ∀ node ∈ root.preorder, isApplication node = false) :
    operatorsIn source root = [] :=
  List.flatMap_eq_nil_iff.mpr fun node mem => operatorsAt_eq_nil (plain node mem)

theorem operandsIn_eq_nil (plain : ∀ node ∈ root.preorder, isApplication node = false) :
    operandsIn source root = [] :=
  List.flatMap_eq_nil_iff.mpr fun node mem => by
    rw [operandsAt, operandNodes_eq_nil (plain node mem), List.map_nil]

theorem exists_application (spans : SpansText source root)
    (some_length : 0 < (halstead source root).length) :
    ∃ node ∈ root.preorder, isApplication node = true := by
  by_contra none
  have plain : ∀ node ∈ root.preorder, isApplication node = false := by
    simpa using none
  rw [length_halstead spans, operatorsIn_eq_nil plain, operandsIn_eq_nil plain] at some_length
  exact absurd some_length (Nat.lt_irrefl 0)

theorem two_le_vocabulary (spans : SpansText source root) (complete : HasOperands source root)
    (applied : ∃ node ∈ root.preorder, isApplication node = true) :
    2 ≤ (halstead source root).vocabulary := by
  obtain ⟨node, mem, application⟩ := applied
  obtain ⟨operators, operands⟩ := complete node mem application
  have some_operator : operatorsIn source root ≠ [] := fun nil =>
    operators (List.flatMap_eq_nil_iff.mp nil node mem)
  have some_operand : operandsIn source root ≠ [] := fun nil =>
    operands (List.map_eq_nil_iff.mp (List.flatMap_eq_nil_iff.mp nil node mem))
  have operator_card := Finset.card_pos.mpr (List.toFinset_nonempty_iff _ |>.mpr some_operator)
  have operand_card := Finset.card_pos.mpr (List.toFinset_nonempty_iff _ |>.mpr some_operand)
  rw [vocabulary_halstead spans]
  omega

theorem Halstead.volume_pos {counts : Halstead} (two : 2 ≤ counts.vocabulary)
    (longer : counts.vocabulary ≤ counts.length) : 0 < (counts.volume : ℝ) := by
  have length_pos : (0 : ℝ) < counts.length := Nat.cast_pos.mpr (by omega)
  have log_pos : 0 < Real.logb 2 counts.vocabulary :=
    Real.logb_pos one_lt_two (by exact_mod_cast two)
  rw [volume, if_neg (by omega)]
  exact mul_pos length_pos log_pos

theorem Halstead.volume_eq_zero {counts : Halstead} (empty : counts.vocabulary = 0) :
    (counts.volume : ℝ) = 0 := by
  rw [volume, if_pos empty]

/-- The length of a tree whose nodes span texts is the number of all occurrences of operators and
operands, and its vocabulary the number of different operators and of different operands among
them.  If every application has an operator and an operand, a length above zero makes a vocabulary
of two words at least, so the volume is zero only where nothing is applied. -/
theorem halstead_counts_occurrences (spans : SpansText source root) :
    let counts := halstead source root
    let operators := operatorsIn source root
    let operands := operandsIn source root
    counts.length = operators.length + operands.length ∧
    counts.vocabulary = operators.toFinset.card + operands.toFinset.card ∧
    counts.vocabulary ≤ counts.length ∧
    (HasOperands source root →
      (0 < counts.length → 2 ≤ counts.vocabulary) ∧ 0 ≤ (counts.volume : ℝ) ∧
      ((counts.volume : ℝ) = 0 ↔ ∀ node ∈ root.preorder, isApplication node = false)) := by
  intro counts operators operands
  have shorter := vocabulary_le_length spans
  refine ⟨length_halstead spans, vocabulary_halstead spans, shorter, fun complete => ?_⟩
  have volume_pos (applied : ∃ node ∈ root.preorder, isApplication node = true) :
      0 < (counts.volume : ℝ) :=
    Halstead.volume_pos (two_le_vocabulary spans complete applied) shorter
  have volume_zero (plain : ∀ node ∈ root.preorder, isApplication node = false) :
      (counts.volume : ℝ) = 0 := by
    refine Halstead.volume_eq_zero ?_
    rw [vocabulary_halstead spans, operatorsIn_eq_nil plain, operandsIn_eq_nil plain]
    rfl
  have cases : (∃ node ∈ root.preorder, isApplication node = true) ∨
      ∀ node ∈ root.preorder, isApplication node = false :=
    (em _).imp_right fun none => by simpa using none
  refine ⟨fun longer => two_le_vocabulary spans complete (exists_application spans longer), ?_, ?_⟩
  · rcases cases with applied | plain
    · exact (volume_pos applied).le
    · exact (volume_zero plain).ge
  · refine ⟨fun zero => ?_, volume_zero⟩
    rcases cases with applied | plain
    · exact absurd zero (volume_pos applied).ne'
    · exact plain

def operatorsText : List Char := "ok = 0 < x + 1 <= -x\nok |= not x + 1\n".toList

theorem operatorsText_counts_occurrences :
    let root := read operatorsText
    SpansText operatorsText root ∧ HasOperands operatorsText root ∧
    (halstead operatorsText root).length = 18 ∧ (halstead operatorsText root).vocabulary = 13 ∧
    (halstead operatorsText root).volume ≠ (0 : ℝ) := by
  intro root
  have spans : SpansText operatorsText root := by decide +kernel
  have complete : HasOperands operatorsText root := by decide +kernel
  obtain ⟨length, vocabulary, -, volume⟩ := halstead_counts_occurrences spans
  refine ⟨spans, complete, length.trans (by decide +kernel), vocabulary.trans (by decide +kernel),
    ?_⟩
  rw [Ne, (volume complete).2.2]
  decide +kernel

end CodeGauge.Measurement
