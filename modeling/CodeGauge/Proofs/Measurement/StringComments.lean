import Mathlib.Analysis.SpecialFunctions.Log.Base
import Mathlib.Analysis.SpecialFunctions.Trigonometric.Bounds
import Mathlib.Tactic.Linarith
import CodeGauge.Measurement.Analyzer
import CodeGauge.Proofs.Measurement.Halstead
import CodeGauge.Proofs.Syntax.Broken

/-!
# String statements as comments

Comments enter the maintainability index by the sine of an angle that grows with their percentage of
the source lines.  The sine grows up to a quarter turn and falls from there on, and the percentage
has no bound, so counting string statements as comments raises the index of some texts and lowers
that of others.
-/

namespace CodeGauge.Measurement

open Syntax

theorem clampPercent_real (value : ℝ) : clampPercent value = max 0 (min value 100) := by
  have exact_bounds : clampPercent value =
      if value < (0.0 : ℝ) then (0.0 : ℝ) else if (100.0 : ℝ) < value then 100.0 else value := rfl
  rw [exact_bounds]
  norm_num only
  split_ifs with negative high
  · rw [max_eq_left (min_le_of_left_le negative.le)]
  · rw [min_eq_right high.le]
    norm_num
  · rw [min_eq_left (not_lt.mp high), max_eq_right (not_lt.mp negative)]

/-- The angle by whose sine a percentage of comments enters the index. -/
noncomputable def commentAngle (percent : ℝ) : ℝ := √(2.46 * (percent * (Real.pi / 180)))

/-- The index without its part for comments. -/
noncomputable def baseIndex (inputs : IndexInputs ℝ) : ℝ :=
  171 - 5.2 * Real.log inputs.volume - 0.23 * inputs.complexity -
    16.2 * Real.log inputs.logicalLines

theorem rawIndex_real (inputs : IndexInputs ℝ) :
    rawIndex inputs = baseIndex inputs + 50 * Real.sin (commentAngle inputs.commentPercent) := by
  have exact_terms : rawIndex inputs =
      (171.0 : ℝ) - 5.2 * Real.log inputs.volume - 0.23 * inputs.complexity -
          16.2 * Real.log inputs.logicalLines +
        50.0 * Real.sin (√(2.46 * (inputs.commentPercent * (Real.pi / 180.0)))) := rfl
  rw [exact_terms, baseIndex, commentAngle]
  norm_num

theorem maintainabilityIndex_real (inputs : IndexInputs ℝ) :
    maintainabilityIndex inputs =
      if inputs.volume ≤ 0 ∨ inputs.logicalLines = 0 then 100
      else max 0 (min (rawIndex inputs * 100 / 171) 100) := by
  have exact_terms : maintainabilityIndex inputs =
      if inputs.volume ≤ (0.0 : ℝ) ∨ inputs.logicalLines = 0 then (100.0 : ℝ)
      else clampPercent (rawIndex inputs * (100.0 : ℝ) / (171.0 : ℝ)) := rfl
  rw [exact_terms, clampPercent_real]
  norm_num only

/-- Numbers that are drawn into the range from 0 to 100 are in the same order, unless both are drawn
to the same end. -/
theorem clamped_le_clamped_iff {first second : ℝ} :
    max 0 (min first 100) ≤ max 0 (min second 100) ↔
      first ≤ 0 ∨ 100 ≤ second ∨ first ≤ second := by
  constructor
  · contrapose!
    rintro ⟨positive, low, greater⟩
    calc
      max 0 (min second 100) ≤ max 0 second := max_le_max_left 0 (min_le_left _ _)
      _ < min first 100 := lt_min (max_lt positive greater) (max_lt (by norm_num) low)
      _ ≤ max 0 (min first 100) := le_max_right _ _
  · rintro (low | high | le)
    · rw [max_eq_left (min_le_of_left_le low)]
      exact le_max_left _ _
    · rw [min_eq_right high]
      exact max_le_max_left 0 (min_le_right _ _)
    · exact max_le_max_left 0 (min_le_min_right 100 le)

def IndexInputs.withComments (inputs : IndexInputs ℝ) (percent : ℝ) : IndexInputs ℝ :=
  { inputs with commentPercent := percent }

theorem rawIndex_withComments (inputs : IndexInputs ℝ) (percent : ℝ) :
    rawIndex (inputs.withComments percent) =
      baseIndex inputs + 50 * Real.sin (commentAngle percent) := rawIndex_real _

/-- Between two percentages of comments the sine decides, unless there is nothing to measure or both
indices are at the same end of the range. -/
theorem maintainabilityIndex_le_iff (inputs : IndexInputs ℝ) (first second : ℝ) :
    maintainabilityIndex (inputs.withComments first) ≤
        maintainabilityIndex (inputs.withComments second) ↔
      inputs.volume ≤ 0 ∨ inputs.logicalLines = 0 ∨ rawIndex (inputs.withComments first) ≤ 0 ∨
        171 ≤ rawIndex (inputs.withComments second) ∨
        Real.sin (commentAngle first) ≤ Real.sin (commentAngle second) := by
  have index (percent : ℝ) : maintainabilityIndex (inputs.withComments percent) =
      if inputs.volume ≤ 0 ∨ inputs.logicalLines = 0 then 100
      else max 0 (min (rawIndex (inputs.withComments percent) * 100 / 171) 100) :=
    maintainabilityIndex_real _
  rw [index, index, ← or_assoc]
  by_cases trivial_inputs : inputs.volume ≤ 0 ∨ inputs.logicalLines = 0
  · rw [if_pos trivial_inputs, if_pos trivial_inputs]
    exact iff_of_true le_rfl (.inl trivial_inputs)
  · rw [if_neg trivial_inputs, if_neg trivial_inputs, clamped_le_clamped_iff,
      or_iff_right trivial_inputs]
    refine or_congr ?_ (or_congr ?_ ?_)
    · constructor <;> intro low <;> linarith
    · constructor <;> intro high <;> linarith
    · rw [rawIndex_withComments, rawIndex_withComments]
      constructor <;> intro le <;> linarith

/-- The percentage of comments at which the angle is a quarter turn. -/
noncomputable def quarterPercent : ℝ := 45 * Real.pi / 2.46

theorem commentAngle_nonneg (percent : ℝ) : 0 ≤ commentAngle percent := Real.sqrt_nonneg _

theorem commentAngle_mono {first second : ℝ} (le : first ≤ second) :
    commentAngle first ≤ commentAngle second := by
  have positive := Real.pi_pos
  apply Real.sqrt_le_sqrt
  gcongr

theorem commentAngle_lt {first second : ℝ} (nonneg : 0 ≤ first) (less : first < second) :
    commentAngle first < commentAngle second := by
  have positive := Real.pi_pos
  apply Real.sqrt_lt_sqrt
  · positivity
  · gcongr

theorem quarterPercent_nonneg : 0 ≤ quarterPercent := by
  have positive := Real.pi_pos
  rw [quarterPercent]
  positivity

theorem commentAngle_mul_quarterPercent {factor : ℝ} (nonneg : 0 ≤ factor) :
    commentAngle (factor ^ 2 * quarterPercent) = factor * (Real.pi / 2) := by
  have square : 2.46 * (factor ^ 2 * quarterPercent * (Real.pi / 180)) =
      (factor * (Real.pi / 2)) ^ 2 := by
    rw [quarterPercent]
    ring
  have half := Real.pi_pos
  rw [commentAngle, square, Real.sqrt_sq (by positivity)]

theorem sin_commentAngle_mono {first second : ℝ} (le : first ≤ second)
    (quarter : second ≤ quarterPercent) :
    Real.sin (commentAngle first) ≤ Real.sin (commentAngle second) := by
  have at_quarter : commentAngle quarterPercent = Real.pi / 2 := by
    simpa using commentAngle_mul_quarterPercent zero_le_one
  have positive := Real.pi_pos
  have low := commentAngle_nonneg first
  have high := commentAngle_mono quarter
  rw [at_quarter] at high
  exact Real.sin_le_sin_of_le_of_le_pi_div_two (by linarith) high (commentAngle_mono le)

theorem sin_commentAngle_anti {first second : ℝ} (quarter : quarterPercent ≤ first)
    (le : first ≤ second) (three : second ≤ 9 * quarterPercent) :
    Real.sin (commentAngle second) ≤ Real.sin (commentAngle first) := by
  have at_quarter : commentAngle quarterPercent = Real.pi / 2 := by
    simpa using commentAngle_mul_quarterPercent zero_le_one
  have at_three : commentAngle (9 * quarterPercent) = 3 * (Real.pi / 2) := by
    have squared := commentAngle_mul_quarterPercent (show (0 : ℝ) ≤ 3 by norm_num)
    norm_num at squared
    exact squared
  have low := commentAngle_mono quarter
  have high := commentAngle_mono three
  rw [at_quarter] at low
  rw [at_three] at high
  rw [← Real.cos_sub_pi_div_two, ← Real.cos_sub_pi_div_two]
  apply Real.cos_le_cos_of_nonneg_of_le_pi
  · linarith
  · linarith
  · linarith [commentAngle_mono le]

theorem sin_commentAngle_neg {percent : ℝ} (half : 4 * quarterPercent < percent)
    (whole : percent < 16 * quarterPercent) : Real.sin (commentAngle percent) < 0 := by
  have at_half : commentAngle (4 * quarterPercent) = Real.pi := by
    have squared := commentAngle_mul_quarterPercent (show (0 : ℝ) ≤ 2 by norm_num)
    norm_num at squared
    linarith
  have at_whole : commentAngle (16 * quarterPercent) = 2 * Real.pi := by
    have squared := commentAngle_mul_quarterPercent (show (0 : ℝ) ≤ 4 by norm_num)
    norm_num at squared
    linarith
  have low := commentAngle_lt (mul_nonneg zero_le_four quarterPercent_nonneg) half
  have high := commentAngle_lt ((mul_nonneg zero_le_four quarterPercent_nonneg).trans half.le) whole
  rw [at_half] at low
  rw [at_whole] at high
  rw [← Real.sin_sub_two_pi]
  apply Real.sin_neg_of_neg_of_neg_pi_lt
  · linarith
  · linarith

namespace Profile

theorem commentPercent_real (profile : Profile) (withStrings : Bool) :
    profile.commentPercent withStrings =
      if profile.lines.source = 0 then (0 : ℝ)
      else profile.commentLines withStrings / profile.lines.source * 100 := by
  have exact_terms : profile.commentPercent withStrings =
      if profile.lines.source = 0 then (0.0 : ℝ)
      else profile.commentLines withStrings / profile.lines.source * 100.0 := rfl
  rw [exact_terms]
  norm_num only

theorem commentPercent_le (profile : Profile) :
    (profile.commentPercent false : ℝ) ≤ profile.commentPercent true := by
  have lines : (profile.commentLines false : ℝ) ≤ profile.commentLines true :=
    Nat.cast_le.mpr (Nat.add_le_add_left (Nat.zero_le _) _)
  rw [commentPercent_real, commentPercent_real]
  split_ifs
  · exact le_rfl
  · gcongr

theorem maintainability_eq_withComments (profile : Profile) (withStrings : Bool) :
    (profile.maintainability withStrings : ℝ) =
      maintainabilityIndex
        ((profile.indexInputs false).withComments (profile.commentPercent withStrings)) := rfl

end Profile

open Profile

/-- The index of a text that parses is at least as high with its string statements as comments as
without them exactly when nothing is measured, when both indices are at the same end of the range,
or when the sine at the greater percentage of comments is at least that at the lesser one.  So it is
where the greater percentage stays within a quarter turn; from a quarter turn to three quarters it
is at most as high. -/
theorem strings_raise_index_iff {text : List Char} {root : Node}
    (parsed : parse text = .ok root) :
    let profile := profile text root
    let inputs : IndexInputs ℝ := profile.indexInputs false
    let lesser : ℝ := profile.commentPercent false
    let greater : ℝ := profile.commentPercent true
    (∀ withStrings, pythonAnalyzer.maintainability withStrings text =
      .ok (profile.maintainability withStrings)) ∧
    ((profile.maintainability false : ℝ) ≤ profile.maintainability true ↔
      inputs.volume ≤ 0 ∨ inputs.logicalLines = 0 ∨ rawIndex (inputs.withComments lesser) ≤ 0 ∨
        171 ≤ rawIndex (inputs.withComments greater) ∨
        Real.sin (commentAngle lesser) ≤ Real.sin (commentAngle greater)) ∧
    (greater ≤ quarterPercent →
      (profile.maintainability false : ℝ) ≤ profile.maintainability true) ∧
    (quarterPercent ≤ lesser → greater ≤ 9 * quarterPercent →
      (profile.maintainability true : ℝ) ≤ profile.maintainability false) := by
  intro profile inputs lesser greater
  have more : lesser ≤ greater := profile.commentPercent_le
  refine ⟨?_, ?_, ?_, ?_⟩
  · intro withStrings
    exact congrArg (Except.map fun root =>
      (Measurement.profile text root).maintainability withStrings) parsed
  · rw [maintainability_eq_withComments, maintainability_eq_withComments]
    exact maintainabilityIndex_le_iff inputs lesser greater
  · intro quarter
    rw [maintainability_eq_withComments, maintainability_eq_withComments,
      maintainabilityIndex_le_iff]
    exact .inr (.inr (.inr (.inr (sin_commentAngle_mono more quarter))))
  · intro quarter three
    rw [maintainability_eq_withComments, maintainability_eq_withComments,
      maintainabilityIndex_le_iff]
    exact .inr (.inr (.inr (.inr (sin_commentAngle_anti quarter more three))))

/-- Three statements after a string statement of one line. -/
def shortString : List Char := "\"\"\"a\"\"\"\nx = 1 + 2\ny = 3\nz = 4\n".toList

/-- Two statements after two comments and a string statement of one line. -/
def manyComments : List Char := "# a\n# b\n\"\"\"c\"\"\"\nx = 1 + 2\ny = 3\n".toList

theorem shortString_raises_index :
    (∃ root, parse shortString = .ok root ∧
      (profile shortString root).commentPercent true ≤ quarterPercent ∧
      ((profile shortString root).maintainability false : ℝ) ≤
        (profile shortString root).maintainability true) ∧
    ∃ root, parse manyComments = .ok root ∧
      quarterPercent ≤ (profile manyComments root).commentPercent false ∧
      (profile manyComments root).commentPercent true ≤ 9 * quarterPercent ∧
      ((profile manyComments root).maintainability true : ℝ) ≤
        (profile manyComments root).maintainability false := by
  have two_le := Real.two_le_pi
  have le_four := Real.pi_le_four
  constructor
  · have parsed : parse shortString = .ok (read shortString) :=
      Node.accept_eq_ok_iff.mpr ⟨by decide +kernel, rfl⟩
    have quarter : (profile shortString (read shortString)).commentPercent true ≤
        quarterPercent := by
      have counts : (profile shortString (read shortString)).lines.source = 3 ∧
          (profile shortString (read shortString)).commentLines true = 1 := by decide +kernel
      rw [commentPercent_real, counts.1, counts.2, quarterPercent]
      norm_num
      linarith
    obtain ⟨-, -, raises, -⟩ := strings_raise_index_iff parsed
    exact ⟨_, parsed, quarter, raises quarter⟩
  · have parsed : parse manyComments = .ok (read manyComments) :=
      Node.accept_eq_ok_iff.mpr ⟨by decide +kernel, rfl⟩
    have counts : (profile manyComments (read manyComments)).lines.source = 2 ∧
        (profile manyComments (read manyComments)).commentLines false = 2 ∧
        (profile manyComments (read manyComments)).commentLines true = 3 := by decide +kernel
    have quarter : quarterPercent ≤
        (profile manyComments (read manyComments)).commentPercent false := by
      rw [commentPercent_real, counts.1, counts.2.1, quarterPercent]
      norm_num
      linarith
    have three : (profile manyComments (read manyComments)).commentPercent true ≤
        9 * quarterPercent := by
      rw [commentPercent_real, counts.1, counts.2.2, quarterPercent]
      norm_num
      linarith
    obtain ⟨-, -, -, lowers⟩ := strings_raise_index_iff parsed
    exact ⟨_, parsed, quarter, three, lowers quarter three⟩

/-- The index without its part for comments is inside the range of the index where one operator is
applied once to two operands in one of two logical lines. -/
theorem baseIndex_bounds {profile : Profile} (logical : profile.lines.logical = 2)
    (complexity : profile.tally.totalComplexity = 1) (vocabulary : profile.halstead.vocabulary = 3)
    (length : profile.halstead.length = 3) :
    let inputs : IndexInputs ℝ := profile.indexInputs false
    0 < inputs.volume ∧ 0 < baseIndex inputs ∧ baseIndex inputs ≤ 171 := by
  intro inputs
  have volume : inputs.volume = 3 * Real.logb 2 3 := by
    change (profile.halstead.volume : ℝ) = _
    rw [Halstead.volume, vocabulary, length]
    rfl
  have base : baseIndex inputs =
      171 - 5.2 * Real.log inputs.volume - 0.23 * (1 : ℕ) - 16.2 * Real.log (2 : ℕ) := by
    rw [baseIndex]
    change _ - 0.23 * (profile.tally.totalComplexity : ℝ) -
      16.2 * Real.log profile.lines.logical = _
    rw [complexity, logical]
  have one_le_log : 1 ≤ Real.logb 2 3 := by
    rw [Real.le_logb_iff_rpow_le one_lt_two three_pos]
    norm_num
  have log_le_two : Real.logb 2 3 ≤ 2 := by
    rw [Real.logb_le_iff_le_rpow one_lt_two three_pos]
    norm_num
  have volume_pos : 0 < inputs.volume := by linarith
  have volume_log_nonneg : 0 ≤ Real.log inputs.volume := Real.log_nonneg (by linarith)
  have volume_log_le := Real.log_le_sub_one_of_pos volume_pos
  have lines_log_nonneg : 0 ≤ Real.log (2 : ℕ) := Real.log_natCast_nonneg 2
  have lines_log_le := Real.log_le_sub_one_of_pos (show (0 : ℝ) < (2 : ℕ) by norm_num)
  refine ⟨volume_pos, ?_, ?_⟩
  · rw [base]
    push_cast at lines_log_le ⊢
    linarith
  · rw [base]
    push_cast at lines_log_nonneg ⊢
    linarith

/-- With three hundred percent of comments, all of them string statements, the angle is between a
half turn and a whole one, and an index inside the range is lower than without comments. -/
theorem maintainability_lt_of_strings {profile : Profile} (source : profile.lines.source = 1)
    (comments : profile.commentLines false = 0) (strings : profile.commentLines true = 3)
    (logical : profile.lines.logical ≠ 0)
    (bounds : let inputs : IndexInputs ℝ := profile.indexInputs false
      0 < inputs.volume ∧ 0 < baseIndex inputs ∧ baseIndex inputs ≤ 171) :
    (profile.maintainability true : ℝ) < profile.maintainability false := by
  have lesser : (profile.commentPercent false : ℝ) = 0 := by
    rw [commentPercent_real, source, comments]
    norm_num
  have greater : (profile.commentPercent true : ℝ) = 300 := by
    rw [commentPercent_real, source, strings]
    norm_num
  have two_le := Real.two_le_pi
  have le_four := Real.pi_le_four
  have no_angle : commentAngle 0 = 0 := by simp [commentAngle]
  have negative : Real.sin (commentAngle 300) < 0 := by
    apply sin_commentAngle_neg
    · rw [quarterPercent]
      norm_num
      linarith
    · rw [quarterPercent]
      norm_num
      linarith
  obtain ⟨volume, above, below⟩ := bounds
  rw [← not_le, maintainability_eq_withComments, maintainability_eq_withComments, lesser, greater,
    maintainabilityIndex_le_iff, rawIndex_withComments, rawIndex_withComments, no_angle,
    Real.sin_zero]
  rintro (trivial_volume | no_lines | low | high | less)
  · exact absurd volume (not_lt.mpr trivial_volume)
  · exact logical no_lines
  · linarith
  · linarith
  · linarith

/-- One statement after a string statement of three lines. -/
def longString : List Char := "\"\"\"\na\n\"\"\"\nx = 1 + 2\n".toList

/-- A string statement of three lines before a single line of code lowers the index. -/
theorem longString_lowers_index :
    ∃ root, parse longString = .ok root ∧
      ((profile longString root).maintainability true : ℝ) <
        (profile longString root).maintainability false := by
  have parsed : parse longString = .ok (read longString) :=
    Node.accept_eq_ok_iff.mpr ⟨by decide +kernel, rfl⟩
  obtain ⟨source, comments, strings, logical, complexity, vocabulary, length⟩ :
      (profile longString (read longString)).lines.source = 1 ∧
      (profile longString (read longString)).commentLines false = 0 ∧
      (profile longString (read longString)).commentLines true = 3 ∧
      (profile longString (read longString)).lines.logical = 2 ∧
      (profile longString (read longString)).tally.totalComplexity = 1 ∧
      (profile longString (read longString)).halstead.vocabulary = 3 ∧
      (profile longString (read longString)).halstead.length = 3 := by decide +kernel
  have bounds := baseIndex_bounds logical complexity vocabulary length
  exact ⟨_, parsed, maintainability_lt_of_strings source comments strings (by omega) bounds⟩

end CodeGauge.Measurement
