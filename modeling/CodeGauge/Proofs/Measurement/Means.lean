import Mathlib.Algebra.BigOperators.Group.List.Basic
import Mathlib.Algebra.Order.BigOperators.Group.List
import Mathlib.Algebra.Order.Field.Rat
import Mathlib.Data.Finset.Max
import Mathlib.Tactic.FieldSimp
import Mathlib.Tactic.Linarith
import CodeGauge.History
import CodeGauge.Measurement.Figures
import CodeGauge.Proofs.History.Timeline

/-!
# Exact means

Over the rational numbers a mean keeps the sum of each figure weighed by lines
(`weighedSum_mean`), and such sums with the lines fix a mean (`mean_eq_of_sums`).  Hence neither the
order of the figures nor a division into parts that are drawn together first plays a part, and a
mean lies among the figures of code with lines (`mean_of_parts`).
-/

namespace CodeGauge.Measurement.Figures

def weighed : List (Figures ℚ → ℚ) := [complexity, maintainability]

variable {figure : Figures ℚ → ℚ} {list : List (Figures ℚ)}

theorem weighedSum_append_singleton (figure : Figures ℚ → ℚ) (list : List (Figures ℚ))
    (last : Figures ℚ) :
    weighedSum figure (list ++ [last]) =
      weighedSum figure list + figure last * last.lines := by
  rw [weighedSum, List.foldl_append]
  rfl

theorem weighedSum_eq_sum (figure : Figures ℚ → ℚ) (list : List (Figures ℚ)) :
    weighedSum figure list = (list.map fun figures => figure figures * figures.lines).sum := by
  induction list using List.reverseRecOn with
  | nil => rfl
  | append_singleton list last ih =>
      rw [weighedSum_append_singleton, ih, List.map_append, List.sum_append, List.map_singleton,
        List.sum_singleton]

theorem weighedSum_perm {other : List (Figures ℚ)} (same : other.Perm list) :
    weighedSum figure other = weighedSum figure list := by
  rw [weighedSum_eq_sum, weighedSum_eq_sum]
  exact (same.map _).sum_eq

theorem weighedSum_flatten (figure : Figures ℚ → ℚ) (parts : List (List (Figures ℚ))) :
    weighedSum figure parts.flatten = (parts.map (weighedSum figure)).sum := by
  induction parts with
  | nil => rfl
  | cons part parts ih =>
      rw [List.flatten_cons, List.map_cons, List.sum_cons, ← ih]
      simp only [weighedSum_eq_sum, List.map_append, List.sum_append]

theorem totalLines_flatten (parts : List (List (Figures ℚ))) :
    totalLines parts.flatten = total (parts.map totalLines) := by
  rw [totalLines, List.map_flatten, ← List.flatMap_def, total_flatMap]
  rfl

theorem totalLines_perm_figures {other : List (Figures ℚ)} (same : other.Perm list) :
    totalLines other = totalLines list :=
  total_perm (same.map lines)

theorem totalLines_eq_zero_iff :
    totalLines list = 0 ↔ ∀ figures ∈ list, figures.lines = 0 := by
  induction list with
  | nil => simp [totalLines]
  | cons first list ih =>
      rw [List.forall_mem_cons, ← ih]
      exact Nat.add_eq_zero_iff

theorem weighedSum_eq_zero (figure : Figures ℚ → ℚ) (none : totalLines list = 0) :
    weighedSum figure list = 0 := by
  rw [weighedSum_eq_sum]
  apply List.sum_eq_zero
  intro product mem
  obtain ⟨figures, figures_mem, rfl⟩ := List.mem_map.mp mem
  rw [totalLines_eq_zero_iff.mp none figures figures_mem, Nat.cast_zero, mul_zero]

theorem mean_eq_zero {α : Type} [Quantity α] {list : List (Figures α)}
    (none : totalLines list = 0) : mean list = zero := if_pos none

theorem figure_mean (mem : figure ∈ weighed) (list : List (Figures ℚ)) :
    figure (mean list) = weighedSum figure list / totalLines list := by
  have weighs : figure = complexity ∨ figure = maintainability := by simpa [weighed] using mem
  by_cases none : totalLines list = 0
  · rw [mean_eq_zero none, none, Nat.cast_zero, div_zero]
    rcases weighs with rfl | rfl <;> rfl
  · rw [mean, if_neg none]
    rcases weighs with rfl | rfl <;> rfl

theorem weighedSum_mean (mem : figure ∈ weighed) (list : List (Figures ℚ)) :
    figure (mean list) * (mean list).lines = weighedSum figure list := by
  rw [figure_mean mem, lines_mean]
  by_cases none : totalLines list = 0
  · rw [weighedSum_eq_zero figure none, none, Nat.cast_zero, mul_zero]
  · exact div_mul_cancel₀ _ (Nat.cast_ne_zero.mpr none)

/-- A mean is fixed by the lines and by the weighed sums. -/
theorem mean_eq_of_sums {other : List (Figures ℚ)} (lines : totalLines other = totalLines list)
    (sums : ∀ figure ∈ weighed, weighedSum figure other = weighedSum figure list) :
    mean other = mean list := by
  have same : ∀ figure ∈ weighed, figure (mean other) = figure (mean list) := by
    intro figure mem
    rw [figure_mean mem, figure_mean mem, sums figure mem, lines]
  have lines_eq : (mean other).lines = (mean list).lines := by rw [lines_mean, lines_mean, lines]
  have complexity_eq := same complexity (by simp [weighed])
  have maintainability_eq := same maintainability (by simp [weighed])
  cases first : mean other
  cases second : mean list
  simp_all

theorem mean_perm {other : List (Figures ℚ)} (same : other.Perm list) : mean other = mean list :=
  mean_eq_of_sums (totalLines_perm_figures same) fun _ _ => weighedSum_perm same

theorem mean_map_mean (parts : List (List (Figures ℚ))) :
    mean (parts.map mean) = mean parts.flatten := by
  apply mean_eq_of_sums
  · rw [totalLines_flatten, totalLines, List.map_map]
    exact congrArg total (List.map_congr_left fun part _ => lines_mean part)
  · intro figure mem
    rw [weighedSum_flatten, weighedSum_eq_sum, List.map_map]
    exact congrArg List.sum (List.map_congr_left fun part _ => weighedSum_mean mem part)

/-- A figure that is less where there are lines has the lesser sum. -/
theorem weighedSum_le_weighedSum {least greatest : Figures ℚ → ℚ}
    (le : ∀ figures ∈ list, 0 < figures.lines → least figures ≤ greatest figures) :
    weighedSum least list ≤ weighedSum greatest list := by
  rw [weighedSum_eq_sum, weighedSum_eq_sum]
  apply List.sum_le_sum
  intro figures mem
  rcases Nat.eq_zero_or_pos figures.lines with none | positive
  · rw [none, Nat.cast_zero, mul_zero, mul_zero]
  · exact mul_le_mul_of_nonneg_right (le figures mem positive) (Nat.cast_nonneg _)

theorem weighedSum_const (value : ℚ) (list : List (Figures ℚ)) :
    weighedSum (fun _ => value) list = value * totalLines list := by
  rw [weighedSum_eq_sum]
  induction list with
  | nil => simp [totalLines]
  | cons first list ih =>
      rw [List.map_cons, List.sum_cons, ih, ← mul_add]
      exact congrArg (value * ·) (Nat.cast_add _ _).symm

theorem le_figure_mean (mem : figure ∈ weighed) (some : totalLines list ≠ 0) {low : ℚ}
    (bounded : ∀ figures ∈ list, 0 < figures.lines → low ≤ figure figures) :
    low ≤ figure (mean list) := by
  have positive : (0 : ℚ) < totalLines list := Nat.cast_pos.mpr (Nat.pos_of_ne_zero some)
  rw [figure_mean mem, le_div_iff₀ positive, ← weighedSum_const]
  exact weighedSum_le_weighedSum bounded

theorem figure_mean_le (mem : figure ∈ weighed) (some : totalLines list ≠ 0) {high : ℚ}
    (bounded : ∀ figures ∈ list, 0 < figures.lines → figure figures ≤ high) :
    figure (mean list) ≤ high := by
  have positive : (0 : ℚ) < totalLines list := Nat.cast_pos.mpr (Nat.pos_of_ne_zero some)
  rw [figure_mean mem, div_le_iff₀ positive, ← weighedSum_const]
  exact weighedSum_le_weighedSum bounded

def withLines (list : List (Figures ℚ)) : List (Figures ℚ) :=
  list.filter fun figures => 0 < figures.lines

theorem mem_withLines_iff {figures : Figures ℚ} :
    figures ∈ withLines list ↔ figures ∈ list ∧ 0 < figures.lines := by
  rw [withLines, List.mem_filter, decide_eq_true_iff]

theorem withLines_ne_nil (some : totalLines list ≠ 0) : withLines list ≠ [] := by
  intro nil
  apply some
  rw [totalLines_eq_zero_iff]
  intro figures mem
  by_contra apart
  have held := mem_withLines_iff.mpr ⟨mem, Nat.pos_of_ne_zero apart⟩
  rw [nil] at held
  exact List.not_mem_nil held

/-- Where there are lines, code with lines has a least and a greatest figure, and the mean lies
between them. -/
theorem exists_bounds_of_mean (mem : figure ∈ weighed) (some : totalLines list ≠ 0) :
    ∃ least ∈ withLines list, ∃ greatest ∈ withLines list,
      (∀ figures ∈ withLines list,
        figure least ≤ figure figures ∧ figure figures ≤ figure greatest) ∧
      figure least ≤ figure (mean list) ∧ figure (mean list) ≤ figure greatest := by
  have nonempty := (List.toFinset_nonempty_iff _).mpr (withLines_ne_nil some)
  obtain ⟨least, least_mem, least_le⟩ := Finset.exists_min_image _ figure nonempty
  obtain ⟨greatest, greatest_mem, le_greatest⟩ := Finset.exists_max_image _ figure nonempty
  simp only [List.mem_toFinset] at least_mem least_le greatest_mem le_greatest
  refine ⟨least, least_mem, greatest, greatest_mem, ?_, ?_, ?_⟩
  · intro figures held
    exact ⟨least_le figures held, le_greatest figures held⟩
  · apply le_figure_mean mem some
    intro figures figures_mem positive
    exact least_le figures (mem_withLines_iff.mpr ⟨figures_mem, positive⟩)
  · apply figure_mean_le mem some
    intro figures figures_mem positive
    exact le_greatest figures (mem_withLines_iff.mpr ⟨figures_mem, positive⟩)

theorem figure_mean_of_common (mem : figure ∈ weighed) (some : totalLines list ≠ 0) {common : ℚ}
    (same : ∀ figures ∈ withLines list, figure figures = common) :
    figure (mean list) = common := by
  obtain ⟨least, least_mem, greatest, greatest_mem, -, above, below⟩ :=
    exists_bounds_of_mean mem some
  rw [same least least_mem] at above
  rw [same greatest greatest_mem] at below
  exact le_antisymm below above

section dates

variable {ι : Type} (date : ι → Option String)

def datesOf (items : List ι) : List String :=
  (items.filterMap date).eraseDups.mergeSort fun first second => decide (second ≤ first)

/-- The means of some items by date, the latest date first; items without a date are left out. -/
def meansByDate {α : Type} [Quantity α] (figures : ι → Figures α) (items : List ι) :
    List (Figures α) :=
  (datesOf date items).map fun day =>
    mean ((items.filter fun item => date item == some day).map figures)

theorem meansByDate_samples (history : History Sample) :
    meansByDate Sample.date Sample.figures history.samples =
      history.timeline.map Sample.figures := by
  rw [History.timeline, List.map_map]
  rfl

theorem mem_datesOf_iff {items : List ι} {day : String} :
    day ∈ datesOf date items ↔ ∃ item ∈ items, date item = some day := by
  rw [datesOf, List.mem_mergeSort, List.mem_eraseDups, List.mem_filterMap]

theorem nodup_datesOf (items : List ι) : (datesOf date items).Nodup :=
  (List.mergeSort_perm _ _).nodup_iff.mpr (nodup_eraseDups _)

theorem mean_meansByDate (figures : ι → Figures ℚ) (items : List ι) :
    mean (meansByDate date figures items) =
      mean ((items.filter fun item => (date item).isSome).map figures) := by
  let dated := items.filter fun item => (date item).isSome
  let days := (datesOf date items).map some
  have days_distinct : days.Nodup := (nodup_datesOf date items).map (Option.some_injective _)
  have covered : ∀ item ∈ dated, date item ∈ days := by
    intro item mem
    obtain ⟨item_mem, has_date⟩ := List.mem_filter.mp mem
    obtain ⟨day, day_eq⟩ := Option.isSome_iff_exists.mp has_date
    rw [day_eq]
    exact List.mem_map_of_mem ((mem_datesOf_iff date).mpr ⟨item, item_mem, day_eq⟩)
  have parts : meansByDate date figures items =
      ((datesOf date items).map fun day =>
        (dated.filter fun item => date item == some day).map figures).map mean := by
    rw [meansByDate, List.map_map]
    apply List.map_congr_left
    intro day _
    have same : (dated.filter fun item => date item == some day) =
        items.filter fun item => date item == some day := by
      rw [List.filter_filter]
      apply List.filter_congr
      intro item _
      cases date item <;> simp
    rw [Function.comp_apply, same]
  rw [parts, mean_map_mean]
  apply mean_perm
  rw [← List.flatMap_def, ← List.map_flatMap]
  have grouped := flatMap_filter_perm days_distinct covered
  rw [List.flatMap_map] at grouped
  exact grouped.map figures

end dates

/-- A mean over the rational numbers does not depend on the order of the figures.  It is zero where
there are no lines; where there are lines, each figure lies between the least and the greatest one
of code with lines, and is the common one if there is one.  Parts that are drawn together first,
two of them or any number, make no difference, and neither do the dates of a timeline, whose entries
have together the mean of all samples with a date. -/
theorem mean_of_parts {ι : Type} (items : List ι) (figures : ι → Figures ℚ) :
    let list := items.map figures
    (∀ other : List (Figures ℚ), other.Perm list → mean other = mean list) ∧
    (totalLines list = 0 → mean list = zero) ∧
    (totalLines list ≠ 0 → ∀ figure ∈ weighed,
      (∃ least ∈ withLines list, ∃ greatest ∈ withLines list,
        (∀ figures ∈ withLines list,
          figure least ≤ figure figures ∧ figure figures ≤ figure greatest) ∧
        figure least ≤ figure (mean list) ∧ figure (mean list) ≤ figure greatest) ∧
      ∀ common, (∀ figures ∈ withLines list, figure figures = common) →
        figure (mean list) = common) ∧
    (∀ first second : List (Figures ℚ), (first ++ second).Perm list →
      mean [mean first, mean second] = mean list) ∧
    (∀ parts : List (List (Figures ℚ)), parts.flatten.Perm list →
      mean (parts.map mean) = mean list) ∧
    (∀ date : ι → Option String, mean (meansByDate date figures items) =
      mean ((items.filter fun item => (date item).isSome).map figures)) ∧
    ∀ history : History Sample, meansByDate Sample.date Sample.figures history.samples =
      history.timeline.map Sample.figures := by
  intro list
  have of_parts (parts : List (List (Figures ℚ))) (same : parts.flatten.Perm list) :
      mean (parts.map mean) = mean list := by
    rw [mean_map_mean]
    exact mean_perm same
  refine ⟨?_, mean_eq_zero, ?_, ?_, of_parts, ?_, meansByDate_samples⟩
  · intro other same
    exact mean_perm same
  · intro some figure mem
    refine ⟨exists_bounds_of_mean mem some, ?_⟩
    intro common same
    exact figure_mean_of_common mem some same
  · intro first second same
    apply of_parts [first, second]
    simpa using same
  · intro date
    exact mean_meansByDate date figures items

/-- Three files on two days that are equally complex, and one without a date and without lines. -/
def fourFiles : List (Option String × Figures ℚ) :=
  [(some "2024-03-01", ⟨2, 50, 10⟩), (some "2024-02-01", ⟨2, 60, 5⟩),
    (some "2024-03-01", ⟨2, 70, 30⟩), (none, ⟨9, 90, 0⟩)]

theorem fourFiles_mean_of_parts :
    let list := fourFiles.map Prod.snd
    mean list.reverse = mean list ∧ (mean list).complexity = 2 ∧
    (∃ least ∈ withLines list, least.maintainability ≤ (mean list).maintainability) ∧
    mean [mean (list.take 2), mean (list.drop 2)] = mean list ∧
    mean ([list.take 1, list.drop 1].map mean) = mean list ∧
    mean (meansByDate Prod.fst Prod.snd fourFiles) = mean (list.take 3) ∧
    mean ((fourFiles.drop 3).map Prod.snd) = zero := by
  intro list
  obtain ⟨perm, -, bounds, split, parts, dates, -⟩ := mean_of_parts fourFiles Prod.snd
  obtain ⟨-, none, -⟩ := mean_of_parts (fourFiles.drop 3) Prod.snd
  have some_lines : totalLines list ≠ 0 := by decide
  obtain ⟨⟨least, least_mem, -, -, -, above, -⟩, -⟩ :=
    bounds some_lines maintainability (by simp [weighed])
  refine ⟨perm _ (List.reverse_perm list), ?_, ⟨least, least_mem, above⟩, ?_, ?_, ?_,
    none (by decide)⟩
  · exact (bounds some_lines complexity (by simp [weighed])).2 2 (by decide +kernel)
  · exact split _ _ (List.Perm.of_eq (List.take_append_drop 2 list))
  · apply parts
    exact List.Perm.of_eq rfl
  · exact dates Prod.fst

end CodeGauge.Measurement.Figures
