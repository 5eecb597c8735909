import CodeGauge.Inspection
import CodeGauge.Proofs.History.Grouping
import Mathlib.Data.List.Basic

/-!
# First samples

The first samples of a history show one sample for each series.  A history that has grown at its
end still begins with them (`Extends.head_of_firstSamples`).  Of a list of pairs they show the
first value of each stem (`firstSamples_ofPairs`), and so they miss the lines of all later values
of a stem (`total_lines_firstSamples`).
-/

namespace CodeGauge.History

open Measurement

variable {history : History Sample}

theorem map_some_firstSamples (filled : ∀ series ∈ history.series, series.samples ≠ []) :
    history.firstSamples.map some =
      history.series.map fun series =>
        series.samples.head?.map fun sample => sample.withFile series.stem := by
  obtain ⟨list⟩ := history
  simp only [firstSamples] at filled ⊢
  induction list with
  | nil => rfl
  | cons first others ih =>
      obtain ⟨first_filled, others_filled⟩ := List.forall_mem_cons.mp filled
      obtain ⟨sample, rest, samples⟩ := List.exists_cons_of_ne_nil first_filled
      simpa [samples] using ih others_filled

theorem length_firstSamples (filled : ∀ series ∈ history.series, series.samples ≠ []) :
    history.firstSamples.length = history.size := by
  simpa [size] using congrArg List.length (map_some_firstSamples filled)

theorem exists_series_of_firstSamples (filled : ∀ series ∈ history.series, series.samples ≠ [])
    {place : Nat} {sample : Sample} (found : history.firstSamples[place]? = some sample) :
    ∃ series first, history.series[place]? = some series ∧
      series.samples.head? = some first ∧ first.withFile series.stem = sample := by
  have named := congrArg (fun list : List (Option Sample) => list[place]?)
    (map_some_firstSamples filled)
  simp only [List.getElem?_map, found, Option.map_some] at named
  obtain ⟨series, series_found, named⟩ := Option.map_eq_some_iff.mp named.symm
  obtain ⟨first, first_head, rfl⟩ := Option.map_eq_some_iff.mp named
  exact ⟨series, first, series_found, first_head, rfl⟩

/-- Where a history has grown from one whose samples name no file, each first sample of the earlier
one is still the first sample of its series. -/
theorem Extends.head_of_firstSamples {earlier later : History Sample}
    (grows : earlier.Extends later) (filled : ∀ series ∈ earlier.series, series.samples ≠ [])
    (unnamed : ∀ sample ∈ earlier.samples, sample.file = none) {place : Nat} {sample : Sample}
    (found : earlier.firstSamples[place]? = some sample) :
    ∃ series, later.series[place]? = some series ∧ sample.file = some series.stem ∧
      series.samples.head? = some { sample with file := none } := by
  obtain ⟨series, first, series_found, first_head, rfl⟩ :=
    exists_series_of_firstSamples filled found
  obtain ⟨grown, grown_found, same_stem, ⟨added, grown_samples⟩⟩ := grows place series series_found
  have first_mem : first ∈ earlier.samples := List.mem_flatMap.mpr
    ⟨series, List.mem_of_getElem? series_found, List.mem_of_mem_head? first_head⟩
  refine ⟨grown, grown_found, congrArg some same_stem.symm, ?_⟩
  rw [← grown_samples, List.head?_append, first_head]
  simp [Sample.withFile, ← unnamed first first_mem]

theorem firstSamples_ofPairs (pairs : List (String × Sample)) :
    (ofPairs pairs).firstSamples =
      (pairs.map Prod.fst).eraseDups.filterMap fun stem =>
        (pairs.find? fun pair => pair.1 == stem).map fun pair => pair.2.withFile stem := by
  rw [firstSamples, series_ofPairs, List.filterMap_map]
  simp only [Function.comp_def, valuesOf, List.head?_map, List.head?_filter, Option.map_map]

theorem firstSamples_ofPairs_of_nodup {pairs : List (String × Sample)}
    (distinct : (pairs.map Prod.fst).Nodup) :
    (ofPairs pairs).firstSamples = pairs.map fun pair => pair.2.withFile pair.1 := by
  rw [firstSamples, series_ofPairs_of_nodup distinct, List.filterMap_map]
  simp [Function.comp_def]

theorem length_firstSamples_ofPairs (pairs : List (String × Sample)) :
    (ofPairs pairs).firstSamples.length = (pairs.map Prod.fst).eraseDups.length := by
  rw [length_firstSamples fun _ => samples_ne_nil_of_mem_ofPairs, size, series_ofPairs,
    List.length_map]

theorem firstSamples_ofPairs_append_singleton (pairs : List (String × Sample)) (stem : String)
    (sample : Sample) :
    (ofPairs (pairs ++ [(stem, sample)])).firstSamples =
      if stem ∈ pairs.map Prod.fst then (ofPairs pairs).firstSamples
      else (ofPairs pairs).firstSamples ++ [sample.withFile stem] := by
  have unchanged : ∀ key ∈ (pairs.map Prod.fst).eraseDups,
      ((pairs ++ [(stem, sample)]).find? fun pair => pair.1 == key) =
        pairs.find? fun pair => pair.1 == key := by
    intro key mem
    obtain ⟨pair, pair_mem, rfl⟩ := List.mem_map.mp (List.mem_eraseDups.mp mem)
    have found : (pairs.find? fun other => other.1 == pair.1).isSome = true :=
      List.find?_isSome.mpr ⟨pair, pair_mem, by simp⟩
    rw [List.find?_append, Option.or_of_isSome found]
  rw [firstSamples_ofPairs, firstSamples_ofPairs, List.map_append, List.map_singleton,
    eraseDups_append_singleton]
  split
  · exact List.filterMap_congr fun key mem => by rw [unchanged key mem]
  · rename_i fresh
    have first : ((pairs ++ [(stem, sample)]).find? fun pair => pair.1 == stem) =
        some (stem, sample) := by
      have missed : (pairs.find? fun pair => pair.1 == stem) = none := by
        rw [List.find?_eq_none]
        intro pair mem
        simpa using fun same => fresh (List.mem_map.mpr ⟨pair, mem, same⟩)
      simp [List.find?_append, missed]
    rw [List.filterMap_append]
    congr 1
    · exact List.filterMap_congr fun key mem => by rw [unchanged key mem]
    · simp only [List.filterMap_cons, first, Option.map_some, List.filterMap_nil]

/-- First samples have at most the lines of all values, and all of them exactly when a value that
follows another one of its stem has no lines. -/
theorem total_lines_firstSamples (pairs : List (String × Sample)) :
    total ((ofPairs pairs).firstSamples.map fun sample => sample.figures.lines) ≤
        total (pairs.map fun pair => pair.2.figures.lines) ∧
      (total ((ofPairs pairs).firstSamples.map fun sample => sample.figures.lines) =
          total (pairs.map fun pair => pair.2.figures.lines) ↔
        pairs.Pairwise fun first second =>
          first.1 = second.1 → second.2.figures.lines = 0) := by
  induction pairs using List.reverseRecOn with
  | nil => simp [ofPairs_nil, firstSamples, empty]
  | append_singleton pairs pair ih =>
      obtain ⟨stem, sample⟩ := pair
      obtain ⟨bound, exact_iff⟩ := ih
      rw [firstSamples_ofPairs_append_singleton, List.pairwise_append, ← exact_iff]
      simp only [List.map_append, List.map_cons, List.map_nil, total_append, total_cons,
        total_nil, List.pairwise_singleton, true_and, List.mem_singleton, forall_eq]
      by_cases known : stem ∈ pairs.map Prod.fst
      · obtain ⟨earlier, mem, same⟩ := List.mem_map.mp known
        have vanishes : (∀ first ∈ pairs, first.1 = stem → sample.figures.lines = 0) ↔
            sample.figures.lines = 0 :=
          ⟨fun all => all earlier mem same, fun none _ _ _ => none⟩
        rw [if_pos known, vanishes]
        omega
      · have vacuous : ∀ first ∈ pairs, first.1 = stem → sample.figures.lines = 0 :=
          fun first mem same => (known (List.mem_map.mpr ⟨first, mem, same⟩)).elim
        simp only [if_neg known, List.map_append, List.map_cons, List.map_nil, total_append,
          total_cons, total_nil, iff_true_intro vacuous, and_true, Sample.withFile]
        omega

end CodeGauge.History
