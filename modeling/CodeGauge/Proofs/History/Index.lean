import CodeGauge.History
import CodeGauge.Proofs.History.Grouping
import Mathlib.Data.Finset.Card
import Mathlib.Data.Finset.Dedup

/-!
# The index of a history

Filing through an index files as a search for the stem does, as long as the index has each stem at
the place of its series; and filing keeps the index so (`InStep.push`).  A history that began empty
and was filled through the index is therefore the grouping of all that was filed, with each stem of
the grouping indexed at its place (`indexed_ofPairs_groups`).
-/

namespace CodeGauge

namespace History

variable {α : Type}

theorem position?_eq_none_iff {history : History α} {stem : String} :
    history.position? stem = none ↔ stem ∉ history.stems := by
  rw [position?_eq_findIdx?_stems, List.findIdx?_eq_none_iff]
  refine ⟨fun absent mem => by simpa using absent stem mem, fun absent other mem => ?_⟩
  simpa using fun same : other = stem => absent (same ▸ mem)

theorem position?_eq_some_iff {history : History α} (distinct : history.stems.Nodup)
    {stem : String} {place : Nat} :
    history.position? stem = some place ↔ history.stems[place]? = some stem := by
  rw [position?_eq_findIdx?_stems, List.findIdx?_eq_some_iff_getElem, List.getElem?_eq_some_iff]
  constructor
  · rintro ⟨inside, here, -⟩
    exact ⟨inside, by simpa using here⟩
  · rintro ⟨inside, rfl⟩
    refine ⟨inside, by simp, fun earlier before => ?_⟩
    have apart : history.stems[earlier] ≠ history.stems[place] := fun same =>
      before.ne (distinct.getElem_inj_iff.mp same)
    simpa using apart

theorem position?_push_of_mem {history : History α} {stem : String}
    (present : stem ∈ history.stems) (value : α) (other : String) :
    (history.push stem value).position? other = history.position? other := by
  rw [position?_eq_findIdx?_stems, stems_push, if_pos present, ← position?_eq_findIdx?_stems]

theorem position?_push_of_not_mem {history : History α} {stem : String}
    (absent : stem ∉ history.stems) (value : α) (other : String) :
    (history.push stem value).position? other =
      if other = stem then some history.size else history.position? other := by
  have length_stems : history.stems.length = history.size := List.length_map _
  rw [position?_eq_findIdx?_stems, stems_push, if_neg absent, List.findIdx?_append,
    ← position?_eq_findIdx?_stems]
  by_cases same : other = stem
  · subst same
    simp [position?_eq_none_iff.mpr absent, length_stems]
  · simp [same, Ne.symm same]

theorem nodup_stems_push {history : History α} (distinct : history.stems.Nodup) (stem : String)
    (value : α) : (history.push stem value).stems.Nodup := by
  rw [stems_push]
  split
  · exact distinct
  · rename_i absent
    rw [← List.concat_eq_append]
    exact distinct.concat absent

theorem series_push_of_position? {history : History α} {stem : String} {place : Nat}
    (found : history.position? stem = some place) (value : α) :
    (history.push stem value).series = history.series.modify place (·.add value) := by
  obtain ⟨series⟩ := history
  simp only [position?, push] at found ⊢
  induction series generalizing place with
  | nil => simp at found
  | cons first others ih =>
      rw [List.findIdx?_cons] at found
      by_cases same : first.stem = stem
      · obtain rfl : place = 0 := by simpa [same, eq_comm] using found
        simp [insertInto, same, Series.add]
      · obtain ⟨later, later_found, rfl⟩ : ∃ later,
            others.findIdx? (fun series => series.stem == stem) = some later ∧
              later + 1 = place := by
          simpa [same] using found
        simp [insertInto, same, ih later_found]

def labelled (history : History α) : List (String × α) :=
  history.series.flatMap fun series => series.samples.map fun value => (series.stem, value)

theorem map_snd_labelled (history : History α) :
    history.labelled.map Prod.snd = history.samples := by
  simp [labelled, samples, List.map_flatMap, Function.comp_def]

theorem map_mk_valuesOf (stem : String) (pairs : List (String × α)) :
    (valuesOf stem pairs).map (fun value => (stem, value)) =
      pairs.filter fun pair => pair.1 == stem := by
  rw [valuesOf, List.map_map]
  conv_rhs => rw [← List.map_id (pairs.filter _)]
  refine List.map_congr_left fun pair mem => ?_
  obtain rfl : pair.1 = stem := by simpa using (List.mem_filter.mp mem).2
  rfl

theorem labelled_ofPairs (pairs : List (String × α)) :
    (ofPairs pairs).labelled =
      (pairs.map Prod.fst).eraseDups.flatMap fun stem =>
        pairs.filter fun pair => pair.1 == stem := by
  simp only [labelled, series_ofPairs, List.flatMap_map, map_mk_valuesOf]

theorem labelled_ofPairs_perm (pairs : List (String × α)) :
    (ofPairs pairs).labelled.Perm pairs := by
  rw [labelled_ofPairs]
  exact flatMap_filter_perm (nodup_eraseDups _) fun pair mem =>
    List.mem_eraseDups.mpr (List.mem_map_of_mem mem)

/-- Under each stem the values keep the order in which they were filed. -/
theorem valuesOf_labelled_ofPairs (stem : String) (pairs : List (String × α)) :
    valuesOf stem (ofPairs pairs).labelled = valuesOf stem pairs := by
  by_cases present : stem ∈ pairs.map Prod.fst
  · have known := List.mem_eraseDups.mpr present
    rw [valuesOf, labelled_ofPairs, filter_flatMap_filter (nodup_eraseDups _) known, valuesOf]
  · have absent : stem ∉ (ofPairs pairs).labelled.map Prod.fst := fun mem =>
      present (((labelled_ofPairs_perm pairs).map Prod.fst).mem_iff.mp mem)
    rw [valuesOf_eq_nil absent, valuesOf_eq_nil present]

theorem samples_of_mem_ofPairs {pairs : List (String × α)} {series : Series α}
    (mem : series ∈ (ofPairs pairs).series) : series.samples = valuesOf series.stem pairs := by
  rw [series_ofPairs] at mem
  obtain ⟨stem, -, rfl⟩ := List.mem_map.mp mem
  rfl

theorem get?_ofPairs {pairs : List (String × α)} {stem : String}
    (present : stem ∈ pairs.map Prod.fst) :
    (ofPairs pairs).get? stem = some (valuesOf stem pairs) := by
  have distinct : (ofPairs pairs).stems.Nodup := stems_ofPairs pairs ▸ nodup_eraseDups _
  obtain ⟨place, at_place⟩ := List.mem_iff_getElem?.mp (mem_stems_ofPairs.mpr present)
  have found := (position?_eq_some_iff distinct).mpr at_place
  obtain ⟨series, at_series, rfl⟩ : ∃ series, (ofPairs pairs).series[place]? = some series ∧
      series.stem = stem := by
    simpa [stems] using at_place
  rw [get?, found, Option.bind_some, at_series, Option.map_some,
    samples_of_mem_ofPairs (List.mem_of_getElem? at_series)]

theorem size_ofPairs (pairs : List (String × α)) :
    (ofPairs pairs).size = (pairs.map Prod.fst).toFinset.card := by
  have stems : (pairs.map Prod.fst).toFinset = (ofPairs pairs).stems.toFinset := by
    ext stem
    rw [List.mem_toFinset, List.mem_toFinset, mem_stems_ofPairs]
  have distinct : (ofPairs pairs).stems.Nodup := stems_ofPairs pairs ▸ nodup_eraseDups _
  rw [stems, List.toFinset_card_of_nodup distinct]
  exact (List.length_map _).symm

theorem isEmpty_ofPairs_iff {pairs : List (String × α)} :
    (ofPairs pairs).isEmpty = true ↔ pairs = [] := by
  rw [isEmpty, List.isEmpty_iff_length_eq_zero]
  change (ofPairs pairs).size = 0 ↔ pairs = []
  rw [size_ofPairs, Finset.card_eq_zero, List.toFinset_eq_empty_iff, List.map_eq_nil_iff]

end History

namespace IndexedHistory

variable {α : Type}

/-- The index has exactly the stems of the history, each at the place of its series. -/
structure InStep (indexed : IndexedHistory α) : Prop where
  distinct : indexed.history.stems.Nodup
  place_eq : ∀ stem, indexed.place? stem = indexed.history.position? stem

theorem inStep_empty : (empty : IndexedHistory α).InStep := ⟨List.nodup_nil, fun _ => rfl⟩

theorem InStep.history_push {indexed : IndexedHistory α} (sound : indexed.InStep) (stem : String)
    (value : α) : (indexed.push stem value).history = indexed.history.push stem value := by
  unfold IndexedHistory.push
  cases found : indexed.place? stem with
  | some place =>
      rw [sound.place_eq] at found
      exact congrArg History.mk (History.series_push_of_position? found value).symm
  | none =>
      rw [sound.place_eq, History.position?_eq_none_iff] at found
      exact congrArg History.mk (History.series_push_of_not_mem value found).symm

theorem InStep.push {indexed : IndexedHistory α} (sound : indexed.InStep) (stem : String)
    (value : α) : (indexed.push stem value).InStep := by
  have filed := sound.history_push stem value
  refine ⟨filed ▸ History.nodup_stems_push sound.distinct stem value, fun other => ?_⟩
  rw [filed]
  -- only a new stem changes the index, and then the history has a series at its end to point to
  cases found : indexed.place? stem with
  | some place =>
      have present : stem ∈ indexed.history.stems := by
        by_contra absent
        rw [sound.place_eq, History.position?_eq_none_iff.mpr absent] at found
        cases found
      have kept : (indexed.push stem value).places = indexed.places := by
        simp [IndexedHistory.push, found]
      rw [History.position?_push_of_mem present, ← sound.place_eq, place?, place?, kept]
  | none =>
      have absent := History.position?_eq_none_iff.mp ((sound.place_eq stem).symm.trans found)
      have added : (indexed.push stem value).places =
          (stem, indexed.history.size) :: indexed.places := by
        simp [IndexedHistory.push, found]
      rw [History.position?_push_of_not_mem absent, ← sound.place_eq, place?, place?, added,
        List.lookup_cons]
      cases same : other == stem with
      | true => simp [eq_of_beq same]
      | false => simp [ne_of_beq_false same]

theorem ofPairs_append_singleton (pairs : List (String × α)) (stem : String) (value : α) :
    ofPairs (pairs ++ [(stem, value)]) = (ofPairs pairs).push stem value := by
  simp [ofPairs]

theorem inStep_ofPairs (pairs : List (String × α)) : (ofPairs pairs).InStep := by
  induction pairs using List.reverseRecOn with
  | nil => exact inStep_empty
  | append_singleton pairs pair ih =>
      rw [ofPairs_append_singleton]
      exact ih.push pair.1 pair.2

theorem history_ofPairs (pairs : List (String × α)) : (ofPairs pairs).history = .ofPairs pairs := by
  induction pairs using List.reverseRecOn with
  | nil => rfl
  | append_singleton pairs pair ih =>
      rw [ofPairs_append_singleton, (inStep_ofPairs pairs).history_push, ih,
        History.ofPairs_append_singleton]

/-- An index in step has a stem at a place exactly when the series there is that of the stem. -/
theorem InStep.place?_eq_some_iff {indexed : IndexedHistory α} (sound : indexed.InStep)
    {stem : String} {place : Nat} :
    indexed.place? stem = some place ↔ indexed.history.stems[place]? = some stem := by
  rw [sound.place_eq, History.position?_eq_some_iff sound.distinct]

/-- What is filed through an index is grouped by stem: the index has exactly the stems of the
series, each at the place of its only series; the stems are in the order in which they first occur;
each series has the values of its stem, at least one of them, in their order; and the values of all
series are those that were filed, each once and under each stem in their order.  The search for a
series and the index agree, so all this holds of the history without an index. -/
theorem indexed_ofPairs_groups (pairs : List (String × α)) :
    (ofPairs pairs).history = .ofPairs pairs ∧
      (∀ stem place, (ofPairs pairs).place? stem = some place ↔
        (History.ofPairs pairs).stems[place]? = some stem) ∧
      (∀ stem, ((ofPairs pairs).place? stem).isSome ↔ stem ∈ pairs.map Prod.fst) ∧
      (History.ofPairs pairs).stems.Nodup ∧
      (History.ofPairs pairs).stems = (pairs.map Prod.fst).eraseDups ∧
      (∀ series ∈ (History.ofPairs pairs).series,
        series.samples ≠ [] ∧ series.samples = History.valuesOf series.stem pairs) ∧
      ((History.ofPairs pairs).labelled.map Prod.snd = (History.ofPairs pairs).samples ∧
        (History.ofPairs pairs).labelled.Perm pairs ∧
        ∀ stem, History.valuesOf stem (History.ofPairs pairs).labelled =
          History.valuesOf stem pairs) ∧
      (History.ofPairs pairs).size = (pairs.map Prod.fst).toFinset.card ∧
      ((History.ofPairs pairs).isEmpty = true ↔ pairs = []) := by
  have sound := inStep_ofPairs pairs
  have filed := history_ofPairs pairs
  refine ⟨filed, ?_, ?_, ?_, ?_, ?_, ?_, ?_, ?_⟩
  · intro stem place
    rw [sound.place?_eq_some_iff, filed]
  · intro stem
    rw [sound.place_eq, Option.isSome_iff_ne_none, Ne, History.position?_eq_none_iff, not_not,
      filed, History.mem_stems_ofPairs]
  · exact filed ▸ sound.distinct
  · exact History.stems_ofPairs pairs
  · intro series mem
    exact ⟨History.samples_ne_nil_of_mem_ofPairs mem, History.samples_of_mem_ofPairs mem⟩
  · exact ⟨History.map_snd_labelled _, History.labelled_ofPairs_perm pairs,
      fun stem => History.valuesOf_labelled_ofPairs stem pairs⟩
  · exact History.size_ofPairs pairs
  · exact History.isEmpty_ofPairs_iff

end IndexedHistory

end CodeGauge
