import CodeGauge.History
import Mathlib.Data.List.Induction
import Mathlib.Data.List.Nodup

/-!
# Histories as groupings

The history of a list of pairs is that list grouped by stem.  Its series are the distinct stems in
the order in which they first occur, each with its own values in the order of the list
(`series_ofPairs`), and its values are those of the list, each exactly once (`samples_ofPairs`).
Further pairs leave every series in its place and only add values at its end (`pushAll_extends`).
-/

namespace CodeGauge

theorem eraseDups_append_singleton {α : Type} [BEq α] [LawfulBEq α] (values : List α) (value : α) :
    (values ++ [value]).eraseDups =
      if value ∈ values then values.eraseDups else values.eraseDups ++ [value] := by
  rw [List.eraseDups_append]
  by_cases known : value ∈ values <;> simp [List.removeAll, known, List.eraseDups_cons]

/-- Values and their images repeat at the same places, if no two values have the same image. -/
theorem eraseDups_map {α β : Type} [BEq α] [LawfulBEq α] [BEq β] [LawfulBEq β] {image : α → β}
    {values : List α}
    (injective : ∀ a ∈ values, ∀ b ∈ values, image a = image b → a = b) :
    (values.map image).eraseDups = values.eraseDups.map image := by
  induction values using List.reverseRecOn with
  | nil => rfl
  | append_singleton values value ih =>
      have earlier : ∀ a ∈ values, ∀ b ∈ values, image a = image b → a = b :=
        fun a a_mem b b_mem =>
          injective a (List.mem_append_left _ a_mem) b (List.mem_append_left _ b_mem)
      have known_iff : image value ∈ values.map image ↔ value ∈ values := by
        refine ⟨fun known => ?_, List.mem_map_of_mem⟩
        obtain ⟨other, mem, same⟩ := List.mem_map.mp known
        have value_mem := List.mem_append_right values (List.mem_singleton_self value)
        exact injective other (List.mem_append_left _ mem) value value_mem same ▸ mem
      rw [List.map_append, List.map_singleton, eraseDups_append_singleton,
        eraseDups_append_singleton, ih earlier]
      by_cases known : value ∈ values
      · rw [if_pos known, if_pos (known_iff.mpr known)]
      · rw [if_neg known, if_neg (mt known_iff.mp known), List.map_append, List.map_singleton]

theorem nodup_eraseDups {α : Type} [BEq α] [LawfulBEq α] (values : List α) :
    values.eraseDups.Nodup := by
  induction values using List.reverseRecOn with
  | nil => exact List.nodup_nil
  | append_singleton values value ih =>
      rw [eraseDups_append_singleton]
      split
      · exact ih
      · rename_i unknown
        rw [← List.concat_eq_append]
        exact ih.concat (mt List.mem_eraseDups.mp unknown)

theorem length_eraseDups_le (texts : List String) : texts.eraseDups.length ≤ texts.length := by
  induction texts using List.reverseRecOn with
  | nil => simp
  | append_singleton texts text ih =>
      rw [eraseDups_append_singleton]
      split <;> simp <;> omega

/-- Removing repetitions shortens a list unless its members are distinct. -/
theorem length_eraseDups_eq_iff (texts : List String) :
    texts.eraseDups.length = texts.length ↔ texts.Nodup := by
  induction texts using List.reverseRecOn with
  | nil => simp
  | append_singleton texts text ih =>
      have bound := length_eraseDups_le texts
      have last : (texts ++ [text]).Nodup ↔ text ∉ texts ∧ texts.Nodup := by
        rw [← List.concat_eq_append, List.nodup_concat]
      rw [eraseDups_append_singleton, last, ← ih]
      by_cases known : text ∈ texts
      · simp [known]
        omega
      · simp [known]

section Partition

variable {κ β : Type} [BEq κ] [LawfulBEq κ] {key : β → κ} {keys : List κ}

open List in
/-- The values of one key after another are all values, if each has one of the keys. -/
theorem flatMap_filter_perm (distinct : keys.Nodup) {values : List β}
    (covered : ∀ value ∈ values, key value ∈ keys) :
    (keys.flatMap fun k => values.filter fun value => key value == k) ~ values := by
  induction keys generalizing values with
  | nil =>
      obtain rfl : values = [] := List.eq_nil_iff_forall_not_mem.mpr fun value mem => by
        simpa using covered value mem
      exact List.Perm.refl []
  | cons first keys ih =>
      obtain ⟨first_absent, keys_distinct⟩ := List.nodup_cons.mp distinct
      let others := values.filter fun value => !(key value == first)
      have others_covered : ∀ value ∈ others, key value ∈ keys := by
        intro value mem
        obtain ⟨value_mem, apart⟩ := List.mem_filter.mp mem
        exact (List.mem_cons.mp (covered value value_mem)).resolve_left (by simpa using apart)
      have same_values : ∀ k ∈ keys, values.filter (fun value => key value == k) =
          others.filter fun value => key value == k := by
        intro k mem
        have apart : k ≠ first := fun same => first_absent (same ▸ mem)
        rw [List.filter_filter]
        refine List.filter_congr fun value _ => ?_
        by_cases here : key value = k <;> simp [here, apart]
      calc
        ((first :: keys).flatMap fun k => values.filter fun value => key value == k) =
            values.filter (fun value => key value == first) ++
              keys.flatMap fun k => others.filter fun value => key value == k := by
          rw [List.flatMap_cons, List.flatMap_congr same_values]
        _ ~ values.filter (fun value => key value == first) ++ others :=
          (ih keys_distinct others_covered).append_left _
        _ ~ values := List.filter_append_perm _ values

/-- Among the values of one key after another, those of one key are in their order. -/
theorem filter_flatMap_filter (distinct : keys.Nodup) {k : κ} (present : k ∈ keys)
    (values : List β) :
    (keys.flatMap fun other => values.filter fun value => key value == other).filter
        (fun value => key value == k) =
      values.filter fun value => key value == k := by
  have filter_of_ne {other : κ} (apart : other ≠ k) :
      (values.filter fun value => key value == other).filter (fun value => key value == k) =
        [] := by
    rw [List.filter_filter, List.filter_eq_nil_iff]
    intro value _ both
    simp only [Bool.and_eq_true, beq_iff_eq] at both
    exact apart (both.2.symm.trans both.1)
  induction keys with
  | nil => simp at present
  | cons first keys ih =>
      obtain ⟨first_absent, keys_distinct⟩ := List.nodup_cons.mp distinct
      rw [List.flatMap_cons, List.filter_append]
      by_cases here : first = k
      · have elsewhere : ∀ other ∈ keys, other ≠ k := fun other mem same =>
          first_absent (here ▸ same ▸ mem)
        have rest : (keys.flatMap fun other => values.filter fun value => key value == other).filter
            (fun value => key value == k) = [] := by
          rw [List.filter_flatMap, List.flatMap_eq_nil_iff]
          exact fun other mem => filter_of_ne (elsewhere other mem)
        rw [here, rest, List.append_nil, List.filter_filter]
        simp
      · have later : k ∈ keys := (List.mem_cons.mp present).resolve_left (Ne.symm here)
        rw [filter_of_ne here, List.nil_append, ih keys_distinct later]

end Partition

namespace History

variable {α : Type}

theorem insertInto_of_not_mem {series : List (Series α)} {stem : String} (value : α)
    (absent : stem ∉ series.map Series.stem) :
    insertInto stem value series = series ++ [⟨stem, [value]⟩] := by
  induction series with
  | nil => rfl
  | cons first others ih =>
      rw [List.map_cons, List.mem_cons, not_or] at absent
      simp [insertInto, Ne.symm absent.1, ih absent.2]

theorem stem_insertInto_of_mem {series : List (Series α)} {stem : String} (value : α)
    (present : stem ∈ series.map Series.stem) :
    (insertInto stem value series).map Series.stem = series.map Series.stem := by
  induction series with
  | nil => simp at present
  | cons first others ih =>
      by_cases same : first.stem = stem
      · simp [insertInto, same]
      · have later : stem ∈ others.map Series.stem := by
          simpa [Ne.symm same] using present
        simp [insertInto, same, ih later]

theorem series_push_of_not_mem {history : History α} {stem : String} (value : α)
    (absent : stem ∉ history.stems) :
    (history.push stem value).series = history.series ++ [⟨stem, [value]⟩] :=
  insertInto_of_not_mem value absent

theorem stems_push (history : History α) (stem : String) (value : α) :
    (history.push stem value).stems =
      if stem ∈ history.stems then history.stems else history.stems ++ [stem] := by
  split
  · rename_i present
    exact stem_insertInto_of_mem value present
  · rename_i absent
    simp [stems, series_push_of_not_mem value absent]

theorem samples_push (history : History α) (stem : String) (value : α) :
    (history.push stem value).samples.Perm (value :: history.samples) := by
  obtain ⟨series⟩ := history
  simp only [samples, push]
  induction series with
  | nil => simp [insertInto]
  | cons first others ih =>
      by_cases same : first.stem = stem
      · simp [insertInto, same, List.perm_middle]
      · simp only [insertInto, same, if_false, List.flatMap_cons]
        exact (ih.append_left first.samples).trans List.perm_middle

def map {β : Type} (change : α → β) (history : History α) : History β :=
  ⟨history.series.map fun series => ⟨series.stem, series.samples.map change⟩⟩

theorem map_push {β : Type} (change : α → β) (history : History α) (stem : String) (value : α) :
    (history.push stem value).map change = (history.map change).push stem (change value) := by
  obtain ⟨series⟩ := history
  simp only [push, map, History.mk.injEq]
  induction series with
  | nil => rfl
  | cons first others ih =>
      by_cases same : first.stem = stem
      · simp [insertInto, same]
      · simp [insertInto, same, ih]

def pushAll (history : History α) (pairs : List (String × α)) : History α :=
  pairs.foldl (fun history pair => history.push pair.1 pair.2) history

@[simp]
theorem pushAll_nil (history : History α) : history.pushAll [] = history := rfl

@[simp]
theorem pushAll_cons (history : History α) (pair : String × α) (pairs : List (String × α)) :
    history.pushAll (pair :: pairs) = (history.push pair.1 pair.2).pushAll pairs := rfl

theorem pushAll_append (history : History α) (first second : List (String × α)) :
    history.pushAll (first ++ second) = (history.pushAll first).pushAll second :=
  List.foldl_append ..

theorem empty_pushAll (pairs : List (String × α)) : empty.pushAll pairs = ofPairs pairs := rfl

theorem ofPairs_append (first second : List (String × α)) :
    ofPairs (first ++ second) = (ofPairs first).pushAll second :=
  pushAll_append empty first second

theorem stems_ofPairs (pairs : List (String × α)) :
    (ofPairs pairs).stems = (pairs.map Prod.fst).eraseDups := by
  induction pairs using List.reverseRecOn with
  | nil => rfl
  | append_singleton pairs pair ih =>
      rw [ofPairs_append_singleton, stems_push, List.map_append, List.map_singleton,
        eraseDups_append_singleton]
      simp only [ih, List.mem_eraseDups]

theorem mem_stems_ofPairs {pairs : List (String × α)} {stem : String} :
    stem ∈ (ofPairs pairs).stems ↔ stem ∈ pairs.map Prod.fst := by
  rw [stems_ofPairs, List.mem_eraseDups]

def valuesOf (stem : String) (pairs : List (String × α)) : List α :=
  (pairs.filter fun pair => pair.1 == stem).map Prod.snd

theorem valuesOf_append (stem : String) (first second : List (String × α)) :
    valuesOf stem (first ++ second) = valuesOf stem first ++ valuesOf stem second := by
  simp [valuesOf]

@[simp]
theorem valuesOf_singleton (stem other : String) (value : α) :
    valuesOf stem [(other, value)] = if other = stem then [value] else [] := by
  by_cases same : other = stem <;> simp [valuesOf, same]

theorem valuesOf_eq_nil {stem : String} {pairs : List (String × α)}
    (absent : stem ∉ pairs.map Prod.fst) : valuesOf stem pairs = [] := by
  rw [valuesOf, List.map_eq_nil_iff, List.filter_eq_nil_iff]
  intro pair mem
  simpa using fun same => absent (List.mem_map.mpr ⟨pair, mem, same⟩)

/-- The series that distinct stems have by a function grow by a value at one of the stems. -/
theorem insertInto_map {stems : List String} (distinct : stems.Nodup) {stem : String}
    (present : stem ∈ stems) (values : String → List α) (value : α) :
    insertInto stem value (stems.map fun key => ⟨key, values key⟩) =
      stems.map fun key => ⟨key, values key ++ if stem = key then [value] else []⟩ := by
  induction stems with
  | nil => simp at present
  | cons first others ih =>
      obtain ⟨first_absent, others_distinct⟩ := List.nodup_cons.mp distinct
      by_cases same : first = stem
      · have apart : ∀ key ∈ others, stem ≠ key := by
          rintro key mem rfl
          exact first_absent (same ▸ mem)
        subst same
        simp only [List.map_cons, insertInto, if_true, List.cons.injEq, true_and]
        exact List.map_congr_left fun key mem => by simp [apart key mem]
      · have later : stem ∈ others := by
          simpa [Ne.symm same] using present
        simp [insertInto, same, Ne.symm same, ih others_distinct later]

theorem series_ofPairs (pairs : List (String × α)) :
    (ofPairs pairs).series =
      (pairs.map Prod.fst).eraseDups.map fun stem => ⟨stem, valuesOf stem pairs⟩ := by
  induction pairs using List.reverseRecOn with
  | nil => rfl
  | append_singleton pairs pair ih =>
      obtain ⟨stem, value⟩ := pair
      simp only [ofPairs_append_singleton, push, ih, List.map_append, List.map_singleton,
        eraseDups_append_singleton, valuesOf_append, valuesOf_singleton]
      by_cases known : stem ∈ pairs.map Prod.fst
      · rw [if_pos known, insertInto_map (nodup_eraseDups _) (List.mem_eraseDups.mpr known)]
      · have fresh : ∀ key ∈ (pairs.map Prod.fst).eraseDups, stem ≠ key := by
          rintro key mem rfl
          exact known (List.mem_eraseDups.mp mem)
        rw [if_neg known, insertInto_of_not_mem, List.map_append]
        · congr 1
          · exact List.map_congr_left fun key mem => by simp [fresh key mem]
          · simp [valuesOf_eq_nil known]
        · simpa [List.mem_eraseDups] using known

theorem samples_ofPairs (pairs : List (String × α)) :
    (ofPairs pairs).samples.Perm (pairs.map Prod.snd) := by
  induction pairs using List.reverseRecOn with
  | nil => exact List.Perm.refl []
  | append_singleton pairs pair ih =>
      rw [ofPairs_append_singleton, List.map_append, List.map_singleton]
      exact (samples_push _ _ _).trans
        ((ih.cons pair.2).trans (List.perm_append_singleton pair.2 _).symm)

theorem series_ofPairs_of_nodup {pairs : List (String × α)}
    (distinct : (pairs.map Prod.fst).Nodup) :
    (ofPairs pairs).series = pairs.map fun pair => ⟨pair.1, [pair.2]⟩ := by
  induction pairs using List.reverseRecOn with
  | nil => rfl
  | append_singleton pairs pair ih =>
      rw [List.map_append, List.map_singleton, List.nodup_append] at distinct
      have absent : pair.1 ∉ (ofPairs pairs).stems := fun mem =>
        distinct.2.2 pair.1 (mem_stems_ofPairs.mp mem) pair.1 (List.mem_singleton_self _) rfl
      rw [ofPairs_append_singleton, series_push_of_not_mem _ absent, ih distinct.1]
      simp

theorem samples_ofPairs_of_nodup {pairs : List (String × α)}
    (distinct : (pairs.map Prod.fst).Nodup) : (ofPairs pairs).samples = pairs.map Prod.snd := by
  rw [samples, series_ofPairs_of_nodup distinct, List.flatMap_map]
  exact List.map_eq_flatMap.symm

/-- Every series of the earlier history stands at the same place of the later one, and its values
begin that series. -/
def Extends (earlier later : History α) : Prop :=
  ∀ (place : Nat) (series : Series α), earlier.series[place]? = some series →
    ∃ grown, later.series[place]? = some grown ∧ grown.stem = series.stem ∧
      series.samples <+: grown.samples

theorem Extends.refl (history : History α) : history.Extends history :=
  fun _ series found => ⟨series, found, rfl, List.prefix_rfl⟩

theorem Extends.trans {first second third : History α} (left : first.Extends second)
    (right : second.Extends third) : first.Extends third := by
  intro place series found
  obtain ⟨grown, grown_found, grown_stem, grown_prefix⟩ := left place series found
  obtain ⟨final, final_found, final_stem, final_prefix⟩ := right place grown grown_found
  exact ⟨final, final_found, final_stem.trans grown_stem, grown_prefix.trans final_prefix⟩

theorem Extends.size_le {earlier later : History α} (grows : earlier.Extends later) :
    earlier.size ≤ later.size := by
  by_contra shorter
  have inside : later.series.length < earlier.series.length := by simpa [size] using shorter
  obtain ⟨grown, found, -⟩ := grows _ _ (List.getElem?_eq_getElem inside)
  simp at found

theorem Extends.isPrefix_stems {earlier later : History α} (grows : earlier.Extends later) :
    earlier.stems <+: later.stems := by
  rw [List.prefix_iff_getElem?]
  intro place inside
  have series_inside : place < earlier.series.length := by simpa [stems] using inside
  obtain ⟨grown, found, same_stem, -⟩ := grows _ _ (List.getElem?_eq_getElem series_inside)
  simp [stems, found, same_stem]

theorem position?_eq_findIdx?_stems (history : History α) (stem : String) :
    history.position? stem = history.stems.findIdx? fun other => other == stem := by
  rw [position?, stems, List.findIdx?_map]
  rfl

theorem Extends.isPrefix_get? {earlier later : History α} (grows : earlier.Extends later)
    {stem : String} {values : List α} (found : earlier.get? stem = some values) :
    ∃ grown, later.get? stem = some grown ∧ values <+: grown := by
  obtain ⟨place, at_place, series_found⟩ := Option.bind_eq_some_iff.mp found
  obtain ⟨series, at_series, rfl⟩ := Option.map_eq_some_iff.mp series_found
  obtain ⟨grown, grown_found, -, longer⟩ := grows place series at_series
  have later_place : later.position? stem = some place := by
    rw [position?_eq_findIdx?_stems] at at_place ⊢
    exact grows.isPrefix_stems.findIdx?_eq_some at_place
  exact ⟨grown.samples, by simp [get?, later_place, grown_found], longer⟩

theorem push_extends (history : History α) (stem : String) (value : α) :
    history.Extends (history.push stem value) := by
  obtain ⟨list⟩ := history
  intro place series found
  simp only [push] at found ⊢
  induction list generalizing place with
  | nil => simp at found
  | cons first others ih =>
      by_cases same : first.stem = stem
      · cases place with
        | zero =>
            obtain rfl : first = series := by simpa using found
            exact ⟨⟨first.stem, first.samples ++ [value]⟩, by simp [insertInto, same], rfl,
              List.prefix_append _ _⟩
        | succ place =>
            exact ⟨series, by simpa [insertInto, same] using found, rfl, List.prefix_rfl⟩
      · cases place with
        | zero =>
            obtain rfl : first = series := by simpa using found
            exact ⟨first, by simp [insertInto, same], rfl, List.prefix_rfl⟩
        | succ place =>
            simpa [insertInto, same] using ih place (by simpa using found)

/-- Filing pairs moves no series and changes none of the values already there. -/
theorem pushAll_extends (history : History α) (pairs : List (String × α)) :
    history.Extends (history.pushAll pairs) := by
  induction pairs generalizing history with
  | nil => exact Extends.refl history
  | cons pair pairs ih => exact (push_extends history pair.1 pair.2).trans (ih _)

theorem samples_ne_nil_of_mem_ofPairs {pairs : List (String × α)} {series : Series α}
    (mem : series ∈ (ofPairs pairs).series) : series.samples ≠ [] := by
  rw [series_ofPairs] at mem
  obtain ⟨stem, stem_mem, rfl⟩ := List.mem_map.mp mem
  obtain ⟨pair, pair_mem, rfl⟩ := List.mem_map.mp (List.mem_eraseDups.mp stem_mem)
  simpa [valuesOf] using ⟨pair.2, pair_mem⟩

/-- Values that a test rejects leave no trace among the values that it accepts. -/
theorem filter_samples_push {history : History α} {test : α → Bool} {value : α}
    (rejected : test value = false) (stem : String) :
    (history.push stem value).samples.filter test = history.samples.filter test := by
  obtain ⟨list⟩ := history
  simp only [push, samples]
  induction list with
  | nil => simp [insertInto, rejected]
  | cons first others ih =>
      by_cases same : first.stem = stem
      · simp [insertInto, same, rejected]
      · simp [insertInto, same, ih]

theorem filter_samples_pushAll {test : α → Bool} {pairs : List (String × α)}
    (rejected : ∀ pair ∈ pairs, test pair.2 = false) (history : History α) :
    (history.pushAll pairs).samples.filter test = history.samples.filter test := by
  induction pairs generalizing history with
  | nil => rfl
  | cons pair pairs ih =>
      rw [pushAll_cons, ih fun later mem => rejected later (List.mem_cons_of_mem pair mem)]
      exact filter_samples_push (rejected pair List.mem_cons_self) pair.1

end History

end CodeGauge
