import CodeGauge.Proofs.History.Index
import CodeGauge.Proofs.History.Timeline

/-!
# Timelines as regroupings

A timeline is the history regrouped by date.  Its dates are those of the samples, each once and in
descending order, and its lines are those of the dated samples (`totalLines_timeline`).  Whatever
order the groups are met in and however they are sorted, the entries are the same
(`map_groups_eq_timeline`), and the dates and lines depend on the samples alone, not on their order
(`timeline_lines_eq_of_perm`).
-/

namespace CodeGauge

open Measurement

namespace History

theorem pairwise_dates (samples : List Sample) :
    (dates samples).Pairwise fun first second => second < first :=
  pairwise_sorted_eraseDups (fun _ _ => decide_eq_true_iff) _

theorem pairwise_le_dates (samples : List Sample) :
    (dates samples).Pairwise fun first second => second ≤ first :=
  (pairwise_dates samples).imp le_of_lt

/-- Any list of the dates, each once, that descends is the list of the dates. -/
theorem eq_dates {samples : List Sample} {sorted : List String} (distinct : sorted.Nodup)
    (mem_iff : ∀ date, date ∈ sorted ↔ ∃ sample ∈ samples, sample.date = some date)
    (descends : sorted.Pairwise fun first second => second ≤ first) : sorted = dates samples := by
  have same : sorted.Perm (dates samples) :=
    (List.perm_ext_iff_of_nodup distinct (nodup_dates samples)).mpr fun date =>
      (mem_iff date).trans mem_dates.symm
  exact same.eq_of_pairwise (fun _ _ _ _ ge le => le_antisymm le ge) descends
    (pairwise_le_dates samples)

theorem dates_eq_of_perm {first second : List Sample} (same : first.Perm second) :
    dates first = dates second := by
  refine eq_dates (nodup_dates first) (fun date => ?_) (pairwise_le_dates first)
  simp only [mem_dates, same.mem_iff]

def datedOf (samples : List Sample) : List Sample :=
  samples.filter fun sample => sample.date.isSome

theorem dates_datedOf (samples : List Sample) : dates (datedOf samples) = dates samples := by
  refine eq_dates (nodup_dates _) (fun date => ?_) (pairwise_le_dates _)
  rw [mem_dates]
  refine exists_congr fun sample => ?_
  rw [datedOf, List.mem_filter]
  constructor
  · rintro ⟨⟨mem, -⟩, dated⟩
    exact ⟨mem, dated⟩
  · rintro ⟨mem, dated⟩
    exact ⟨⟨mem, by simp [dated]⟩, dated⟩

theorem filter_date_datedOf (samples : List Sample) (date : String) :
    (datedOf samples).filter (fun sample => sample.date == some date) =
      samples.filter fun sample => sample.date == some date := by
  rw [datedOf, List.filter_filter]
  refine List.filter_congr fun sample _ => ?_
  cases sample.date <;> simp

/-- A timeline depends on the samples that have a date and on no others. -/
theorem timeline_eq_of_datedOf {history other : History Sample}
    (same : datedOf other.samples = datedOf history.samples) :
    other.timeline = history.timeline := by
  have entries (history : History Sample) : history.timeline =
      (dates (datedOf history.samples)).map (onDate (datedOf history.samples)) := by
    rw [timeline, dates_datedOf]
    refine List.map_congr_left fun date _ => ?_
    rw [onDate, onDate, filter_date_datedOf]
  rw [entries other, entries history, same]

theorem lines_onDate (samples : List Sample) (date : String) :
    (onDate samples date).figures.lines =
      Figures.totalLines ((samples.filter fun sample => sample.date == some date).map
        Sample.figures) :=
  Figures.lines_mean _

theorem totalLines_perm {first second : List Sample} (same : first.Perm second) :
    Figures.totalLines (first.map Sample.figures) =
      Figures.totalLines (second.map Sample.figures) :=
  total_perm ((same.map _).map _)

/-- The entries of a timeline have together the lines of the samples that have a date. -/
theorem totalLines_timeline (history : History Sample) :
    Figures.totalLines (history.timeline.map Sample.figures) =
      Figures.totalLines ((datedOf history.samples).map Sample.figures) := by
  let days := (dates history.samples).map some
  have days_distinct : days.Nodup := (nodup_dates _).map (Option.some_injective _)
  have covered : ∀ sample ∈ datedOf history.samples, sample.date ∈ days := by
    intro sample mem
    obtain ⟨sample_mem, dated⟩ := List.mem_filter.mp mem
    obtain ⟨date, date_eq⟩ := Option.isSome_iff_exists.mp dated
    rw [date_eq]
    exact List.mem_map_of_mem (mem_dates.mpr ⟨sample, sample_mem, date_eq⟩)
  rw [← totalLines_perm (flatMap_filter_perm days_distinct covered)]
  simp only [days, timeline, Figures.totalLines, List.map_map, List.map_flatMap, total_flatMap,
    List.flatMap_map, filter_date_datedOf]
  congr 1
  refine List.map_congr_left fun date _ => ?_
  rw [← List.map_map]
  exact lines_onDate history.samples date

/-- Histories of the same samples in another order have timelines with the same dates and the same
lines at each date. -/
theorem timeline_lines_eq_of_perm {first second : History Sample}
    (same : first.samples.Perm second.samples) :
    (first.timeline.map fun entry => (entry.date, entry.figures.lines)) =
      second.timeline.map fun entry => (entry.date, entry.figures.lines) := by
  rw [timeline, timeline, dates_eq_of_perm same, List.map_map, List.map_map]
  refine List.map_congr_left fun date _ => ?_
  simp only [Function.comp_apply, date_onDate, lines_onDate]
  rw [totalLines_perm (same.filter _)]

def withDates (samples : List Sample) : List (String × Sample) :=
  samples.filterMap fun sample => sample.date.map fun date => (date, sample)

def byDate (history : History Sample) : History Sample := .ofPairs (withDates history.samples)

theorem mem_map_fst_withDates {samples : List Sample} {date : String} :
    date ∈ (withDates samples).map Prod.fst ↔ ∃ sample ∈ samples, sample.date = some date := by
  simp [withDates, List.map_filterMap]

theorem valuesOf_withDates (samples : List Sample) (date : String) :
    valuesOf date (withDates samples) = samples.filter fun sample => sample.date == some date := by
  rw [valuesOf, withDates, List.filter_filterMap, List.map_filterMap, ← List.filterMap_eq_filter]
  refine List.filterMap_congr fun sample _ => ?_
  cases dated : sample.date with
  | none => simp [Option.guard, dated]
  | some other => by_cases same : other = date <;> simp [Option.guard, dated, same]

theorem get?_byDate {history : History Sample} {date : String}
    (present : date ∈ history.byDate.stems) :
    history.byDate.get? date =
      some (history.samples.filter fun sample => sample.date == some date) := by
  rw [byDate, get?_ofPairs (mem_stems_ofPairs.mp present), valuesOf_withDates]

/-- The groups, met in any order of their dates and sorted in any way that puts later dates first,
give the timeline. -/
theorem map_groups_eq_timeline (history : History Sample) {met sorted : List String}
    (met_perm : met.Perm history.byDate.stems) (sorted_perm : sorted.Perm met)
    (descends : sorted.Pairwise fun first second => second ≤ first) :
    (sorted.map fun date =>
      (Sample.mean ((history.byDate.get? date).getD [])).withDate date) = history.timeline := by
  have same := sorted_perm.trans met_perm
  have distinct : history.byDate.stems.Nodup := stems_ofPairs _ ▸ nodup_eraseDups _
  have mem_iff : ∀ date, date ∈ sorted ↔ ∃ sample ∈ history.samples, sample.date = some date := by
    intro date
    rw [same.mem_iff, byDate, mem_stems_ofPairs, mem_map_fst_withDates]
  rw [timeline, ← eq_dates (same.nodup_iff.mpr distinct) mem_iff descends]
  refine List.map_congr_left fun date mem => ?_
  rw [get?_byDate (same.mem_iff.mp mem)]
  rfl

/-- A timeline is its history regrouped by date.  The dates, strictly descending by their bytes, are
those of the samples; the entry at a date is the mean of the samples that carry it, in their order,
with that date and no file.  Samples without a date play no part, and the lines of the entries are
those of the others.  Neither the order in which the groups are met nor the way in which they are
sorted plays a part, and filing in another order keeps the dates and the lines at each. -/
theorem timeline_regroups (history : History Sample) :
    (∃ days : List String,
      (days.Pairwise fun first second => Text.utf8 second < Text.utf8 first) ∧
      (∀ date, date ∈ days ↔ ∃ sample ∈ history.samples, sample.date = some date) ∧
      history.timeline = days.map fun date =>
        (Sample.mean (history.samples.filter fun sample => sample.date == some date)).withDate
          date) ∧
    (∀ entry ∈ history.timeline, entry.file = none) ∧
    (∀ other : History Sample, datedOf other.samples = datedOf history.samples →
      other.timeline = history.timeline) ∧
    Figures.totalLines (history.timeline.map Sample.figures) =
      Figures.totalLines ((datedOf history.samples).map Sample.figures) ∧
    (∀ met sorted : List String, met.Perm history.byDate.stems → sorted.Perm met →
      (sorted.Pairwise fun first second => second ≤ first) →
      (sorted.map fun date =>
        (Sample.mean ((history.byDate.get? date).getD [])).withDate date) = history.timeline) ∧
    (∀ pairs others : List (String × Sample), history = .ofPairs pairs → others.Perm pairs →
      ((ofPairs others).timeline.map fun entry => (entry.date, entry.figures.lines)) =
        history.timeline.map fun entry => (entry.date, entry.figures.lines)) := by
  refine ⟨⟨dates history.samples, ?_, fun date => mem_dates, rfl⟩, ?_, ?_, ?_, ?_, ?_⟩
  · exact (pairwise_dates history.samples).imp Text.lt_iff_utf8_lt.mp
  · intro entry mem
    obtain ⟨date, -, rfl⟩ := List.mem_map.mp mem
    rfl
  · intro other same
    exact timeline_eq_of_datedOf same
  · exact totalLines_timeline history
  · intro met sorted met_perm sorted_perm descends
    exact map_groups_eq_timeline history met_perm sorted_perm descends
  · rintro pairs others rfl same
    have samples_perm : (ofPairs others).samples.Perm (ofPairs pairs).samples :=
      (samples_ofPairs others).trans ((same.map Prod.snd).trans (samples_ofPairs pairs).symm)
    exact timeline_lines_eq_of_perm samples_perm

/-- Two files on two days, and one of them without a date. -/
def twoDays : List (String × Sample) :=
  [("a", ⟨⟨2.0, 50.0, 10⟩, none, some "2024-02-01 09:00:00"⟩),
    ("b", ⟨⟨4.0, 70.0, 30⟩, none, some "2024-03-01 10:00:00"⟩),
    ("a", ⟨⟨1.0, 60.0, 5⟩, none, none⟩)]

theorem twoDays_regroup :
    (["2024-03-01 10:00:00", "2024-02-01 09:00:00"].map fun date =>
        (Sample.mean (((ofPairs twoDays).byDate.get? date).getD [])).withDate date) =
      (ofPairs twoDays).timeline ∧
    twoDays.reverse.Perm twoDays ∧
    ((ofPairs twoDays.reverse).timeline.map fun entry => (entry.date, entry.figures.lines)) =
      (ofPairs twoDays).timeline.map fun entry => (entry.date, entry.figures.lines) := by
  obtain ⟨-, -, -, -, grouped, reordered⟩ := timeline_regroups (ofPairs twoDays)
  have met : (ofPairs twoDays).byDate.stems = ["2024-02-01 09:00:00", "2024-03-01 10:00:00"] := by
    decide +kernel
  refine ⟨grouped _ _ (met ▸ List.Perm.refl _) (List.Perm.swap ..) (by decide +kernel), ?_, ?_⟩
  · exact List.reverse_perm twoDays
  · exact reordered twoDays twoDays.reverse rfl (List.reverse_perm twoDays)

end History

end CodeGauge
