import CodeGauge.History
import CodeGauge.Proofs.History.Grouping
import Mathlib.Data.Int.Order.Basic
import Mathlib.Data.List.Basic
import Mathlib.Data.String.Basic
import Mathlib.Order.Lattice

/-!
# Timelines

UTF-8 keeps the order of characters, so texts are in the order of their bytes (`lt_iff_utf8_lt`).
Each date of a history has exactly one entry in its timeline, the mean of the values that carry it
(`filter_timeline`), and where dates stand for times in their order, the timeline is that of the
times (`timeline_eq_map_times`).
-/

namespace CodeGauge.Text

def utf8 (text : String) : List UInt8 := text.toUTF8.data.toList

theorem utf8_eq_flatMap (text : String) :
    utf8 text = text.toList.flatMap String.utf8EncodeChar := by
  rw [utf8, String.toUTF8_eq_toByteArray, ← String.utf8Encode_toList, List.utf8Encode,
    List.data_toByteArray, List.toList_toArray]

theorem cons_ofNat_lt_cons_ofNat_iff {m n : Nat} (m_lt : m < 256) (n_lt : n < 256)
    {x y : List UInt8} :
    UInt8.ofNat m :: x < UInt8.ofNat n :: y ↔ m < n ∨ m = n ∧ x < y := by
  have m_eq : (UInt8.ofNat m).toNat = m := UInt8.toNat_ofNat_of_lt' m_lt
  have n_eq : (UInt8.ofNat n).toNat = n := UInt8.toNat_ofNat_of_lt' n_lt
  rw [List.cons_lt_cons_iff, UInt8.lt_iff_toNat_lt, ← UInt8.toNat_inj, m_eq, n_eq]

/-- A lesser character decides the order of the bytes, whatever follows. -/
theorem encode_append_lt {first second : Char} (less : first < second) (x y : List UInt8) :
    String.utf8EncodeChar first ++ x < String.utf8EncodeChar second ++ y := by
  have value_lt : first.val.toNat < second.val.toNat := less
  have value_bound : second.val.toNat < 0x110000 := by
    rcases second.valid with low | ⟨-, high⟩
    · exact low.trans (by decide)
    · exact high
  unfold String.utf8EncodeChar
  generalize first.val.toNat = v at *
  generalize second.val.toNat = w at *
  -- a number below 64 ^ 4 by its digits, so that each byte holds one of them
  have quotients (n : Nat) : n / 4096 = n / 64 / 64 ∧ n / 262144 = n / 64 / 64 / 64 := by omega
  simp only [quotients]
  split_ifs <;> simp (disch := omega) only [List.cons_append, cons_ofNat_lt_cons_ofNat_iff] <;>
    omega

theorem flatMap_encode_lt {first second : List Char} (less : first < second) :
    first.flatMap String.utf8EncodeChar < second.flatMap String.utf8EncodeChar := by
  induction first generalizing second with
  | nil =>
      cases second with
      | nil => exact absurd less (List.lt_irrefl [])
      | cons d second =>
          rw [List.flatMap_nil, List.flatMap_cons]
          have nonempty : 0 < (String.utf8EncodeChar d).length := by
            rw [String.length_utf8EncodeChar]
            exact Char.utf8Size_pos d
          obtain ⟨byte, bytes, encoded⟩ := List.exists_cons_of_length_pos nonempty
          rw [encoded, List.cons_append]
          exact List.nil_lt_cons ..
  | cons c first ih =>
      cases second with
      | nil => exact absurd less (List.not_lt_nil _)
      | cons d second =>
          rw [List.flatMap_cons, List.flatMap_cons]
          rcases List.cons_lt_cons_iff.mp less with head_less | ⟨rfl, tail_less⟩
          · exact encode_append_lt head_less _ _
          · exact List.append_left_lt (ih tail_less)

/-- The order of texts is the order of their bytes. -/
theorem lt_iff_utf8_lt {first second : String} : first < second ↔ utf8 first < utf8 second := by
  have forward {a b : String} (less : a < b) : utf8 a < utf8 b := by
    rw [utf8_eq_flatMap, utf8_eq_flatMap]
    exact flatMap_encode_lt (String.lt_iff_toList_lt.mp less)
  refine ⟨forward, fun less => ?_⟩
  rcases lt_trichotomy first second with earlier | rfl | later
  · exact earlier
  · exact absurd less (List.lt_irrefl _)
  · exact absurd less (List.lt_asymm (forward later))

end CodeGauge.Text

namespace CodeGauge.History

open Measurement

theorem pairwise_sorted_eraseDups {α : Type} [LinearOrder α] [BEq α] [LawfulBEq α]
    {before : α → α → Bool}
    (before_iff : ∀ first second, before first second = true ↔ second ≤ first) (values : List α) :
    (values.eraseDups.mergeSort before).Pairwise fun first second => second < first := by
  have sorted : (values.eraseDups.mergeSort before).Pairwise fun first second =>
      before first second = true := by
    apply List.pairwise_mergeSort
    · intro first second third left right
      rw [before_iff] at left right ⊢
      exact le_trans right left
    · intro first second
      rw [Bool.or_eq_true, before_iff, before_iff]
      exact le_total second first
  have distinct : (values.eraseDups.mergeSort before).Nodup :=
    (List.mergeSort_perm _ _).nodup_iff.mpr (nodup_eraseDups _)
  exact (List.pairwise_and_iff.mpr ⟨sorted, distinct⟩).imp fun {first second} ⟨le, apart⟩ =>
    lt_of_le_of_ne ((before_iff first second).mp le) (Ne.symm apart)

theorem mem_dates {samples : List Sample} {date : String} :
    date ∈ dates samples ↔ ∃ sample ∈ samples, sample.date = some date := by
  rw [dates, List.mem_mergeSort, List.mem_eraseDups, List.mem_filterMap]

theorem nodup_dates (samples : List Sample) : (dates samples).Nodup :=
  (List.mergeSort_perm _ _).nodup_iff.mpr (nodup_eraseDups _)

@[simp]
theorem date_onDate (samples : List Sample) (date : String) :
    (onDate samples date).date = some date := rfl

/-- The entries of a timeline at one of its dates: just one. -/
theorem filter_timeline {history : History Sample} {date : String}
    (present : date ∈ dates history.samples) :
    (history.timeline.filter fun entry => entry.date == some date) =
      [onDate history.samples date] := by
  have once : (dates history.samples).filter (fun other => other == date) = [date] := by
    rw [List.filter_beq, (nodup_dates _).count, if_pos present, List.replicate_one]
  rw [timeline, List.filter_map]
  simp only [Function.comp_def, date_onDate, Option.some_beq_some]
  rw [once, List.map_singleton]

def latestFirst (times : List Int) : List Int :=
  times.eraseDups.mergeSort fun first second => decide (second ≤ first)

theorem mem_latestFirst {times : List Int} {time : Int} :
    time ∈ latestFirst times ↔ time ∈ times := by
  rw [latestFirst, List.mem_mergeSort, List.mem_eraseDups]

theorem pairwise_latestFirst (times : List Int) :
    (latestFirst times).Pairwise fun first second => second < first :=
  pairwise_sorted_eraseDups (fun _ _ => decide_eq_true_iff) times

theorem eq_of_date_eq {times : List Int} {date : Int → String}
    (order : ∀ first ∈ times, ∀ second ∈ times, date first ≤ date second ↔ first ≤ second)
    {first second : Int} (first_mem : first ∈ times) (second_mem : second ∈ times)
    (same : date first = date second) : first = second := by
  have le := (order first first_mem second second_mem).mp (same ▸ String.le_refl _)
  have ge := (order second second_mem first first_mem).mp (same ▸ String.le_refl _)
  exact Int.le_antisymm le ge

/-- Dates that are in the order of the times for which they stand are sorted as the times are. -/
theorem dates_eq_map {samples : List Sample} {times : List Int} {date : Int → String}
    (dated : samples.filterMap Sample.date = times.map date)
    (order : ∀ first ∈ times, ∀ second ∈ times, date first ≤ date second ↔ first ≤ second) :
    dates samples = (latestFirst times).map date := by
  have injective : ∀ first ∈ times, ∀ second ∈ times, date first = date second →
      first = second :=
    fun _ first_mem _ second_mem same => eq_of_date_eq order first_mem second_mem same
  rw [dates, dated, eraseDups_map injective, latestFirst]
  refine (List.map_mergeSort fun first first_mem second second_mem => ?_).symm
  rw [decide_eq_decide]
  exact (order second (List.mem_eraseDups.mp second_mem) first
    (List.mem_eraseDups.mp first_mem)).symm

/-- The entry of a timeline at a time: the mean of the items of that time, with its date. -/
def entryAt {ι : Type} (items : List ι) (figures : ι → Figures Float) (time : ι → Int)
    (date : Int → String) (moment : Int) : Sample :=
  (Sample.ofFigures (.mean ((items.filter fun item => time item == moment).map figures))).withDate
    (date moment)

variable {ι : Type} {history : History Sample} {items : List ι} {figures : ι → Figures Float}
  {time : ι → Int} {date : Int → String}

theorem filterMap_date_of_made
    (made : history.samples =
      items.map fun item => (Sample.ofFigures (figures item)).withDate (date (time item))) :
    history.samples.filterMap Sample.date = (items.map time).map date := by
  rw [made, List.filterMap_map, List.map_map, ← List.filterMap_eq_map]
  rfl

theorem onDate_eq_entryAt
    (made : history.samples =
      items.map fun item => (Sample.ofFigures (figures item)).withDate (date (time item)))
    (apart : ∀ first ∈ items.map time, ∀ second ∈ items.map time,
      date first = date second → first = second)
    {moment : Int} (mem : moment ∈ items.map time) :
    onDate history.samples (date moment) = entryAt items figures time date moment := by
  have same_date : ∀ item ∈ items,
      (some (date (time item)) == some (date moment)) = (time item == moment) := by
    intro item item_mem
    rw [Option.some_beq_some, Bool.eq_iff_iff, beq_iff_eq, beq_iff_eq]
    exact ⟨apart _ (List.mem_map_of_mem item_mem) _ mem, fun same => by rw [same]⟩
  rw [entryAt, onDate, Sample.mean, made, List.filter_map, List.map_map]
  congr 4
  exact List.filter_congr same_date

/-- Where dates tell times apart, a timeline has one entry for each time, of the items of that
time. -/
theorem timeline_perm_map_times
    (made : history.samples =
      items.map fun item => (Sample.ofFigures (figures item)).withDate (date (time item)))
    (apart : ∀ first ∈ items.map time, ∀ second ∈ items.map time,
      date first = date second → first = second) :
    history.timeline.Perm
      ((latestFirst (items.map time)).map (entryAt items figures time date)) := by
  have dates_perm : (dates history.samples).Perm ((latestFirst (items.map time)).map date) := by
    rw [dates, filterMap_date_of_made made, eraseDups_map apart]
    exact (List.mergeSort_perm _ _).trans ((List.mergeSort_perm _ _).symm.map date)
  refine (dates_perm.map _).trans (List.Perm.of_eq ?_)
  rw [List.map_map]
  exact List.map_congr_left fun moment mem =>
    onDate_eq_entryAt made apart (mem_latestFirst.mp mem)

/-- Where dates are in the order of the times for which they stand, these entries come with the
latest time first. -/
theorem timeline_eq_map_times
    (made : history.samples =
      items.map fun item => (Sample.ofFigures (figures item)).withDate (date (time item)))
    (order : ∀ first ∈ items.map time, ∀ second ∈ items.map time,
      date first ≤ date second ↔ first ≤ second) :
    history.timeline =
      (latestFirst (items.map time)).map (entryAt items figures time date) := by
  rw [timeline, dates_eq_map (filterMap_date_of_made made) order, List.map_map]
  exact List.map_congr_left fun moment mem =>
    onDate_eq_entryAt made
      (fun _ first_mem _ second_mem => eq_of_date_eq order first_mem second_mem)
      (mem_latestFirst.mp mem)

end CodeGauge.History
