import CodeGauge.Proofs.Filesystem.Writing
import CodeGauge.Report.Tables

/-!
# Attempts at tables

Every table is attempted, whatever became of those before it.  Where the places of the tables are
distinct, each table whose file can be created is found at its path (`found?_attemptAll`), and
everything else is as it was.
-/

namespace CodeGauge.Report

open Filesystem

abbrev Table := List Char × List Csv.Record

variable {working : Location} {progress : Progress} {location : Location}
  {table : Table} {attempts : List Table}

/-- The text of a table: its header and its rows, one record after another. -/
def tableText (table : Table) : String := String.ofList (Csv.render table.2)

/-- A file can be created at a path. -/
def IsCreatable (tree : Filesystem) (working : Location) (path : List Char) : Prop :=
  ∃ location, tree.target working path = .ok location

theorem target_of_not_isCreatable {tree : Filesystem} {path : List Char}
    (blocked : ¬IsCreatable tree working path) :
    ∃ error, tree.target working path = .error error := by
  cases reached : tree.target working path with
  | error error => exact ⟨error, rfl⟩
  | ok location => exact (blocked ⟨location, reached⟩).elim

theorem attempt_of_target (reached : progress.files.target working table.1 = .ok location) :
    attempt working progress table =
      ⟨progress.files.set location (.file (tableText table)), progress.failure⟩ := by
  rw [attempt, Filesystem.write, reached]
  rfl

theorem attempt_of_error {error : FileError}
    (refused : progress.files.target working table.1 = .error error) :
    attempt working progress table =
      ⟨progress.files, progress.failure.or (some (.table table.1 error))⟩ := by
  rw [attempt, Filesystem.write, refused]

theorem sameDirectories_attempt (working : Location) (progress : Progress)
    (table : Table) :
    progress.files.SameDirectories (attempt working progress table).files := by
  cases reached : progress.files.target working table.1 with
  | error error =>
      rw [attempt_of_error reached]
      exact SameDirectories.refl progress.files
  | ok location =>
      rw [attempt_of_target reached]
      exact sameDirectories_set (ne_nil_of_target reached) (item?_ne_directory_of_target reached) _

theorem item?_attempt (elsewhere : progress.files.target working table.1 ≠ .ok location) :
    (attempt working progress table).files.item? location = progress.files.item? location := by
  cases reached : progress.files.target working table.1 with
  | error error => rw [attempt_of_error reached]
  | ok place =>
      have apart : location ≠ place := fun same => elsewhere (same ▸ reached)
      rw [attempt_of_target reached, item?_set _ _ _ _ (ne_nil_of_target reached), if_neg apart]

theorem failure_attempt_of_isCreatable (creatable : IsCreatable progress.files working table.1) :
    (attempt working progress table).failure = progress.failure := by
  obtain ⟨location, reached⟩ := creatable
  rw [attempt_of_target reached]

theorem failure_attempt_of_some {error : WriteError} (failed : progress.failure = some error) :
    (attempt working progress table).failure = some error := by
  cases reached : progress.files.target working table.1 with
  | error _ => rw [attempt_of_error reached, failed, Option.some_or]
  | ok location => rw [attempt_of_target reached, failed]

def attemptAll (working : Location) (progress : Progress) (attempts : List Table) : Progress :=
  attempts.foldl (attempt working) progress

theorem attemptAll_cons (table : Table) (attempts : List Table) :
    attemptAll working progress (table :: attempts) =
      attemptAll working (attempt working progress table) attempts := rfl

theorem attemptAll_append (first second : List Table) :
    attemptAll working progress (first ++ second) =
      attemptAll working (attemptAll working progress first) second := List.foldl_append

theorem sameDirectories_attemptAll (working : Location) (progress : Progress)
    (attempts : List Table) :
    progress.files.SameDirectories (attemptAll working progress attempts).files := by
  induction attempts generalizing progress with
  | nil => exact SameDirectories.refl progress.files
  | cons table attempts ih => exact (sameDirectories_attempt working progress table).trans (ih _)

theorem item?_attemptAll (progress : Progress)
    (elsewhere : ∀ table ∈ attempts, progress.files.target working table.1 ≠ .ok location) :
    (attemptAll working progress attempts).files.item? location =
      progress.files.item? location := by
  induction attempts generalizing progress with
  | nil => rfl
  | cons table attempts ih =>
      -- no attempt changes where the later paths lead
      have same := sameDirectories_attempt working progress table
      rw [attemptAll_cons, ih _ fun later mem => mt same.target_eq_ok_iff.mpr
        (elsewhere later (List.mem_cons_of_mem table mem))]
      exact item?_attempt (elsewhere table List.mem_cons_self)

theorem failure_attemptAll_of_isCreatable (progress : Progress)
    (creatable : ∀ table ∈ attempts, IsCreatable progress.files working table.1) :
    (attemptAll working progress attempts).failure = progress.failure := by
  induction attempts generalizing progress with
  | nil => rfl
  | cons table attempts ih =>
      have same := sameDirectories_attempt working progress table
      rw [attemptAll_cons, ih _ fun later mem => ?_]
      · exact failure_attempt_of_isCreatable (creatable table List.mem_cons_self)
      · obtain ⟨location, reached⟩ := creatable later (List.mem_cons_of_mem table mem)
        exact ⟨location, same.target_eq_ok reached⟩

theorem failure_attemptAll_of_some {error : WriteError} (failed : progress.failure = some error) :
    (attemptAll working progress attempts).failure = some error := by
  induction attempts generalizing progress with
  | nil => exact failed
  | cons table attempts ih => exact ih (failure_attempt_of_some failed)

/-- The places at which files can be created at some paths are pairwise distinct. -/
def HaveDistinctPlaces (tree : Filesystem) (working : Location) (paths : List (List Char)) : Prop :=
  (paths.filterMap fun path => (tree.target working path).toOption).Nodup

instance HaveDistinctPlaces.instDecidable (tree : Filesystem) (working : Location)
    (paths : List (List Char)) :
    Decidable (HaveDistinctPlaces tree working paths) :=
  inferInstanceAs (Decidable (List.Nodup _))

theorem target_ne_of_haveDistinctPlaces {tree : Filesystem}
    {earlier later : List Table}
    (distinct : HaveDistinctPlaces tree working ((earlier ++ table :: later).map Prod.fst))
    (reached : tree.target working table.1 = .ok location) :
    ∀ other ∈ later, tree.target working other.1 ≠ .ok location := by
  have own : (tree.target working table.1).toOption = some location := by rw [reached]; rfl
  rw [HaveDistinctPlaces, List.filterMap_map, List.filterMap_append, List.filterMap_cons,
    Function.comp_apply, own] at distinct
  intro other mem again
  have absent := (List.nodup_cons.mp (List.nodup_append.mp distinct).2.1).1
  exact absent (List.mem_filterMap.mpr ⟨other, mem, by rw [Function.comp_apply, again]; rfl⟩)

/-- The last table that leads to a place is found there. -/
theorem item?_attemptAll_of_last {earlier later : List Table}
    (reached : progress.files.target working table.1 = .ok location)
    (last : ∀ other ∈ later, progress.files.target working other.1 ≠ .ok location) :
    (attemptAll working progress (earlier ++ table :: later)).files.item? location =
      some (.file (tableText table)) := by
  have same := sameDirectories_attemptAll working progress earlier
  have same_after := same.trans (sameDirectories_attempt working _ table)
  rw [attemptAll_append, attemptAll_cons, item?_attemptAll _ fun other mem =>
      mt same_after.target_eq_ok_iff.mpr (last other mem),
    attempt_of_target (same.target_eq_ok reached), item?_set _ _ _ _ (ne_nil_of_target reached),
    if_pos rfl]

theorem found?_attemptAll {tree : Filesystem}
    (distinct : HaveDistinctPlaces tree working (attempts.map Prod.fst)) (mem : table ∈ attempts)
    (creatable : IsCreatable tree working table.1) :
    (attemptAll working ⟨tree, none⟩ attempts).files.found? working table.1 =
      some (.file (tableText table)) := by
  obtain ⟨location, reached⟩ := creatable
  have same := sameDirectories_attemptAll working ⟨tree, none⟩ attempts
  rw [found?_of_target (same.target_eq_ok reached)]
  obtain ⟨earlier, later, rfl⟩ := List.append_of_mem mem
  exact item?_attemptAll_of_last reached (target_ne_of_haveDistinctPlaces distinct reached)

theorem found?_attemptAll_of_not_isCreatable {tree : Filesystem} {path : List Char}
    (blocked : ¬IsCreatable tree working path) (attempts : List Table) :
    (attemptAll working ⟨tree, none⟩ attempts).files.found? working path =
      tree.found? working path :=
  (sameDirectories_attemptAll working ⟨tree, none⟩ attempts).found?_eq fun location reached =>
    blocked ⟨location, reached⟩

theorem failure_attemptAll_of_first {tree : Filesystem} {earlier later : List (List Char)}
    {path : List Char} (split : attempts.map Prod.fst = earlier ++ path :: later)
    (creatable : ∀ other ∈ earlier, IsCreatable tree working other)
    (blocked : ¬IsCreatable tree working path) :
    ∃ error, (attemptAll working ⟨tree, none⟩ attempts).failure = some (.table path error) := by
  obtain ⟨before, after, rfl, rfl, paths_eq⟩ := List.map_eq_append_iff.mp split
  obtain ⟨table, others, rfl, rfl, rfl⟩ := List.map_eq_cons_iff.mp paths_eq
  have same := sameDirectories_attemptAll working ⟨tree, none⟩ before
  have still_blocked :
      ¬IsCreatable (attemptAll working ⟨tree, none⟩ before).files working table.1 :=
    fun ⟨location, reached⟩ => blocked ⟨location, same.symm.target_eq_ok reached⟩
  obtain ⟨error, refused⟩ := target_of_not_isCreatable still_blocked
  have unreported : (attemptAll working ⟨tree, none⟩ before).failure = none :=
    failure_attemptAll_of_isCreatable ⟨tree, none⟩ fun other mem =>
      creatable other.1 (List.mem_map_of_mem mem)
  refine ⟨error, ?_⟩
  rw [attemptAll_append, attemptAll_cons, attempt_of_error refused, unreported]
  exact failure_attemptAll_of_some rfl

theorem exists_first_blocked {tree : Filesystem} {paths : List (List Char)}
    (blocked : ¬∀ path ∈ paths, IsCreatable tree working path) :
    ∃ earlier path later, paths = earlier ++ path :: later ∧
      (∀ other ∈ earlier, IsCreatable tree working other) ∧ ¬IsCreatable tree working path := by
  induction paths with
  | nil => simp at blocked
  | cons path paths ih =>
      by_cases creatable : IsCreatable tree working path
      · have later_blocked : ¬∀ path ∈ paths, IsCreatable tree working path := fun all =>
          blocked (List.forall_mem_cons.mpr ⟨creatable, all⟩)
        obtain ⟨earlier, first, later, rfl, all, first_blocked⟩ := ih later_blocked
        exact ⟨path :: earlier, first, later, rfl, List.forall_mem_cons.mpr ⟨creatable, all⟩,
          first_blocked⟩
      · exact ⟨[], path, paths, rfl, by simp, creatable⟩

theorem failure_attemptAll_eq_none_iff {tree : Filesystem} :
    (attemptAll working ⟨tree, none⟩ attempts).failure = none ↔
      ∀ path ∈ attempts.map Prod.fst, IsCreatable tree working path := by
  constructor
  · intro succeeded
    by_contra blocked
    obtain ⟨earlier, path, later, split, creatable, first⟩ := exists_first_blocked blocked
    obtain ⟨error, failed⟩ := failure_attemptAll_of_first split creatable first
    simp [failed] at succeeded
  · intro creatable
    exact failure_attemptAll_of_isCreatable ⟨tree, none⟩ fun table mem =>
      creatable table.1 (List.mem_map_of_mem mem)

section Reports

variable {files made : Filesystem} {directory : List Char}

theorem write_of_made
    (outcome : files.makeDirectories working (filesDirectory directory) = (made, none))
    (inspection : Inspection) :
    write files working directory inspection =
      attemptAll working ⟨made, none⟩ (tables inspection directory) := by
  rw [write, outcome]
  rfl

theorem write_of_not_made {error : FileError}
    (outcome : files.makeDirectories working (filesDirectory directory) = (made, some error))
    (inspection : Inspection) :
    write files working directory inspection = ⟨made, some (.directories error)⟩ := by
  rw [write, outcome]

end Reports

end CodeGauge.Report
