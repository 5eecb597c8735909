import CodeGauge.Repository.Basic
import Mathlib.Algebra.GroupWithZero.Nat
import Mathlib.Data.List.Perm.Basic

/-!
# Whole trees

Everything in a tree stands under its path in one list, each directory right before what is below
it (`within`).  The listing by a queue succeeds exactly when this list has no missing directory
(`exists_files_iff`), and then its files are those of the list, each as often as there
(`files_perm`).
-/

namespace CodeGauge

namespace Entries

mutual

def belowAt (path : List Char) : Entry → List (List Char × Entry)
  | .directory entries => within path entries
  | .missingDirectory => []
  | .file _ _ => []
  | .submodule => []

/-- What is in a directory that stands under a path, at any depth, with the paths. -/
def within (base : List Char) : List (List Char × Entry) → List (List Char × Entry)
  | [] => []
  | (name, entry) :: others =>
    (pathIn base name, entry) :: (belowAt (pathIn base name) entry ++ within base others)

end

def fileAt? : List Char × Entry → Option TreeFile
  | (path, .file _ content) => some ⟨path, content⟩
  | _ => none

theorem fileAt?_eq_some_iff {place : List Char × Entry} {file : TreeFile} :
    fileAt? place = some file ↔ ∃ mode, place = (file.path, .file mode file.content) := by
  obtain ⟨path, entry⟩ := place
  constructor
  · intro is_file
    cases entry with
    | file mode content =>
        obtain rfl := Option.some.inj is_file
        exact ⟨mode, rfl⟩
    | submodule => simp [fileAt?] at is_file
    | directory below => simp [fileAt?] at is_file
    | missingDirectory => simp [fileAt?] at is_file
  · rintro ⟨mode, same⟩
    rw [same]
    rfl

/-- The entries of a directory that are not directories themselves, with their paths. -/
def leavesIn (base : List Char) (entries : Entries) : List (List Char × Entry) :=
  entries.filterMap fun (name, entry) =>
    match entry with
    | .file mode content => some (pathIn base name, .file mode content)
    | .submodule => some (pathIn base name, .submodule)
    | _ => none

def ofQueued : List Char × Option Entries → List (List Char × Entry)
  | (path, none) => [(path, .missingDirectory)]
  | (path, some entries) => (path, .directory entries) :: within path entries

def queuedCount : List Char × Option Entries → Nat
  | (_, none) => 1
  | (_, some entries) => 1 + countBelow entries

/-- A directory holds its leaves, its subdirectories and what is below these. -/
theorem within_perm (base : List Char) (entries : Entries) :
    (within base entries).Perm
      (leavesIn base entries ++ (directoriesIn base entries).flatMap ofQueued) := by
  induction entries with
  | nil => simp [within, leavesIn, directoriesIn]
  | cons named others ih =>
      obtain ⟨name, entry⟩ := named
      cases entry with
      | file mode content => exact ih.cons _
      | submodule => exact ih.cons _
      | directory below =>
          have moved := List.perm_append_comm_assoc (ofQueued (pathIn base name, some below))
            (leavesIn base others) ((directoriesIn base others).flatMap ofQueued)
          exact (ih.append_left (ofQueued (pathIn base name, some below))).trans moved
      | missingDirectory =>
          have moved := List.perm_append_comm_assoc (ofQueued (pathIn base name, none))
            (leavesIn base others) ((directoriesIn base others).flatMap ofQueued)
          exact (ih.append_left (ofQueued (pathIn base name, none))).trans moved

theorem filterMap_fileAt?_leavesIn (base : List Char) (entries : Entries) :
    (leavesIn base entries).filterMap fileAt? = filesIn base entries := by
  induction entries with
  | nil => rfl
  | cons named others ih =>
      obtain ⟨name, entry⟩ := named
      cases entry with
      | file mode content => exact congrArg (⟨pathIn base name, content⟩ :: ·) ih
      | submodule => exact ih
      | directory below => exact ih
      | missingDirectory => exact ih

def isDirectory : Entry → Bool
  | .directory _ => true
  | .missingDirectory => true
  | .file _ _ => false
  | .submodule => false

theorem isDirectory_of_mem_leavesIn {base : List Char} {entries : Entries}
    {place : List Char × Entry} (mem : place ∈ leavesIn base entries) :
    isDirectory place.2 = false := by
  obtain ⟨⟨name, entry⟩, -, leaf⟩ := List.mem_filterMap.mp mem
  cases entry with
  | file mode content =>
      obtain rfl := Option.some.inj leaf
      rfl
  | submodule =>
      obtain rfl := Option.some.inj leaf
      rfl
  | directory below => simp at leaf
  | missingDirectory => simp at leaf

theorem countBelow_eq_sum (base : List Char) (entries : Entries) :
    countBelow entries = ((directoriesIn base entries).map queuedCount).sum := by
  induction entries with
  | nil => rfl
  | cons named others ih =>
      obtain ⟨name, entry⟩ := named
      rw [countBelow, ih]
      cases entry with
      | file mode content => simp [countAt, directoriesIn]
      | submodule => simp [countAt, directoriesIn]
      | directory below => simp [countAt, directoriesIn, queuedCount]
      | missingDirectory => simp [countAt, directoriesIn, queuedCount]

/-- The directories for which a queue stands are its first one and those for which it stands when
this one has left and its subdirectories have joined. -/
theorem mem_queue_iff {path base : List Char} {entry : Entry} {entries : Entries}
    {queue : List (List Char × Option Entries)} (directory : isDirectory entry = true) :
    (path, entry) ∈ (((base, some entries) :: queue).flatMap ofQueued) ↔
      (path, entry) = (base, .directory entries) ∨
        (path, entry) ∈ (queue ++ directoriesIn base entries).flatMap ofQueued := by
  have no_leaf : (path, entry) ∉ leavesIn base entries := by
    intro leaf
    rw [isDirectory_of_mem_leavesIn leaf] at directory
    exact Bool.noConfusion directory
  rw [List.flatMap_cons, List.mem_append, List.flatMap_append, List.mem_append, ofQueued,
    List.mem_cons, (within_perm base entries).mem_iff, List.mem_append, or_iff_right no_leaf,
    or_assoc, or_comm (a := _ ∈ List.flatMap ofQueued (directoriesIn base entries))]

theorem missing_mem_queue_iff {path base : List Char} {entries : Entries}
    {queue : List (List Char × Option Entries)} :
    (path, Entry.missingDirectory) ∈ (((base, some entries) :: queue).flatMap ofQueued) ↔
      (path, Entry.missingDirectory) ∈
        (queue ++ directoriesIn base entries).flatMap ofQueued := by
  rw [mem_queue_iff rfl, or_iff_right (by simp)]

/-- Taking a directory from the queue leaves allowance for all that then waits. -/
theorem sum_queuedCount_le {base : List Char} {entries : Entries} {allowance : Nat}
    {queue : List (List Char × Option Entries)}
    (enough : (((base, some entries) :: queue).map queuedCount).sum ≤ allowance + 1) :
    ((queue ++ directoriesIn base entries).map queuedCount).sum ≤ allowance := by
  rw [List.map_cons, List.sum_cons, queuedCount, countBelow_eq_sum base] at enough
  rw [List.map_append, List.sum_append]
  omega

open List in
/-- The files of a directory and those for which the queue after it stands are those for which the
queue before it stood. -/
theorem files_queue_perm (base : List Char) (entries : Entries)
    (queue : List (List Char × Option Entries)) :
    (filesIn base entries ++
        ((queue ++ directoriesIn base entries).flatMap ofQueued).filterMap fileAt?) ~
      (((base, some entries) :: queue).flatMap ofQueued).filterMap fileAt? := by
  have here := (within_perm base entries).filterMap fileAt?
  rw [List.filterMap_append, filterMap_fileAt?_leavesIn] at here
  calc
    filesIn base entries ++
          ((queue ++ directoriesIn base entries).flatMap ofQueued).filterMap fileAt? =
        filesIn base entries ++ ((queue.flatMap ofQueued).filterMap fileAt? ++
          ((directoriesIn base entries).flatMap ofQueued).filterMap fileAt?) := by
      rw [List.flatMap_append, List.filterMap_append]
    _ ~ filesIn base entries ++
          (((directoriesIn base entries).flatMap ofQueued).filterMap fileAt? ++
            (queue.flatMap ofQueued).filterMap fileAt?) := List.perm_append_comm.append_left _
    _ = (filesIn base entries ++
            ((directoriesIn base entries).flatMap ofQueued).filterMap fileAt?) ++
          (queue.flatMap ofQueued).filterMap fileAt? := by rw [List.append_assoc]
    _ ~ (within base entries).filterMap fileAt? ++ (queue.flatMap ofQueued).filterMap fileAt? :=
      here.symm.append_right _
    _ = (((base, some entries) :: queue).flatMap ofQueued).filterMap fileAt? := by
      rw [List.flatMap_cons, List.filterMap_append]
      rfl

/-- Induction along the listing of a queue.  The queue itself may grow with each directory, but not
the allowance that it needs. -/
theorem queue_induction
    {motive : ∀ (allowance : Nat) (queue : List (List Char × Option Entries)),
      (queue.map queuedCount).sum ≤ allowance → Prop}
    (empty : ∀ allowance enough, motive allowance [] enough)
    (missing : ∀ allowance base queue enough,
      motive (allowance + 1) ((base, none) :: queue) enough)
    (directory : ∀ allowance base entries queue enough,
      motive allowance (queue ++ directoriesIn base entries) (sum_queuedCount_le enough) →
        motive (allowance + 1) ((base, some entries) :: queue) enough)
    {allowance : Nat} {queue : List (List Char × Option Entries)}
    (enough : (queue.map queuedCount).sum ≤ allowance) : motive allowance queue enough := by
  induction allowance generalizing queue with
  | zero =>
      cases queue with
      | nil => exact empty 0 enough
      | cons first queue =>
          obtain ⟨base, _ | entries⟩ := first <;> simp [queuedCount] at enough
  | succ allowance ih =>
      cases queue with
      | nil => exact empty (allowance + 1) enough
      | cons first queue =>
          obtain ⟨base, _ | entries⟩ := first
          · exact missing allowance base queue enough
          · exact directory allowance base entries queue enough (ih (sum_queuedCount_le enough))

theorem listQueue_of_whole {allowance : Nat} {queue : List (List Char × Option Entries)}
    (enough : (queue.map queuedCount).sum ≤ allowance)
    (whole : ∀ path, (path, Entry.missingDirectory) ∉ queue.flatMap ofQueued) :
    ∃ files, listQueue allowance queue = .ok files ∧
      files.Perm ((queue.flatMap ofQueued).filterMap fileAt?) := by
  induction enough using queue_induction with
  | empty => exact ⟨[], by simp [listQueue], List.Perm.refl []⟩
  | missing allowance base queue => exact (whole base (by simp [ofQueued])).elim
  | directory allowance base entries queue enough ih =>
      have whole_after := fun path => mt missing_mem_queue_iff.mpr (whole path)
      obtain ⟨others, listed, perm⟩ := ih whole_after
      refine ⟨filesIn base entries ++ others, by simp [listQueue, listed], ?_⟩
      exact (perm.append_left (filesIn base entries)).trans (files_queue_perm ..)

theorem listQueue_of_missing {allowance : Nat} {queue : List (List Char × Option Entries)}
    (enough : (queue.map queuedCount).sum ≤ allowance) {path : List Char}
    (missing : (path, Entry.missingDirectory) ∈ queue.flatMap ofQueued) :
    listQueue allowance queue = .error .missingDirectory := by
  induction enough using queue_induction with
  | empty => simp at missing
  | missing => rfl
  | directory allowance base entries queue enough ih =>
      have failed := ih (missing_mem_queue_iff.mp missing)
      simp [listQueue, failed]

theorem missing_mem_root_iff {path : List Char} {entries : Entries} :
    (path, Entry.missingDirectory) ∈ [([], some entries)].flatMap ofQueued ↔
      (path, Entry.missingDirectory) ∈ within [] entries := by
  simp [ofQueued]

theorem sum_queuedCount_root_le (entries : Entries) :
    ([([], some entries)].map queuedCount).sum ≤ 1 + countBelow entries := by
  simp [queuedCount]

/-- A tree can be listed exactly when none of its directories is missing. -/
theorem exists_files_iff {entries : Entries} :
    (∃ files, entries.files = .ok files) ↔
      ∀ path, (path, Entry.missingDirectory) ∉ within [] entries := by
  have enough := sum_queuedCount_root_le entries
  constructor
  · rintro ⟨files, listed⟩ path missing
    have failed := listQueue_of_missing enough (missing_mem_root_iff.mpr missing)
    rw [Entries.files, failed] at listed
    cases listed
  · intro whole
    obtain ⟨files, listed, -⟩ := listQueue_of_whole enough
      fun path => mt missing_mem_root_iff.mp (whole path)
    exact ⟨files, listed⟩

theorem files_perm {entries : Entries} {files : List TreeFile}
    (listed : entries.files = .ok files) :
    files.Perm ((within [] entries).filterMap fileAt?) := by
  have whole := exists_files_iff.mp ⟨files, listed⟩
  obtain ⟨again, listed_again, perm⟩ := listQueue_of_whole (sum_queuedCount_root_le entries)
    fun path => mt missing_mem_root_iff.mp (whole path)
  obtain rfl := Except.ok.inj (listed.symm.trans listed_again)
  rwa [List.flatMap_singleton] at perm

theorem mem_files_iff {entries : Entries} {files : List TreeFile}
    (listed : entries.files = .ok files) {file : TreeFile} :
    file ∈ files ↔ ∃ mode, (file.path, Entry.file mode file.content) ∈ within [] entries := by
  rw [(files_perm listed).mem_iff, List.mem_filterMap]
  constructor
  · rintro ⟨place, mem, is_file⟩
    obtain ⟨mode, rfl⟩ := fileAt?_eq_some_iff.mp is_file
    exact ⟨mode, mem⟩
  · rintro ⟨mode, mem⟩
    exact ⟨_, mem, rfl⟩

end Entries

end CodeGauge
