import CodeGauge.Proofs.Repository.Addresses
import Mathlib.Order.Nat

/-!
# Breadth-first listings

The directories in the queue of a listing are in the order of their depth, and no two of them are
more than one level apart (`IsLevelled`), since those that join it are one level below the one that
leaves it.  So the files are listed by their depth, those of one directory together and in order
(`isBreadthFirst_of_files`).
-/

namespace CodeGauge

/-- The number of directories between the root of a tree and a file. -/
def TreeFile.depth (file : TreeFile) : Nat := file.path.count '/'

namespace Entries

variable {allowance depth : Nat} {base path : List Char} {entries below : Entries}
  {queue : List (List Char × Option Entries)} {files : List TreeFile}

def depthIn (base : List Char) : Nat := if base.isEmpty then 0 else base.count '/' + 1

theorem pairwise_of_same_depth {α : Type} {depth : α → Nat} {common : Nat} {items : List α}
    (same : ∀ item ∈ items, depth item = common) :
    items.Pairwise fun first second => depth first ≤ depth second := by
  apply List.pairwise_of_forall_mem_list
  intro first first_mem second second_mem
  exact ((same first first_mem).trans (same second second_mem).symm).le

theorem count_pathIn {name : List Char} (named : IsEntryName name) :
    (pathIn base name).count '/' = depthIn base := by
  have undivided : name.count '/' = 0 := List.count_eq_zero.mpr named.whole
  unfold pathIn depthIn
  split
  · exact undivided
  · rw [List.count_append, List.count_cons_self, undivided]

theorem depthIn_pathIn {name : List Char} (named : IsEntryName name) :
    depthIn (pathIn base name) = depthIn base + 1 := by
  have nonempty : (pathIn base name).isEmpty = false := by
    unfold pathIn
    split <;> simp [named.nonempty]
  rw [depthIn, if_neg (by simp [nonempty]), count_pathIn named]

theorem depth_of_mem_filesIn (named : ∀ place ∈ entries, IsEntryName place.1) {file : TreeFile}
    (mem : file ∈ filesIn base entries) : file.depth = depthIn base := by
  obtain ⟨⟨name, entry⟩, listed, is_file⟩ := List.mem_filterMap.mp mem
  cases entry with
  | file mode content =>
      obtain rfl := Option.some.inj is_file
      exact count_pathIn (named _ listed)
  | submodule => simp at is_file
  | directory below => simp at is_file
  | missingDirectory => simp at is_file

theorem depthIn_of_mem_directoriesIn (named : ∀ place ∈ entries, IsEntryName place.1)
    {waiting : List Char × Option Entries} (mem : waiting ∈ directoriesIn base entries) :
    depthIn waiting.1 = depthIn base + 1 := by
  obtain ⟨⟨name, entry⟩, listed, is_directory⟩ := List.mem_filterMap.mp mem
  cases entry with
  | file mode content => simp at is_directory
  | submodule => simp at is_directory
  | directory below =>
      obtain rfl := Option.some.inj is_directory
      exact depthIn_pathIn (named _ listed)
  | missingDirectory =>
      obtain rfl := Option.some.inj is_directory
      exact depthIn_pathIn (named _ listed)

theorem directory_mem_queue_iff :
    (path, Entry.directory below) ∈ (((base, some entries) :: queue).flatMap ofQueued) ↔
      (path = base ∧ below = entries) ∨
        (path, Entry.directory below) ∈ (queue ++ directoriesIn base entries).flatMap ofQueued := by
  rw [mem_queue_iff rfl, Prod.mk.injEq, Entry.directory.injEq]

/-- The names in all directories for which a queue stands are those of entries. -/
def HasQueuedNames (queue : List (List Char × Option Entries)) : Prop :=
  ∀ path below, (path, Entry.directory below) ∈ queue.flatMap ofQueued →
    ∀ place ∈ below, IsEntryName place.1

theorem HasQueuedNames.first (named : HasQueuedNames ((base, some entries) :: queue)) :
    ∀ place ∈ entries, IsEntryName place.1 :=
  named base entries (directory_mem_queue_iff.mpr (.inl ⟨rfl, rfl⟩))

theorem HasQueuedNames.next (named : HasQueuedNames ((base, some entries) :: queue)) :
    HasQueuedNames (queue ++ directoriesIn base entries) :=
  fun path below mem => named path below (directory_mem_queue_iff.mpr (.inr mem))

theorem listQueue_cons_eq_ok_iff :
    listQueue (allowance + 1) ((base, some entries) :: queue) = .ok files ↔
      ∃ others, listQueue allowance (queue ++ directoriesIn base entries) = .ok others ∧
        files = filesIn base entries ++ others := by
  rw [listQueue]
  cases listQueue allowance (queue ++ directoriesIn base entries) with
  | error failure => simp
  | ok others => simp [eq_comm]

theorem listQueue_in_order (enough : (queue.map queuedCount).sum ≤ allowance)
    (listed : listQueue allowance queue = .ok files)
    (mem : (path, Entry.directory below) ∈ queue.flatMap ofQueued) :
    filesIn path below <:+: files := by
  induction enough using queue_induction generalizing files with
  | empty => simp at mem
  | missing => simp [listQueue] at listed
  | directory allowance base entries queue enough ih =>
      obtain ⟨others, others_listed, rfl⟩ := listQueue_cons_eq_ok_iff.mp listed
      rcases directory_mem_queue_iff.mp mem with ⟨rfl, rfl⟩ | later
      · exact (List.prefix_append _ others).isInfix
      · exact (ih others_listed later).trans (List.suffix_append _ others).isInfix

/-- The directories in a queue are in the order of their depth, from a given depth to one more. -/
structure IsLevelled (depth : Nat) (queue : List (List Char × Option Entries)) : Prop where
  ordered : queue.Pairwise fun first second => depthIn first.1 ≤ depthIn second.1
  above : ∀ waiting ∈ queue, depth ≤ depthIn waiting.1
  /-- No directory is more than one level below the given depth. -/
  near : ∀ waiting ∈ queue, depthIn waiting.1 ≤ depth + 1

/-- When the first directory leaves the queue and its subdirectories join it, the queue stays in the
order of depth. -/
theorem IsLevelled.next (levelled : IsLevelled depth ((base, some entries) :: queue))
    (named : ∀ place ∈ entries, IsEntryName place.1) :
    IsLevelled (depthIn base) (queue ++ directoriesIn base entries) := by
  obtain ⟨first_least, ordered⟩ := List.pairwise_cons.mp levelled.ordered
  have lowest : depth ≤ depthIn base := levelled.above _ List.mem_cons_self
  have near : ∀ waiting ∈ queue, depthIn waiting.1 ≤ depthIn base + 1 := by
    intro waiting mem
    have from_depth := levelled.near waiting (List.mem_cons_of_mem _ mem)
    omega
  have joining : ∀ waiting ∈ directoriesIn base entries, depthIn waiting.1 = depthIn base + 1 :=
    fun waiting => depthIn_of_mem_directoriesIn named
  constructor
  · rw [List.pairwise_append]
    refine ⟨ordered, pairwise_of_same_depth joining, ?_⟩
    intro waiting mem joined joins
    rw [joining joined joins]
    exact near waiting mem
  · rw [List.forall_mem_append]
    exact ⟨first_least, fun waiting joins => by rw [joining waiting joins]; omega⟩
  · rw [List.forall_mem_append]
    exact ⟨near, fun waiting joins => (joining waiting joins).le⟩

theorem IsLevelled.listQueue_ordered (levelled : IsLevelled depth queue)
    (named : HasQueuedNames queue) (enough : (queue.map queuedCount).sum ≤ allowance)
    (listed : listQueue allowance queue = .ok files) :
    files.Pairwise (fun first second => first.depth ≤ second.depth) ∧
      ∀ file ∈ files, depth ≤ file.depth := by
  -- with each directory the least depth in the queue may rise
  induction enough using queue_induction generalizing depth files with
  | empty =>
      obtain rfl : files = [] := by simpa [listQueue] using listed.symm
      simp
  | missing => simp [listQueue] at listed
  | directory allowance base entries queue enough ih =>
      obtain ⟨others, others_listed, rfl⟩ := listQueue_cons_eq_ok_iff.mp listed
      obtain ⟨ordered, deeper⟩ := ih (levelled.next named.first) named.next others_listed
      have here : ∀ file ∈ filesIn base entries, file.depth = depthIn base :=
        fun file => depth_of_mem_filesIn named.first
      have lowest : depth ≤ depthIn base := levelled.above _ List.mem_cons_self
      constructor
      · rw [List.pairwise_append]
        refine ⟨pairwise_of_same_depth here, ordered, ?_⟩
        intro file mem later later_mem
        rw [here file mem]
        exact deeper later later_mem
      · rw [List.forall_mem_append]
        constructor
        · intro file mem
          rw [here file mem]
          exact lowest
        · intro file mem
          exact lowest.trans (deeper file mem)

def filesAt (address : Address) (below : Entries) : List TreeFile :=
  (below.map fun (name, entry) => (Address.slashed (address ++ [name]), entry)).filterMap fileAt?

/-- All files of a tree, however they are kept, each under the path of its address. -/
def allFiles (root : Entries) : List TreeFile :=
  ((addressed root).map (Prod.map Address.slashed id)).filterMap fileAt?

/-- A list of files is the breadth-first listing of a tree. -/
structure IsBreadthFirst (root : Entries) (files : List TreeFile) : Prop where
  complete : files.Perm (allFiles root)
  ordered : files.Pairwise fun first second => first.depth ≤ second.depth
  /-- The files of each directory are listed together, in the order of the directory. -/
  in_order : ∀ address below, (address, Entry.directory below) ∈ addressed root →
    filesAt address below <:+: files
  once : HasDistinctNames root → (files.map TreeFile.path).Nodup
  /-- The path of an entry is listed exactly if the entry is a file. -/
  only_files : HasDistinctNames root → ∀ address entry, (address, entry) ∈ addressed root →
    (address.slashed ∈ files.map TreeFile.path ↔ ∃ mode content, entry = .file mode content)

variable {root : Entries}

theorem filesIn_slashed {address : Address} (named : ∀ name ∈ address, IsEntryName name)
    (below : Entries) : filesIn address.slashed below = filesAt address below := by
  rw [filesAt, List.filterMap_map, filesIn]
  apply List.filterMap_congr
  rintro ⟨name, entry⟩ -
  cases entry with
  | file mode content =>
      exact congrArg (fun path => some (TreeFile.mk path content)) (pathIn_slashed named name)
  | submodule => rfl
  | directory below => rfl
  | missingDirectory => rfl

theorem mem_root_queue_iff (named : HasEntryNames root) {entry : Entry} :
    (path, entry) ∈ [([], some root)].flatMap ofQueued ↔
      ∃ address : Address, (address, entry) ∈ addressed root ∧ address.slashed = path := by
  rw [List.flatMap_singleton, ofQueued, ← map_slashed_addressed named]
  simp

theorem hasQueuedNames_root (named : HasEntryNames root) : HasQueuedNames [([], some root)] := by
  intro path below mem
  obtain ⟨address, listed, -⟩ := (mem_root_queue_iff named).mp mem
  exact named address below listed

theorem isLevelled_root : IsLevelled 0 [([], some root)] where
  ordered := List.pairwise_singleton _ _
  above _ _ := Nat.zero_le _
  near := by simp [depthIn]

theorem allFiles_eq (named : HasEntryNames root) :
    allFiles root = (within [] root).filterMap fileAt? := by
  rw [allFiles, map_slashed_addressed named]
  rfl

theorem mem_allFiles_iff {file : TreeFile} :
    file ∈ allFiles root ↔ ∃ address mode,
      (address, Entry.file mode file.content) ∈ addressed root ∧ address.slashed = file.path := by
  rw [allFiles, List.mem_filterMap]
  constructor
  · rintro ⟨place, mem, is_file⟩
    obtain ⟨mode, rfl⟩ := fileAt?_eq_some_iff.mp is_file
    obtain ⟨⟨address, entry⟩, listed, same⟩ := List.mem_map.mp mem
    obtain ⟨path_eq, rfl⟩ := Prod.mk.inj same
    exact ⟨address, mode, listed, path_eq⟩
  · rintro ⟨address, mode, listed, path_eq⟩
    refine ⟨_, List.mem_map_of_mem listed, ?_⟩
    exact fileAt?_eq_some_iff.mpr ⟨mode, Prod.ext path_eq rfl⟩

theorem entry_unique (named : HasEntryNames root) (distinct : HasDistinctNames root)
    {first second : Address × Entry} (first_mem : first ∈ addressed root)
    (second_mem : second ∈ addressed root) (same : first.1.slashed = second.1.slashed) :
    first = second :=
  List.inj_on_of_nodup_map (addressed_nodup distinct) first_mem second_mem
    (address_eq_of_slashed_eq (named.of_mem first_mem) (named.of_mem second_mem) same)

theorem map_path_filterMap_sublist (places : List (List Char × Entry)) :
    ((places.filterMap fileAt?).map TreeFile.path).Sublist (places.map Prod.fst) := by
  induction places with
  | nil => exact List.Sublist.slnil
  | cons place others ih =>
      obtain ⟨path, entry⟩ := place
      cases entry with
      | file mode content => exact ih.cons_cons path
      | submodule => exact ih.cons path
      | directory below => exact ih.cons path
      | missingDirectory => exact ih.cons path

theorem nodup_paths (named : HasEntryNames root) (distinct : HasDistinctNames root) :
    ((allFiles root).map TreeFile.path).Nodup := by
  have paths : (((addressed root).map (Prod.map Address.slashed id)).map Prod.fst).Nodup := by
    rw [List.map_map]
    apply List.Nodup.map_on
    · intro first first_mem second second_mem same
      exact entry_unique named distinct first_mem second_mem same
    · exact (addressed_nodup distinct).of_map
  exact paths.sublist (map_path_filterMap_sublist _)

theorem exists_files (named : HasEntryNames root)
    (whole : ∀ address, (address, Entry.missingDirectory) ∉ addressed root) :
    ∃ files, root.files = .ok files := by
  apply exists_files_iff.mpr
  intro path mem
  have waiting := missing_mem_root_iff.mpr mem
  obtain ⟨address, listed, -⟩ := (mem_root_queue_iff named).mp waiting
  exact whole address listed

theorem isBreadthFirst_of_files (named : HasEntryNames root) (listed : root.files = .ok files) :
    IsBreadthFirst root files := by
  have complete : files.Perm (allFiles root) := by
    rw [allFiles_eq named]
    exact files_perm listed
  have enough := sum_queuedCount_root_le root
  constructor
  case complete => exact complete
  case ordered =>
    exact (isLevelled_root.listQueue_ordered (hasQueuedNames_root named) enough listed).1
  case in_order =>
    intro address below mem
    rw [← filesIn_slashed (named.of_mem mem)]
    exact listQueue_in_order enough listed ((mem_root_queue_iff named).mpr ⟨address, mem, rfl⟩)
  case once =>
    intro distinct
    exact (complete.map TreeFile.path).nodup_iff.mpr (nodup_paths named distinct)
  case only_files =>
    intro distinct address entry mem
    rw [(complete.map TreeFile.path).mem_iff, List.mem_map]
    constructor
    · rintro ⟨file, file_mem, same⟩
      obtain ⟨place, mode, place_mem, path_eq⟩ := mem_allFiles_iff.mp file_mem
      have entry_eq := entry_unique named distinct mem place_mem (same.symm.trans path_eq.symm)
      exact ⟨mode, file.content, congrArg Prod.snd entry_eq⟩
    · rintro ⟨mode, content, rfl⟩
      exact ⟨⟨address.slashed, content⟩, mem_allFiles_iff.mpr ⟨address, mode, mem, rfl⟩, rfl⟩

end Entries

open Entries

/-- A commit whose directories are all there has a listing, and it is the breadth-first one: each
file of the tree, however it is kept, under the path of its address, and nothing else; none before
one of lesser depth; and those of each directory in their order. -/
theorem Commit.files_breadthFirst {commit : Commit} {root : Entries}
    (rooted : commit.root = some root)
    (whole : ∀ address, (address, Entry.missingDirectory) ∉ addressed root)
    (named : HasEntryNames root) :
    ∃ files, commit.files = .ok files ∧ IsBreadthFirst root files := by
  obtain ⟨files, listed⟩ := exists_files named whole
  refine ⟨files, ?_, isBreadthFirst_of_files named listed⟩
  rw [Commit.files, rooted]
  exact listed

/-- A tree with a file of each kind, a submodule, and a directory below a directory. -/
def nestedTree : Entries :=
  [("a.py".toList, .file .regular (some [])),
    ("d".toList, .directory
      [("b.py".toList, .file .executable (some [])),
        ("e".toList, .directory [("c.py".toList, .file .link (some []))])]),
    ("s".toList, .submodule),
    ("z.py".toList, .file .regular none)]

def nestedNames : List (List (List Char)) :=
  [["a.py".toList, "d".toList, "s".toList, "z.py".toList], ["b.py".toList, "e".toList],
    ["c.py".toList]]

theorem names_mem_nestedNames {address : Address} {below : Entries}
    (mem : (address, Entry.directory below) ∈ addressed nestedTree) :
    below.map Prod.fst ∈ nestedNames := by
  simp only [addressed, addressedAt, addressedIn, nestedTree, List.mem_append, List.mem_cons,
    Prod.mk.injEq, Entry.directory.injEq, reduceCtorEq, List.not_mem_nil, and_false, or_false,
    false_or] at mem
  rcases mem with ⟨-, rfl⟩ | ⟨-, rfl⟩ | ⟨-, rfl⟩ <;> simp [nestedNames]

theorem nestedTree_breadthFirst :
    let commit : Commit := ⟨0, [], some nestedTree⟩
    (∀ address, (address, Entry.missingDirectory) ∉ addressed nestedTree) ∧
      HasEntryNames nestedTree ∧ HasDistinctNames nestedTree ∧
      (∃ files, commit.files = .ok files ∧ IsBreadthFirst nestedTree files) ∧
      commit.files.map (fun files => files.map fun file => String.ofList file.path) =
        .ok ["a.py", "z.py", "d/b.py", "d/e/c.py"] := by
  have whole : ∀ address, (address, Entry.missingDirectory) ∉ addressed nestedTree := by
    simp [addressed, addressedAt, addressedIn, nestedTree]
  have named : HasEntryNames nestedTree := by
    intro address below mem place inside
    have sound : ∀ names ∈ nestedNames, ∀ name ∈ names, name ≠ [] ∧ '/' ∉ name := by decide
    obtain ⟨nonempty, undivided⟩ :=
      sound _ (names_mem_nestedNames mem) place.1 (List.mem_map_of_mem inside)
    exact ⟨nonempty, undivided⟩
  have distinct : HasDistinctNames nestedTree := by
    intro address below mem
    have apart : ∀ names ∈ nestedNames, names.Nodup := by decide
    exact apart _ (names_mem_nestedNames mem)
  exact ⟨whole, named, distinct, Commit.files_breadthFirst rfl whole named, rfl⟩

end CodeGauge
