import CodeGauge.Proofs.Repository.Tree
import Mathlib.Data.List.Basic
import Mathlib.Data.List.Nodup

/-!
# Addresses in trees

The address of an entry is the list of names that leads to it from the root.  With slashes between
its names it is the path of the entry (`map_slashed_addressed`), and where the names are those of
entries, an address can be read from its path (`address_eq_of_slashed_eq`).  Entries of the whole
tree have different addresses if those of each directory have different names (`addressed_nodup`).
-/

namespace CodeGauge

abbrev Address := List (List Char)

/-- The names of an address with slashes between them. -/
def Address.slashed (address : Address) : List Char := ['/'].intercalate address

namespace Entries

mutual

def addressedAt (address : Address) : Entry → List (Address × Entry)
  | .directory entries => (address, .directory entries) :: addressedIn address entries
  | .missingDirectory => [(address, .missingDirectory)]
  | .file mode content => [(address, .file mode content)]
  | .submodule => [(address, .submodule)]

def addressedIn (address : Address) : List (List Char × Entry) → List (Address × Entry)
  | [] => []
  | (name, entry) :: others =>
    addressedAt (address ++ [name]) entry ++ addressedIn address others

end

/-- Everything in the tree with given entries at its root, the root itself included. -/
def addressed (root : Entries) : List (Address × Entry) := addressedAt [] (.directory root)

/-- What can be the name of an entry. -/
structure IsEntryName (name : List Char) : Prop where
  nonempty : name ≠ []
  whole : '/' ∉ name

/-- The names in each directory of a tree can be those of entries. -/
def HasEntryNames (root : Entries) : Prop :=
  ∀ address below, (address, Entry.directory below) ∈ addressed root →
    ∀ place ∈ below, IsEntryName place.1

/-- The entries of each directory of a tree have different names. -/
def HasDistinctNames (root : Entries) : Prop :=
  ∀ address below, (address, Entry.directory below) ∈ addressed root → (below.map Prod.fst).Nodup

theorem slashed_eq_nil_iff {address : Address} (named : ∀ name ∈ address, IsEntryName name) :
    address.slashed = [] ↔ address = [] := by
  constructor
  · intro empty
    cases address with
    | nil => rfl
    | cons name others =>
        have nonempty := (named name List.mem_cons_self).nonempty
        cases others with
        | nil => simp [Address.slashed, nonempty] at empty
        | cons next others => simp [Address.slashed, nonempty] at empty
  · rintro rfl
    rfl

theorem pathIn_slashed {address : Address} (named : ∀ name ∈ address, IsEntryName name)
    (name : List Char) : pathIn address.slashed name = Address.slashed (address ++ [name]) := by
  induction address with
  | nil => simp [pathIn, Address.slashed]
  | cons first others ih =>
      rw [List.forall_mem_cons] at named
      have nonempty : Address.slashed (first :: others) ≠ [] := by
        simp [slashed_eq_nil_iff (List.forall_mem_cons.mpr named)]
      rw [pathIn, if_neg (by simpa using nonempty)]
      cases others with
      | nil => simp [Address.slashed]
      | cons next others =>
          have later := ih named.2
          have nonempty_later : Address.slashed (next :: others) ≠ [] := by
            simp [slashed_eq_nil_iff named.2]
          rw [pathIn, if_neg (by simpa using nonempty_later)] at later
          simp only [Address.slashed, List.cons_append, List.intercalate_cons_cons] at later ⊢
          rw [← later]
          simp

/-- The address of a path is known. -/
theorem address_eq_of_slashed_eq {first second : Address}
    (first_named : ∀ name ∈ first, IsEntryName name)
    (second_named : ∀ name ∈ second, IsEntryName name)
    (same : first.slashed = second.slashed) : first = second := by
  by_cases empty : first = []
  · rw [empty]
    rw [(slashed_eq_nil_iff first_named).mpr empty] at same
    exact ((slashed_eq_nil_iff second_named).mp same.symm).symm
  · have nonempty : second ≠ [] := by
      rwa [ne_eq, ← slashed_eq_nil_iff second_named, ← same, slashed_eq_nil_iff first_named]
    calc
      first = List.splitOn '/' first.slashed :=
        (List.splitOn_intercalate '/' (fun name mem => (first_named name mem).whole) empty).symm
      _ = List.splitOn '/' second.slashed := by rw [same]
      _ = second :=
        List.splitOn_intercalate '/' (fun name mem => (second_named name mem).whole) nonempty

mutual

theorem names_of_mem_addressedAt {address : Address} (entry : Entry)
    (address_named : ∀ name ∈ address, IsEntryName name)
    (named : ∀ place below, (place, Entry.directory below) ∈ addressedAt address entry →
      ∀ inside ∈ below, IsEntryName inside.1) :
    ∀ place ∈ addressedAt address entry, ∀ name ∈ place.1, IsEntryName name := by
  cases entry with
  | directory entries =>
      rw [addressedAt] at named ⊢
      have here := named address entries List.mem_cons_self
      rw [List.forall_mem_cons]
      exact ⟨address_named, names_of_mem_addressedIn entries address_named here
        fun place below mem => named place below (List.mem_cons_of_mem _ mem)⟩
  | missingDirectory => simpa [addressedAt] using address_named
  | file mode content => simpa [addressedAt] using address_named
  | submodule => simpa [addressedAt] using address_named

theorem names_of_mem_addressedIn {address : Address} (entries : List (List Char × Entry))
    (address_named : ∀ name ∈ address, IsEntryName name)
    (here : ∀ inside ∈ entries, IsEntryName inside.1)
    (named : ∀ place below, (place, Entry.directory below) ∈ addressedIn address entries →
      ∀ inside ∈ below, IsEntryName inside.1) :
    ∀ place ∈ addressedIn address entries, ∀ name ∈ place.1, IsEntryName name := by
  cases entries with
  | nil => simp [addressedIn]
  | cons first others =>
      obtain ⟨name, entry⟩ := first
      rw [addressedIn] at named ⊢
      rw [List.forall_mem_cons] at here
      have longer_named : ∀ part ∈ address ++ [name], IsEntryName part :=
        List.forall_mem_append.mpr ⟨address_named, by simpa using here.1⟩
      rw [List.forall_mem_append]
      constructor
      · exact names_of_mem_addressedAt entry longer_named fun place below mem =>
          named place below (List.mem_append_left _ mem)
      · exact names_of_mem_addressedIn others address_named here.2 fun place below mem =>
          named place below (List.mem_append_right _ mem)

end

theorem HasEntryNames.of_mem {root : Entries} (named : HasEntryNames root) {address : Address}
    {entry : Entry} (mem : (address, entry) ∈ addressed root) :
    ∀ name ∈ address, IsEntryName name :=
  names_of_mem_addressedAt (.directory root) (by simp) named _ mem

mutual

theorem map_slashed_addressedAt {address : Address} (entry : Entry)
    (named : ∀ place ∈ addressedAt address entry, ∀ name ∈ place.1, IsEntryName name) :
    (addressedAt address entry).map (Prod.map Address.slashed id) =
      (address.slashed, entry) :: belowAt address.slashed entry := by
  cases entry with
  | directory entries =>
      rw [addressedAt, List.forall_mem_cons] at named
      rw [addressedAt, List.map_cons, map_slashed_addressedIn entries named.1 named.2]
      rfl
  | missingDirectory => rfl
  | file mode content => rfl
  | submodule => rfl

theorem map_slashed_addressedIn {address : Address} (entries : List (List Char × Entry))
    (address_named : ∀ name ∈ address, IsEntryName name)
    (named : ∀ place ∈ addressedIn address entries, ∀ name ∈ place.1, IsEntryName name) :
    (addressedIn address entries).map (Prod.map Address.slashed id) =
      within address.slashed entries := by
  cases entries with
  | nil => rfl
  | cons first others =>
      obtain ⟨name, entry⟩ := first
      rw [addressedIn, List.forall_mem_append] at named
      rw [addressedIn, List.map_append, map_slashed_addressedAt entry named.1,
        map_slashed_addressedIn others address_named named.2, within,
        pathIn_slashed address_named]
      rfl

end

/-- With slashes between the names of addresses the tree is the one in which everything stands under
its path. -/
theorem map_slashed_addressed {root : Entries} (named : HasEntryNames root) :
    (addressed root).map (Prod.map Address.slashed id) =
      ([], Entry.directory root) :: within [] root :=
  map_slashed_addressedAt (.directory root) fun _ mem => named.of_mem mem

mutual

theorem prefix_of_mem_addressedAt {address : Address} (entry : Entry) :
    ∀ place ∈ addressedAt address entry, address <+: place.1 := by
  cases entry with
  | directory entries =>
      rw [addressedAt, List.forall_mem_cons]
      refine ⟨List.prefix_rfl, fun place mem => ?_⟩
      obtain ⟨name, -, leads⟩ := prefix_of_mem_addressedIn entries place mem
      exact (List.prefix_append address [name]).trans leads
  | missingDirectory => simp [addressedAt]
  | file mode content => simp [addressedAt]
  | submodule => simp [addressedAt]

theorem prefix_of_mem_addressedIn {address : Address} (entries : List (List Char × Entry)) :
    ∀ place ∈ addressedIn address entries,
      ∃ name ∈ entries.map Prod.fst, address ++ [name] <+: place.1 := by
  cases entries with
  | nil => simp [addressedIn]
  | cons first others =>
      obtain ⟨name, entry⟩ := first
      rw [addressedIn, List.forall_mem_append]
      constructor
      · intro place mem
        exact ⟨name, List.mem_cons_self, prefix_of_mem_addressedAt entry place mem⟩
      · intro place mem
        obtain ⟨other, listed, leads⟩ := prefix_of_mem_addressedIn others place mem
        exact ⟨other, List.mem_cons_of_mem name listed, leads⟩

end

theorem name_eq_of_both_lead {address place : Address} {first second : List Char}
    (first_leads : address ++ [first] <+: place) (second_leads : address ++ [second] <+: place) :
    first = second := by
  have same : address ++ [first] = address ++ [second] :=
    (List.prefix_of_prefix_length_le first_leads second_leads (by simp)).eq_of_length (by simp)
  simpa using same

mutual

theorem addressedAt_nodup {address : Address} (entry : Entry)
    (distinct : ∀ place below, (place, Entry.directory below) ∈ addressedAt address entry →
      (below.map Prod.fst).Nodup) :
    ((addressedAt address entry).map Prod.fst).Nodup := by
  cases entry with
  | directory entries =>
      rw [addressedAt] at distinct ⊢
      have here := distinct address entries List.mem_cons_self
      have below : ((addressedIn address entries).map Prod.fst).Nodup :=
        addressedIn_nodup entries here fun place below mem =>
          distinct place below (List.mem_cons_of_mem _ mem)
      refine List.nodup_cons.mpr ⟨fun again => ?_, below⟩
      -- what is in the directory has a longer address
      obtain ⟨place, mem, same⟩ : ∃ place ∈ addressedIn address entries, place.1 = address :=
        List.mem_map.mp again
      obtain ⟨name, -, leads⟩ := prefix_of_mem_addressedIn entries place mem
      have longer := leads.length_le
      rw [same, List.length_append, List.length_singleton] at longer
      omega
  | missingDirectory => exact List.nodup_singleton _
  | file mode content => exact List.nodup_singleton _
  | submodule => exact List.nodup_singleton _

theorem addressedIn_nodup {address : Address} (entries : List (List Char × Entry))
    (here : (entries.map Prod.fst).Nodup)
    (distinct : ∀ place below, (place, Entry.directory below) ∈ addressedIn address entries →
      (below.map Prod.fst).Nodup) :
    ((addressedIn address entries).map Prod.fst).Nodup := by
  cases entries with
  | nil => exact List.nodup_nil
  | cons first others =>
      obtain ⟨name, entry⟩ := first
      rw [addressedIn] at distinct ⊢
      obtain ⟨fresh, here⟩ := List.nodup_cons.mp here
      have first_nodup := addressedAt_nodup entry fun place below mem =>
        distinct place below (List.mem_append_left _ mem)
      have others_nodup := addressedIn_nodup others here fun place below mem =>
        distinct place below (List.mem_append_right _ mem)
      rw [List.map_append, List.nodup_append]
      refine ⟨first_nodup, others_nodup, ?_⟩
      rintro _ first_mem _ other_mem rfl
      -- the name of the first entry would be that of another one
      obtain ⟨place, mem, rfl⟩ := List.mem_map.mp first_mem
      obtain ⟨again, again_mem, same⟩ := List.mem_map.mp other_mem
      have leads := prefix_of_mem_addressedAt entry place mem
      obtain ⟨other, listed, other_leads⟩ := prefix_of_mem_addressedIn others again again_mem
      rw [same] at other_leads
      rw [name_eq_of_both_lead leads other_leads] at fresh
      exact fresh listed

end

theorem addressed_nodup {root : Entries} (distinct : HasDistinctNames root) :
    ((addressed root).map Prod.fst).Nodup := addressedAt_nodup (.directory root) distinct

end Entries

end CodeGauge
