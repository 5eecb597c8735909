import CodeGauge.Filesystem
import CodeGauge.Proofs.Path.Names
import Mathlib.Data.List.Basic

/-!
# What changes in a file tree

Paths are followed through directories alone, so they lead to the same places in all trees that have
the same directories (`SameDirectories.target_eq_ok_iff`).  A path that leads on from a base reaches
places below that of the base (`target_of_isBelow`).  A file is never put where a directory stands,
so writing keeps the directories (`sameDirectories_set`), and making directories adds directories
and does nothing else (`makeDirectories_grows`).
-/

namespace CodeGauge.Filesystem

variable {first second tree : Filesystem} {working here location : Location} {path : List Char}

/-- Two trees have directories at the same places. -/
def SameDirectories (first second : Filesystem) : Prop :=
  ∀ location, first.item? location = some .directory ↔ second.item? location = some .directory

theorem SameDirectories.refl (tree : Filesystem) : tree.SameDirectories tree := fun _ => Iff.rfl

theorem SameDirectories.symm (same : first.SameDirectories second) :
    second.SameDirectories first := fun location => (same location).symm

theorem SameDirectories.trans {third : Filesystem} (left : first.SameDirectories second)
    (right : second.SameDirectories third) : first.SameDirectories third :=
  fun location => (left location).trans (right location)

theorem follow_cons_eq_ok_iff {name : List Char} {names : List (List Char)} {place : Location} :
    tree.follow here (name :: names) = .ok place ↔
      if name = Path.above then tree.follow here.dropLast names = .ok place
      else Text.byteLength name ≤ longestName ∧ tree.item? (here ++ [name]) = some .directory ∧
        tree.follow (here ++ [name]) names = .ok place := by
  rw [follow]
  by_cases upwards : name = Path.above
  · rw [if_pos upwards, if_pos upwards]
  · rw [if_neg upwards, if_neg upwards]
    by_cases long : longestName < Text.byteLength name
    · simp [long, Nat.not_le.mpr long]
    · rw [if_neg long]
      cases tree.item? (here ++ [name]) with
      | none => simp
      | some item => cases item <;> simp [Nat.not_lt.mp long]

theorem SameDirectories.follow_eq_ok (same : first.SameDirectories second)
    {names : List (List Char)} {place : Location} (reached : first.follow here names = .ok place) :
    second.follow here names = .ok place := by
  induction names generalizing here with
  | nil => simpa only [follow] using reached
  | cons name names ih =>
      rw [follow_cons_eq_ok_iff] at reached ⊢
      split
      · rename_i upwards
        rw [if_pos upwards] at reached
        exact ih reached
      · rename_i downwards
        rw [if_neg downwards] at reached
        obtain ⟨short, at_name, below⟩ := reached
        exact ⟨short, (same _).mp at_name, ih below⟩

theorem SameDirectories.directory_eq_ok (same : first.SameDirectories second)
    (reached : first.directory working path = .ok location) :
    second.directory working path = .ok location := by
  unfold directory at reached ⊢
  cases allowed : pathError? path with
  | some error => simp [allowed] at reached
  | none =>
      rw [allowed] at reached
      exact same.follow_eq_ok reached

/-- A file can be written at a place exactly if its path leads to a directory and from there to a
name at which no other directory stands. -/
theorem target_eq_ok_iff :
    tree.target working path = .ok location ↔
      pathError? path = none ∧ ∃ here name,
        tree.follow (origin working path) (Path.components path).dropLast = .ok here ∧
        (Path.components path).getLast? = some name ∧ name ≠ Path.above ∧
        Text.byteLength name ≤ longestName ∧
        tree.item? (here ++ [name]) ≠ some .directory ∧ location = here ++ [name] := by
  cases allowed : pathError? path with
  | some error => simp [target, allowed]
  | none =>
      cases followed : tree.follow (origin working path) (Path.components path).dropLast with
      | error error => simp [target, allowed, followed]
      | ok here =>
          cases last : (Path.components path).getLast? with
          | none => simp [target, allowed, followed, last]
          | some name =>
              by_cases upwards : name = Path.above
              · simp [target, allowed, followed, last, upwards]
              by_cases long : longestName < Text.byteLength name
              · simp [target, allowed, followed, last, upwards, long, Nat.not_le.mpr long]
              have short := Nat.not_lt.mp long
              cases found : tree.item? (here ++ [name]) with
              | none => simp [target, allowed, followed, last, upwards, long, short, found, eq_comm]
              | some item =>
                  cases item <;>
                    simp [target, allowed, followed, last, upwards, long, short, found, eq_comm]

theorem ne_nil_of_target (reached : tree.target working path = .ok location) : location ≠ [] := by
  obtain ⟨-, here, name, -, -, -, -, -, rfl⟩ := target_eq_ok_iff.mp reached
  simp

theorem item?_ne_directory_of_target (reached : tree.target working path = .ok location) :
    tree.item? location ≠ some .directory := by
  obtain ⟨-, here, name, -, -, -, -, free, rfl⟩ := target_eq_ok_iff.mp reached
  exact free

theorem SameDirectories.target_eq_ok (same : first.SameDirectories second)
    (reached : first.target working path = .ok location) :
    second.target working path = .ok location := by
  rw [target_eq_ok_iff] at reached ⊢
  obtain ⟨allowed, here, name, followed, last, downwards, short, free, rfl⟩ := reached
  exact ⟨allowed, here, name, same.follow_eq_ok followed, last, downwards, short,
    mt (same _).mpr free, rfl⟩

theorem SameDirectories.target_eq_ok_iff (same : first.SameDirectories second) :
    first.target working path = .ok location ↔ second.target working path = .ok location :=
  ⟨same.target_eq_ok, same.symm.target_eq_ok⟩

theorem follow_append_eq_ok_iff {first second : List (List Char)} {place : Location} :
    tree.follow here (first ++ second) = .ok place ↔
      ∃ middle, tree.follow here first = .ok middle ∧ tree.follow middle second = .ok place := by
  induction first generalizing here with
  | nil => simp [follow]
  | cons name first ih =>
      simp only [List.cons_append, follow_cons_eq_ok_iff, ih]
      split
      · rfl
      · constructor
        · rintro ⟨short, at_name, middle, reached, rest⟩
          exact ⟨middle, ⟨short, at_name, reached⟩, rest⟩
        · rintro ⟨middle, ⟨short, at_name, reached⟩, rest⟩
          exact ⟨short, at_name, middle, reached, rest⟩

theorem follow_downwards {names : List (List Char)} {place : Location}
    (downwards : Path.above ∉ names) (reached : tree.follow here names = .ok place) :
    place = here ++ names := by
  induction names generalizing here with
  | nil => simpa [follow, eq_comm] using reached
  | cons name names ih =>
      rw [List.mem_cons, not_or] at downwards
      rw [follow_cons_eq_ok_iff, if_neg (Ne.symm downwards.1)] at reached
      rw [ih downwards.2 reached.2.2, List.append_assoc, List.singleton_append]

theorem pathError?_of_isPrefix {base : List Char} (continues : base <+: path)
    (allowed : pathError? path = none) : pathError? base = none := by
  obtain ⟨rest, rfl⟩ := continues
  unfold pathError? at allowed ⊢
  simp only [List.contains_eq_mem, List.mem_append, Text.byteLength_append] at allowed ⊢
  split at allowed
  · simp at allowed
  · rename_i clean
    split at allowed
    · simp at allowed
    · rename_i short
      have base_clean : '\x00' ∉ base := fun mem => clean (by simp [mem])
      have base_short : ¬pathBound ≤ Text.byteLength base := by omega
      simp [base_clean, base_short]

/-- A file whose path leads on from a base by names, none of which stands for the directory above,
is put below the place of the base. -/
theorem target_of_isBelow {base : List Char} {names : List (List Char)}
    (below : Path.IsBelow base names path) (named : names ≠ []) (downwards : Path.above ∉ names)
    (reached : tree.target working path = .ok location) :
    ∃ home, tree.directory working base = .ok home ∧ location = home ++ names := by
  obtain ⟨allowed, here, name, followed, last, -, -, -, rfl⟩ := target_eq_ok_iff.mp reached
  rw [below.components_eq, List.dropLast_append_of_ne_nil named,
    follow_append_eq_ok_iff] at followed
  obtain ⟨home, base_followed, followed⟩ := followed
  have here_eq := follow_downwards (mt (List.dropLast_subset names ·) downwards) followed
  have same_origin : origin working path = origin working base := by
    rw [origin, origin, below.isAbsolute_eq]
  refine ⟨home, ?_, ?_⟩
  · rw [directory, pathError?_of_isPrefix below.continues allowed, ← same_origin]
    exact base_followed
  · rw [below.components_eq, List.getLast?_append_of_ne_nil _ named] at last
    rw [here_eq, List.append_assoc, List.dropLast_append_getLast? name last]

theorem sameDirectories_set (named : location ≠ [])
    (free : tree.item? location ≠ some .directory) (text : String) :
    tree.SameDirectories (tree.set location (.file text)) := by
  intro place
  rw [item?_set tree location place _ named]
  split
  · rename_i here
    simp [here, free]
  · exact Iff.rfl

/-- What stands at the end of a path that can be followed. -/
def found? (tree : Filesystem) (working : Location) (path : List Char) : Option FileItem :=
  match pathError? path, tree.follow (origin working path) (Path.components path).dropLast with
  | none, .ok here =>
    match (Path.components path).getLast? with
    | none => some .directory
    | some name =>
      if name = Path.above then some .directory
      else if longestName < Text.byteLength name then none
      else tree.item? (here ++ [name])
  | _, _ => none

theorem found?_of_target (reached : tree.target working path = .ok location) :
    tree.found? working path = tree.item? location := by
  obtain ⟨allowed, here, name, followed, last, downwards, short, -, rfl⟩ :=
    target_eq_ok_iff.mp reached
  simp [found?, allowed, followed, last, downwards, Nat.not_lt.mpr short]

theorem SameDirectories.found?_eq (same : first.SameDirectories second)
    (blocked : ∀ location, first.target working path ≠ .ok location) :
    second.found? working path = first.found? working path := by
  unfold found?
  cases allowed : pathError? path with
  | some error => rfl
  | none =>
      cases followed : first.follow (origin working path) (Path.components path).dropLast with
      | error error =>
          cases again : second.follow (origin working path) (Path.components path).dropLast with
          | error error => rfl
          | ok here => simp [same.symm.follow_eq_ok again] at followed
      | ok here =>
          rw [same.follow_eq_ok followed]
          cases last : (Path.components path).getLast? with
          | none => rfl
          | some name =>
              by_cases upwards : name = Path.above
              · simp [upwards]
              · by_cases long : longestName < Text.byteLength name
                · simp [long]
                · -- the only thing that can be in the way is a directory, which both trees have
                  have held : first.item? (here ++ [name]) = some .directory := by
                    by_contra free
                    exact blocked _ (Filesystem.target_eq_ok_iff.mpr
                      ⟨allowed, here, name, followed, last, upwards, Nat.not_lt.mp long, free, rfl⟩)
                  simp [upwards, long, held, (same _).mp held]

/-- A tree has grown by directories at places where nothing stood. -/
def GrowsByDirectories (before after : Filesystem) : Prop :=
  ∀ location, after.item? location = before.item? location ∨
    before.item? location = none ∧ after.item? location = some .directory

theorem makeNames_grows (tree : Filesystem) (here : Location) (names : List (List Char)) :
    tree.GrowsByDirectories (tree.makeNames here names).1 := by
  induction names generalizing tree here with
  | nil => exact fun _ => .inl rfl
  | cons name names ih =>
      rw [makeNames]
      split
      · exact ih tree here.dropLast
      · split
        · exact fun _ => .inl rfl
        · split
          · exact fun _ => .inl rfl
          · exact ih tree (here ++ [name])
          · rename_i missing
            intro place
            have set_eq := item?_set tree (here ++ [name]) place .directory (by simp)
            rcases ih (tree.set (here ++ [name]) .directory) (here ++ [name]) place with
              same | ⟨absent, made⟩
            · rw [same, set_eq]
              split
              · rename_i at_name
                exact .inr ⟨at_name ▸ missing, rfl⟩
              · exact .inl rfl
            · rw [set_eq] at absent
              split at absent
              · simp at absent
              · exact .inr ⟨absent, made⟩

/-- Making the directory of a path adds directories and does nothing else, also where it fails. -/
theorem makeDirectories_grows (tree : Filesystem) (working : Location) (path : List Char) :
    tree.GrowsByDirectories (tree.makeDirectories working path).1 := by
  unfold makeDirectories
  cases pathError? path with
  | some error => exact fun _ => .inl rfl
  | none => exact makeNames_grows tree (origin working path) (Path.components path)

end CodeGauge.Filesystem
