import CodeGauge.Path
import Mathlib.Data.List.Basic

/-!
# Names in paths

A name is plain if it can stand for one thing in a directory: it is not empty, holds no slash, and
is neither one dot nor two.  A path joined with a plain name leads to the child of that name
(`isBelow_join`).  No part of a path holds a slash, and so no stem does (`slash_not_mem_stem`).
-/

namespace CodeGauge.Path

theorem parts_ne_nil (path : List Char) : parts path ≠ [] := by
  cases path with
  | nil => simp [parts]
  | cons c rest =>
      rw [parts]
      split
      · simp
      · split <;> simp

theorem parts_cons_slash (rest : List Char) : parts ('/' :: rest) = [] :: parts rest := by
  rw [parts, if_pos rfl]

theorem slash_not_mem_of_mem_parts {path part : List Char} (mem : part ∈ parts path) :
    '/' ∉ part := by
  induction path generalizing part with
  | nil =>
      obtain rfl : part = [] := by simpa [parts] using mem
      simp
  | cons c rest ih =>
      rw [parts] at mem
      split at mem
      · rcases List.mem_cons.mp mem with rfl | later
        · simp
        · exact ih later
      · rename_i other
        obtain ⟨first, others, split_rest⟩ := List.exists_cons_of_ne_nil (parts_ne_nil rest)
        simp only [split_rest, List.mem_cons] at mem ih
        rcases mem with rfl | later
        · simpa [Ne.symm other] using ih (.inl rfl)
        · exact ih (.inr later)

theorem parts_of_slash_not_mem {path : List Char} (whole : '/' ∉ path) : parts path = [path] := by
  induction path with
  | nil => rfl
  | cons c rest ih =>
      rw [List.mem_cons, not_or] at whole
      rw [parts, if_neg (Ne.symm whole.1), ih whole.2]

theorem parts_append_slash (first second : List Char) :
    parts (first ++ '/' :: second) = parts first ++ parts second := by
  induction first with
  | nil => rw [List.nil_append, parts_cons_slash]; rfl
  | cons c first ih =>
      rw [List.cons_append, parts, ih, parts]
      split
      · rfl
      · obtain ⟨part, others, split_first⟩ := List.exists_cons_of_ne_nil (parts_ne_nil first)
        rw [split_first]
        rfl

theorem components_append_slash (first second : List Char) :
    components (first ++ '/' :: second) = components first ++ components second := by
  rw [components, parts_append_slash, List.filter_append]
  rfl

/-- A name that can stand for one thing in a directory. -/
structure IsPlainName (name : List Char) : Prop where
  nonempty : name ≠ []
  whole : '/' ∉ name
  ne_here : name ≠ ['.']
  ne_above : name ≠ above

theorem components_of_isPlainName {name : List Char} (plain : IsPlainName name) :
    components name = [name] := by
  rw [components, parts_of_slash_not_mem plain.whole]
  simp [isNaming, plain.nonempty, plain.ne_here]

/-- Only the shortest names stand for something else. -/
theorem isPlainName_of_length {name : List Char} (whole : '/' ∉ name) (long : 2 < name.length) :
    IsPlainName name where
  nonempty same := by simp [same] at long
  whole := whole
  ne_here same := by simp [same] at long
  ne_above same := by simp [same, above] at long

/-- An ending of some length makes a name of anything undivided, be it empty or only dots. -/
theorem isPlainName_append {front ending : List Char} (whole : '/' ∉ front)
    (undivided : '/' ∉ ending) (long : 2 < ending.length) : IsPlainName (front ++ ending) := by
  refine isPlainName_of_length ?_ ?_
  · rw [List.mem_append, not_or]
    exact ⟨whole, undivided⟩
  · rw [List.length_append]
    exact Nat.lt_of_lt_of_le long (Nat.le_add_left _ _)

/-- A path leads on from a base through some names. -/
structure IsBelow (base : List Char) (names : List (List Char)) (path : List Char) : Prop where
  components_eq : components path = components base ++ names
  isAbsolute_eq : isAbsolute path = isAbsolute base
  continues : base <+: path

theorem IsBelow.trans {base middle path : List Char} {first second : List (List Char)}
    (upper : IsBelow base first middle) (lower : IsBelow middle second path) :
    IsBelow base (first ++ second) path where
  components_eq := by rw [lower.components_eq, upper.components_eq, List.append_assoc]
  isAbsolute_eq := lower.isAbsolute_eq.trans upper.isAbsolute_eq
  continues := upper.continues.trans lower.continues

theorem isAbsolute_append {base : List Char} (nonempty : base ≠ []) (rest : List Char) :
    isAbsolute (base ++ rest) = isAbsolute base := by
  rw [isAbsolute, isAbsolute, List.head?_append_of_ne_nil _ nonempty]

theorem isBelow_join (base : List Char) {name : List Char} (plain : IsPlainName name) :
    IsBelow base [name] (join base name) := by
  have relative : isAbsolute name = false := by
    rw [isAbsolute, beq_eq_false_iff_ne]
    exact fun head => plain.whole (List.mem_of_mem_head? head)
  have own := components_of_isPlainName plain
  rcases List.eq_nil_or_concat base with rfl | ⟨front, last, rfl⟩
  · have joined : join [] name = name := by simp [join]
    rw [joined]
    exact ⟨own, relative, List.nil_prefix⟩
  rw [List.concat_eq_append]
  have nonempty : front ++ [last] ≠ [] := by simp
  by_cases slash : last = '/'
  · subst slash
    have joined : join (front ++ ['/']) name = front ++ ['/'] ++ name := by
      simp [join, relative]
    rw [joined]
    refine ⟨?_, isAbsolute_append nonempty name, List.prefix_append _ name⟩
    rw [List.append_assoc, List.singleton_append, components_append_slash, own,
      components_append_slash]
    simp [components, parts, isNaming]
  · have joined : join (front ++ [last]) name = (front ++ [last]) ++ '/' :: name := by
      simp [join, relative, slash]
    rw [joined]
    exact ⟨by rw [components_append_slash, own], isAbsolute_append nonempty _,
      List.prefix_append _ _⟩

def descend (base : List Char) (names : List (List Char)) : List Char := names.foldl join base

theorem isBelow_descend (base : List Char) {names : List (List Char)}
    (plain : ∀ name ∈ names, IsPlainName name) : IsBelow base names (descend base names) := by
  induction names generalizing base with
  | nil => exact ⟨(List.append_nil _).symm, rfl, List.prefix_rfl⟩
  | cons name names ih =>
      rw [List.forall_mem_cons] at plain
      exact (isBelow_join base plain.1).trans (ih (join base name) plain.2)

theorem mem_of_mem_withoutExtension {name : List Char} {c : Char}
    (mem : c ∈ withoutExtension name) : c ∈ name := by
  unfold withoutExtension at mem
  split at mem
  · exact mem
  · rename_i dot before found
    have inside : dot :: before <:+ name.reverse := found ▸ List.dropWhile_suffix _
    split at mem
    · exact mem
    · have reversed : c ∈ dot :: before := List.mem_cons_of_mem dot (List.mem_reverse.mp mem)
      exact List.mem_reverse.mp (inside.subset reversed)

theorem slash_not_mem_stem (path : List Char) : '/' ∉ stem path := by
  unfold stem
  split
  · simp
  · rename_i last found
    have mem : last ∈ parts path := List.mem_of_mem_filter (List.mem_of_getLast? found)
    split
    · simp
    · exact fun slash => slash_not_mem_of_mem_parts mem (mem_of_mem_withoutExtension slash)

end CodeGauge.Path
