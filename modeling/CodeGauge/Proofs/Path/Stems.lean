import CodeGauge.Inspection
import CodeGauge.Proofs.Path.Names
import Mathlib.Data.List.DropRight

/-!
# Stems of source files

The stem of a path is cut from its last component, and its name is what follows its last slash.
Where the name stands for one thing it is the last component, so that the stem is cut from the name
(`stem_of_isPlainName`).  The name of a source file is always of this kind.  Its stem is what stands
before the suffix, but the suffix alone is its own stem; up to this exception the stem tells the
name (`stems_tell_source_names`).
-/

namespace CodeGauge.Path

theorem slash_not_mem_name (path : List Char) : '/' ∉ name path := by
  intro mem
  have undivided := List.mem_rtakeWhile_imp (p := (· != '/')) mem
  simp at undivided

theorem bne_of_mem_reverse {text : List Char} {mark : Char} (absent : mark ∉ text) :
    ∀ c ∈ text.reverse, (c != mark) = true := by
  intro c mem
  rw [bne_iff_ne]
  rintro rfl
  exact absent (List.mem_reverse.mp mem)

theorem name_append (path : List Char) {rest : List Char} (whole : '/' ∉ rest) :
    name (path ++ rest) = name path ++ rest := by
  rw [name, List.reverse_append, List.takeWhile_append_of_pos (bne_of_mem_reverse whole),
    List.reverse_append, List.reverse_reverse, name]

theorem name_of_slash_not_mem {path : List Char} (whole : '/' ∉ path) : name path = path := by
  simpa [name] using name_append [] whole

@[simp]
theorem name_name (path : List Char) : name (name path) = name path :=
  name_of_slash_not_mem (slash_not_mem_name path)

theorem exists_components_eq_append (path : List Char) :
    ∃ before, components path = before ++ components (name path) := by
  have split : path.rdropWhile (· != '/') ++ name path = path :=
    List.rdropWhile_append_rtakeWhile
  rcases List.eq_nil_or_concat (path.rdropWhile (· != '/')) with whole | ⟨front, last, divided⟩
  · rw [whole, List.nil_append] at split
    exact ⟨[], by rw [split, List.nil_append]⟩
  · have nonempty : path.rdropWhile (· != '/') ≠ [] := by simp [divided]
    have slash : last = '/' := by
      simpa [divided] using List.rdropWhile_last_not (· != '/') path nonempty
    rw [divided, slash, List.concat_eq_append, List.append_assoc, List.singleton_append] at split
    exact ⟨components front, by rw [← components_append_slash, split]⟩

theorem stem_of_isPlainName {path : List Char} (plain : IsPlainName (name path)) :
    stem path = withoutExtension (name path) := by
  obtain ⟨before, split⟩ := exists_components_eq_append path
  rw [components_of_isPlainName plain] at split
  rw [stem, split, List.getLast?_concat]
  exact if_neg plain.ne_above

/-- A name loses what follows its last dot, and the dot, unless nothing would be left. -/
theorem withoutExtension_append (before : List Char) {extension : List Char}
    (undotted : '.' ∉ extension) :
    withoutExtension (before ++ '.' :: extension) =
      if before = [] then '.' :: extension else before := by
  have found :
      (before ++ '.' :: extension).reverse.dropWhile (· != '.') = '.' :: before.reverse := by
    rw [List.reverse_append, List.reverse_cons, List.append_assoc,
      List.dropWhile_append_of_pos (bne_of_mem_reverse undotted)]
    rfl
  rw [withoutExtension, found]
  cases before with
  | nil => rfl
  | cons c before => simp

/-- The two names of source files that share a stem, which is the suffix. -/
def suffixNames : List (List Char) := [".py".toList, ".py.py".toList]

theorem isSource_iff {path : List Char} : isSource path = true ↔ sourceSuffix <:+ path :=
  List.isSuffixOf_iff_suffix

theorem name_append_sourceSuffix (before : List Char) :
    name (before ++ sourceSuffix) = name before ++ sourceSuffix :=
  name_append before (by decide)

theorem stem_append_sourceSuffix (before : List Char) :
    stem (before ++ sourceSuffix) = if name before = [] then sourceSuffix else name before := by
  have named := name_append_sourceSuffix before
  have plain : IsPlainName (name (before ++ sourceSuffix)) := by
    rw [named]
    exact isPlainName_append (slash_not_mem_name before) (by decide) (by decide)
  rw [stem_of_isPlainName plain, named]
  exact withoutExtension_append (name before) (by decide)

section Source

variable {path : List Char} (source : isSource path = true)
include source

theorem stem_eq_stem_name : stem path = stem (name path) := by
  obtain ⟨before, rfl⟩ := isSource_iff.mp source
  rw [name_append_sourceSuffix, stem_append_sourceSuffix, stem_append_sourceSuffix, name_name]

/-- A text is the stem of a source file if it makes the name with the suffix; nothing at all is no
stem, and the suffix is the stem of itself. -/
theorem stem_eq_iff {text : List Char} :
    stem path = text ↔
      (text ≠ [] ∧ name path = text ++ sourceSuffix) ∨
        (text = sourceSuffix ∧ name path = sourceSuffix) := by
  obtain ⟨before, rfl⟩ := isSource_iff.mp source
  rw [stem_append_sourceSuffix, name_append_sourceSuffix, List.append_left_inj,
    List.append_left_eq_self]
  by_cases empty : name before = []
  · rw [if_pos empty, empty]
    constructor
    · rintro rfl
      exact .inr ⟨rfl, rfl⟩
    · rintro (⟨nonempty, rfl⟩ | ⟨rfl, -⟩)
      · exact absurd rfl nonempty
      · rfl
  · rw [if_neg empty]
    constructor
    · rintro rfl
      exact .inl ⟨empty, rfl⟩
    · rintro (⟨-, same⟩ | ⟨-, none⟩)
      · exact same
      · exact absurd none empty

theorem stem_ne_nil : stem path ≠ [] := by
  intro empty
  rcases (stem_eq_iff source).mp empty with ⟨nonempty, -⟩ | ⟨same, -⟩
  · exact nonempty rfl
  · exact absurd same (by decide)

theorem stem_eq_packageMarker_iff :
    stem path = packageMarker ↔ name path = packageMarker ++ sourceSuffix := by
  have nonempty : packageMarker ≠ [] := by decide
  have other : packageMarker ≠ sourceSuffix := by decide
  rw [stem_eq_iff source]
  simp [nonempty, other]

theorem stem_eq_sourceSuffix_iff : stem path = sourceSuffix ↔ name path ∈ suffixNames := by
  rw [stem_eq_iff source, suffixNames, List.mem_pair, or_comm]
  constructor
  · rintro (⟨-, alone⟩ | ⟨-, twice⟩)
    · exact .inl alone
    · exact .inr twice
  · rintro (alone | twice)
    · exact .inl ⟨rfl, alone⟩
    · exact .inr ⟨by decide, twice⟩

theorem stem_of_name_eq_sourceSuffix (alone : name path = sourceSuffix) :
    stem path = sourceSuffix :=
  (stem_eq_iff source).mpr (.inr ⟨rfl, alone⟩)

theorem name_eq_stem_append (longer : name path ≠ sourceSuffix) :
    name path = stem path ++ sourceSuffix := by
  rcases (stem_eq_iff source).mp rfl with ⟨-, named⟩ | ⟨-, alone⟩
  · exact named
  · exact absurd alone longer

/-- Source files share a stem exactly if they share a name or have the two exceptional names. -/
theorem stem_eq_stem_iff {other : List Char} (other_source : isSource other = true) :
    stem path = stem other ↔
      name path = name other ∨ (name path ∈ suffixNames ∧ name other ∈ suffixNames) := by
  rw [← stem_eq_sourceSuffix_iff source, ← stem_eq_sourceSuffix_iff other_source]
  constructor
  · intro same
    by_cases suffix : stem path = sourceSuffix
    · exact .inr ⟨suffix, same ▸ suffix⟩
    · have longer : name path ≠ sourceSuffix :=
        fun alone => suffix (stem_of_name_eq_sourceSuffix source alone)
      have other_longer : name other ≠ sourceSuffix :=
        fun alone => suffix (same.trans (stem_of_name_eq_sourceSuffix other_source alone))
      refine .inl ?_
      rw [name_eq_stem_append source longer, name_eq_stem_append other_source other_longer, same]
  · rintro (same | ⟨suffix, other_suffix⟩)
    · rw [stem_eq_stem_name source, stem_eq_stem_name other_source, same]
    · rw [suffix, other_suffix]

end Source

/-- The stem of a source file is that of its name, which it makes with the suffix, except that the
suffix alone is its own stem.  It is never empty or divided, it marks a package only in the name of
a package marker, and but for the one exception it tells names apart. -/
theorem stems_tell_source_names {path : List Char} (source : isSource path = true) :
    stem path = stem (name path) ∧
    (if name path = sourceSuffix then stem path = sourceSuffix
      else stem path ++ sourceSuffix = name path) ∧
    stem path ≠ [] ∧ '/' ∉ stem path ∧
    (stem path = packageMarker ↔ name path = packageMarker ++ sourceSuffix) ∧
    ∀ other, isSource other = true →
      (stem path = stem other ↔
        name path = name other ∨ (name path ∈ suffixNames ∧ name other ∈ suffixNames)) := by
  refine ⟨stem_eq_stem_name source, ?_, stem_ne_nil source, slash_not_mem_stem path,
    stem_eq_packageMarker_iff source, fun _ => stem_eq_stem_iff source⟩
  split
  · rename_i alone
    exact stem_of_name_eq_sourceSuffix source alone
  · rename_i longer
    exact (name_eq_stem_append source longer).symm

theorem hiddenFiles_share_stem :
    let hidden := "pkg/.//.py".toList
    let doubled := "./.py.py".toList
    isSource hidden = true ∧ isSource doubled = true ∧
      stem hidden = stem (name hidden) ∧ stem hidden = sourceSuffix ∧
      stem doubled ++ sourceSuffix = name doubled ∧
      name hidden ≠ name doubled ∧ stem hidden = stem doubled := by
  intro hidden doubled
  have source : isSource hidden = true := by decide
  have doubled_source : isSource doubled = true := by decide
  have named : name hidden = sourceSuffix := by decide
  have doubled_named : name doubled ≠ sourceSuffix := by decide
  obtain ⟨own, alone, -, -, -, shares⟩ := stems_tell_source_names source
  obtain ⟨-, longer, -⟩ := stems_tell_source_names doubled_source
  rw [if_pos named] at alone
  rw [if_neg doubled_named] at longer
  have shared : stem hidden = stem doubled :=
    (shares doubled doubled_source).mpr (.inr ⟨by decide, by decide⟩)
  exact ⟨source, doubled_source, own, alone, longer, named ▸ doubled_named.symm, shared⟩

end CodeGauge.Path
