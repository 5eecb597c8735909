import CodeGauge.Proofs.Inspection.Head
import CodeGauge.Proofs.Path.Names
import CodeGauge.Proofs.Report.Writing

/-!
# Where the tables of a report stand

The stems of an inspection are distinct and undivided, whatever the files of the repository are
called.  So each table has a name of its own in the directory of the report or in the directory for
single files below it, and writing the report changes no file anywhere else
(`tables_have_own_places`).
-/

namespace CodeGauge.Report

open Filesystem Measurement CodeGauge.Path

variable {ε : Type} {inspection : Inspection} {directory : List Char} {table : Table}

def summaryNames : List (List Char) :=
  ["metrics.csv".toList, "metrics_by_file.csv".toList, "history_metrics.csv".toList]

def filesName : List Char := "files_history".toList

def seriesName (stem : String) : List Char := stem.toList ++ ".csv".toList

/-- The names that lead from the directory of a report to its tables, in the order of the tables. -/
def tableNames (inspection : Inspection) : List (List (List Char)) :=
  ["metrics.csv".toList] :: ["metrics_by_file.csv".toList] ::
    inspection.filesHistory.stems.map (fun stem => [filesName, seriesName stem]) ++
      [["history_metrics.csv".toList]]

theorem isPlainName_summaryNames : ∀ name ∈ summaryNames, IsPlainName name := by
  have whole : ∀ name ∈ summaryNames, '/' ∉ name ∧ 2 < name.length := by decide
  exact fun name mem => isPlainName_of_length (whole name mem).1 (whole name mem).2

theorem isPlainName_filesName : IsPlainName filesName :=
  isPlainName_of_length (by decide) (by decide)

/-- A stem may be empty or consist of dots, but with the extension it is a name. -/
theorem isPlainName_seriesName {stem : String} (whole : '/' ∉ stem.toList) :
    IsPlainName (seriesName stem) :=
  isPlainName_append whole (by decide) (by decide)

theorem stems_of_walk {repository : Repository} {analyzer : Analyzer ε} {zone : Calendar.Zone}
    {limit : Option Nat} {history : History Sample}
    (walk : repository.history analyzer zone limit = .ok history) :
    history.stems.Nodup ∧ ∀ stem ∈ history.stems, '/' ∉ stem.toList := by
  obtain ⟨log, -, -, rfl⟩ := history_eq_ok_iff.mp walk
  rw [History.stems_ofPairs, map_fst_findingOf]
  refine ⟨nodup_eraseDups _, fun stem mem => ?_⟩
  obtain ⟨found, -, rfl⟩ := List.mem_map.mp (List.mem_eraseDups.mp mem)
  rw [TreeFile.key, String.toList_ofList]
  exact slash_not_mem_stem _

theorem stems_of_inspect {repository : Repository} {analyzer : Analyzer ε} {path : String}
    {localZone : Calendar.Zone} {settings : Settings}
    (inspected : repository.inspect analyzer path localZone settings = .ok inspection) :
    inspection.filesHistory.stems.Nodup ∧
      ∀ stem ∈ inspection.filesHistory.stems, '/' ∉ stem.toList := by
  obtain ⟨current, filesHistory, -, walk, rfl⟩ := inspect_eq_ok_iff.mp inspected
  split at walk
  · exact stems_of_walk walk
  · obtain rfl := Except.ok.inj walk
    simp [Inspection.ofWalks, History.empty, History.stems]

theorem map_fst_tables (inspection : Inspection) (directory : List Char) :
    (tables inspection directory).map Prod.fst =
      (tableNames inspection).map (descend directory) := by
  simp only [tables, tableNames, History.stems, List.cons_append, List.map_cons, List.map_append,
    List.map_map, List.map_nil]
  rfl

theorem path_of_mem_tables (mem : table ∈ tables inspection directory) :
    (∃ name ∈ summaryNames, table.1 = join directory name) ∨
      ∃ series ∈ inspection.filesHistory.series, table.1 = seriesPath directory series.stem := by
  rcases mem_tables_iff.mp mem with rfl | rfl | ⟨series, series_mem, rfl⟩ | rfl
  · exact .inl ⟨_, by simp [summaryNames], rfl⟩
  · exact .inl ⟨_, by simp [summaryNames], rfl⟩
  · exact .inr ⟨series, series_mem, rfl⟩
  · exact .inl ⟨_, by simp [summaryNames], rfl⟩

theorem nodup_tableNames (distinct : inspection.filesHistory.stems.Nodup) :
    (tableNames inspection).Nodup := by
  have single : (inspection.filesHistory.stems.map
      fun stem => [filesName, seriesName stem]).Nodup := by
    refine distinct.map fun first second same => ?_
    simpa [seriesName, String.toList_inj] using same
  -- the names of the summaries are shorter than those of series, and differ from one another
  simp only [tableNames, List.cons_append, List.nodup_cons, List.nodup_append, List.mem_cons,
    List.mem_append, List.mem_map]
  simp [single]

theorem toOption_eq_some_iff {α δ : Type} {result : Except δ α} {value : α} :
    result.toOption = some value ↔ result = .ok value := by
  cases result <;> simp [Except.toOption]

section Undivided

variable (whole : ∀ stem ∈ inspection.filesHistory.stems, '/' ∉ stem.toList)
include whole

theorem isPlainName_of_mem_tableNames {names : List (List Char)}
    (mem : names ∈ tableNames inspection) : names ≠ [] ∧ ∀ name ∈ names, IsPlainName name := by
  simp only [tableNames, List.cons_append, List.mem_cons, List.mem_append, List.mem_map,
    List.not_mem_nil, or_false] at mem
  rcases mem with rfl | rfl | ⟨stem, stem_mem, rfl⟩ | rfl
  · simpa using isPlainName_summaryNames _ (by simp [summaryNames])
  · simpa using isPlainName_summaryNames _ (by simp [summaryNames])
  · simpa using ⟨isPlainName_filesName, isPlainName_seriesName (whole stem stem_mem)⟩
  · simpa using isPlainName_summaryNames _ (by simp [summaryNames])

theorem components_of_mem_tableNames {names : List (List Char)}
    (mem : names ∈ tableNames inspection) (directory : List Char) :
    components (descend directory names) = components directory ++ names :=
  (isBelow_descend directory (isPlainName_of_mem_tableNames whole mem).2).components_eq

theorem nodup_components_tables (distinct : inspection.filesHistory.stems.Nodup)
    (directory : List Char) :
    (((tables inspection directory).map Prod.fst).map components).Nodup := by
  have spelled : ((tables inspection directory).map Prod.fst).map components =
      (tableNames inspection).map (components directory ++ ·) := by
    rw [map_fst_tables, List.map_map]
    exact List.map_congr_left fun names mem => components_of_mem_tableNames whole mem directory
  rw [spelled]
  exact (nodup_tableNames distinct).map (List.append_right_injective (components directory))

theorem target_of_mem_tables (mem : table ∈ tables inspection directory) {tree : Filesystem}
    {working location : Location} (reached : tree.target working table.1 = .ok location) :
    ∃ home, tree.directory working directory = .ok home ∧ ∃ names ∈ tableNames inspection,
      components table.1 = components directory ++ names ∧ location = home ++ names := by
  have path_mem : table.1 ∈ (tables inspection directory).map Prod.fst := List.mem_map_of_mem mem
  rw [map_fst_tables] at path_mem
  obtain ⟨names, names_mem, path_eq⟩ := List.mem_map.mp path_mem
  obtain ⟨named, plain⟩ := isPlainName_of_mem_tableNames whole names_mem
  have below : IsBelow directory names table.1 := path_eq ▸ isBelow_descend directory plain
  have downwards : above ∉ names := fun above_mem => (plain _ above_mem).ne_above rfl
  obtain ⟨home, at_home, location_eq⟩ := target_of_isBelow below named downwards reached
  exact ⟨home, at_home, names, names_mem, below.components_eq, location_eq⟩

theorem haveDistinctPlaces_tables (distinct : inspection.filesHistory.stems.Nodup)
    (directory : List Char) (tree : Filesystem) (working : Location) :
    HaveDistinctPlaces tree working ((tables inspection directory).map Prod.fst) := by
  have apart := nodup_components_tables whole distinct directory
  rw [List.map_map, List.Nodup, List.pairwise_map] at apart
  rw [HaveDistinctPlaces, List.filterMap_map, List.Nodup, List.pairwise_filterMap]
  refine apart.imp_of_mem fun {first second} first_mem second_mem differ => ?_
  rintro location first_reached _ second_reached rfl
  rw [Function.comp_apply, toOption_eq_some_iff] at first_reached second_reached
  obtain ⟨home, at_home, names, -, first_components, location_eq⟩ :=
    target_of_mem_tables whole first_mem first_reached
  obtain ⟨_, at_home_again, others, -, second_components, location_eq_again⟩ :=
    target_of_mem_tables whole second_mem second_reached
  obtain rfl := Except.ok.inj (at_home.symm.trans at_home_again)
  obtain rfl := List.append_cancel_left (location_eq.symm.trans location_eq_again)
  exact differ (first_components.trans second_components.symm)

theorem item?_write (files : Filesystem) (working location : Location)
    (changed : (write files working directory inspection).files.item? location ≠
      files.item? location) :
    (files.item? location = none ∧
        (write files working directory inspection).files.item? location = some .directory) ∨
      ∃ home,
        (write files working directory inspection).files.directory working directory = .ok home ∧
          ∃ names ∈ tableNames inspection, location = home ++ names := by
  have grows := makeDirectories_grows files working (filesDirectory directory) location
  rcases outcome : files.makeDirectories working (filesDirectory directory) with ⟨made, _ | error⟩
  · rw [outcome] at grows
    rw [write_of_made outcome] at changed ⊢
    by_cases elsewhere : ∀ table ∈ tables inspection directory,
        made.target working table.1 ≠ .ok location
    · rw [item?_attemptAll _ elsewhere] at changed ⊢
      exact .inl (grows.resolve_left changed)
    · obtain ⟨table, mem, reached⟩ : ∃ table ∈ tables inspection directory,
          made.target working table.1 = .ok location := by simpa using elsewhere
      obtain ⟨home, at_home, names, names_mem, -, rfl⟩ := target_of_mem_tables whole mem reached
      have same := sameDirectories_attemptAll working ⟨made, none⟩ (tables inspection directory)
      exact .inr ⟨home, same.directory_eq_ok at_home, names, names_mem, rfl⟩
  · rw [outcome] at grows
    rw [write_of_not_made outcome] at changed ⊢
    exact .inl (grows.resolve_left changed)

end Undivided

/-- What keeps the tables of a report apart, and inside its directory. -/
structure HaveOwnPlaces (inspection : Inspection) (directory : List Char) : Prop where
  distinct : ((tables inspection directory).map Prod.fst).Nodup
  /-- A table summarizes the repository or is the table of a series. -/
  either : ∀ table ∈ tables inspection directory,
    (∃ name ∈ summaryNames, table.1 = join directory name) ∨
      ∃ series ∈ inspection.filesHistory.series, table.1 = seriesPath directory series.stem
  summary : ∀ name ∈ summaryNames,
    IsPlainName name ∧ IsBelow directory [name] (join directory name)
  files : IsPlainName filesName ∧ IsBelow directory [filesName] (filesDirectory directory)
  single : ∀ series ∈ inspection.filesHistory.series, IsPlainName (seriesName series.stem) ∧
    IsBelow (filesDirectory directory) [seriesName series.stem] (seriesPath directory series.stem)
  /-- No two tables are put at one place, in whatever file tree. -/
  apart : ∀ tree working,
    HaveDistinctPlaces tree working ((tables inspection directory).map Prod.fst)
  /-- Writing the report changes a place only by making a directory where nothing stood or by
  writing a table below the directory of the report. -/
  inside : ∀ files working location,
    (write files working directory inspection).files.item? location ≠ files.item? location →
      (files.item? location = none ∧
          (write files working directory inspection).files.item? location = some .directory) ∨
        ∃ home,
          (write files working directory inspection).files.directory working directory = .ok home ∧
            ∃ names ∈ tableNames inspection, location = home ++ names

/-- Whatever the files of a repository are called, the tables of its report stand apart, inside the
directory of the report. -/
theorem tables_have_own_places {repository : Repository} {analyzer : Analyzer ε} {path : String}
    {localZone : Calendar.Zone} {settings : Settings}
    (inspected : repository.inspect analyzer path localZone settings = .ok inspection)
    (directory : List Char) : HaveOwnPlaces inspection directory := by
  obtain ⟨distinct, whole⟩ := stems_of_inspect inspected
  exact {
    distinct := (nodup_components_tables whole distinct directory).of_map components
    either := fun _ mem => path_of_mem_tables mem
    summary := fun name mem =>
      have plain := isPlainName_summaryNames name mem
      ⟨plain, isBelow_join directory plain⟩
    files := ⟨isPlainName_filesName, isBelow_join directory isPlainName_filesName⟩
    single := fun series mem =>
      have plain := isPlainName_seriesName (whole _ (List.mem_map_of_mem mem))
      ⟨plain, isBelow_join (filesDirectory directory) plain⟩
    apart := haveDistinctPlaces_tables whole distinct directory
    inside := item?_write whole }

/-- A repository whose files are named with dots, commas, quotes and line ends. -/
def dottedRepository : Repository where
  commits := [⟨0, [], some [(".py".toList, plainFile "x = 1\n"),
    ("..py".toList, plainFile "x = 1\n"), ("...py".toList, plainFile "x = 1\n"),
    ("a.b.py".toList, plainFile "x = 1\n"), ("a,\"\n.py".toList, plainFile "x = 1\n")]⟩]
  head := some 0

theorem dotted_tables_have_own_places :
    ∃ inspection,
      dottedRepository.inspect pythonAnalyzer "dotted" (.fixed 0) ⟨true, 0, true⟩ = .ok inspection ∧
        inspection.filesHistory.stems = [".py", ".", "..", "a.b", "a,\"\n"] ∧
        HaveOwnPlaces inspection "out".toList := by
  have success : ((dottedRepository.inspect pythonAnalyzer "dotted" (.fixed 0)
      ⟨true, 0, true⟩).toOption.map fun inspection => inspection.filesHistory.stems) =
        some [".py", ".", "..", "a.b", "a,\"\n"] := by decide +kernel
  cases inspected : dottedRepository.inspect pythonAnalyzer "dotted" (.fixed 0) ⟨true, 0, true⟩ with
  | error failure => simp [inspected, Except.toOption] at success
  | ok inspection =>
      have stems : inspection.filesHistory.stems = [".py", ".", "..", "a.b", "a,\"\n"] := by
        simpa [inspected, Except.toOption] using success
      exact ⟨inspection, rfl, stems, tables_have_own_places inspected "out".toList⟩

end CodeGauge.Report
