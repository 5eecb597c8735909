import CodeGauge.Command.Run
import CodeGauge.Proofs.Command.Options
import CodeGauge.Proofs.Inspection.Walk

/-!
# What commands leave

Only an inspecting command that finds its repository writes files, and it prints only once they are
written: the report whose tables it left, as the printing command with the same options shows it in
the same state (`run_leaves_what_it_prints`).
-/

namespace CodeGauge.Command

open Measurement

variable {surroundings : Surroundings} {arguments : List String}
  {found inspecting showing : Matches} {inspection : Inspection}

def readArguments (arguments : List String) : Except Refusal Matches :=
  readCommand .start (arguments.map String.toList)

/-- What a command finds in its surroundings. -/
def Matches.inspect (found : Matches) (surroundings : Surroundings) : Except Failure Inspection :=
  inspectAt surroundings pythonAnalyzer
    (found.invocation.repository.getD surroundings.working.path) found.invocation.settings

def Matches.directory (found : Matches) : List Char := (pathOf found.own .output).getD defaultOutput

/-- A printing command is asked for the same repository, zone and history as an inspecting one, and
for the same kind of text. -/
structure SameOptions (inspecting showing : Matches) : Prop where
  common : ∀ topic ∈ [Topic.repository, .universalTime],
    showing.common.lookup topic = inspecting.common.lookup topic
  own : ∀ topic ∈ [Topic.history, .mostCommits, .json],
    showing.own.lookup topic = inspecting.own.lookup topic
  whole : showing.own.lookup .jsonLines = none

theorem lookup_eq_none_of_offers {switches : List Switch} {settled : List (Topic × Value)}
    {topic : Topic} (offered : ∀ option ∈ settled, Offers switches option)
    (unknown : topic ∉ switches.map Switch.topic) : settled.lookup topic = none := by
  refine List.lookup_eq_none_iff.mpr fun option mem => ?_
  obtain ⟨switch, switch_mem, same, -⟩ := offered option mem
  refine bne_iff_ne.mpr fun eq => unknown ?_
  rw [eq, ← same]
  exact List.mem_map_of_mem switch_mem

theorem lookup_jsonLines (read : readArguments arguments = .ok found)
    (inspects : found.command = .inspect) : found.own.lookup .jsonLines = none := by
  have offered := (offers_of_readCommand (Reading.isOffered_start _) read).2
  rw [inspects] at offered
  exact lookup_eq_none_of_offers offered (by decide)

theorem SameOptions.repository_eq (same : SameOptions inspecting showing) :
    showing.invocation.repository = inspecting.invocation.repository := by
  simp only [Matches.invocation, pathOf, same.common .repository (by decide)]

theorem SameOptions.settings_eq (same : SameOptions inspecting showing) :
    showing.invocation.settings = inspecting.invocation.settings := by
  simp only [Matches.invocation, isGiven, integerOf, same.common .universalTime (by decide),
    same.own .history (by decide), same.own .mostCommits (by decide)]

theorem SameOptions.inspect_eq (same : SameOptions inspecting showing) (surroundings : Surroundings)
    (time : String) :
    showing.inspect { surroundings with writtenAt := time } = inspecting.inspect surroundings := by
  rw [Matches.inspect, same.repository_eq, same.settings_eq]
  rfl

/-- For each inspecting command there is a printing one with the same options. -/
theorem exists_sameOptions (read : readArguments arguments = .ok found)
    (inspects : found.command = .inspect) :
    ∃ shown showing, readArguments shown = .ok showing ∧ showing.command = .print ∧
      SameOptions found showing := by
  obtain ⟨common_offered, own_offered⟩ := offers_of_readCommand (Reading.isOffered_start _) read
  rw [inspects] at own_offered
  let commonShared := commonSwitches.filter fun switch =>
    switch.topic ∈ [.repository, .universalTime]
  let ownShared := CommandName.print.switches.filter fun switch =>
    switch.topic ∈ [.history, .mostCommits, .json]
  obtain ⟨first, common_reads⟩ : ∃ arguments, Reads commonSwitches .start arguments
      ⟨settledOf commonShared found.common, none⟩ :=
    exists_reads commonSwitches commonShared common_offered (by decide) (by decide) (by decide) []
      (by decide)
  obtain ⟨last, own_reads⟩ : ∃ arguments, Reads CommandName.print.switches .start arguments
      ⟨settledOf ownShared found.own, none⟩ :=
    exists_reads CommandName.print.switches ownShared own_offered (by decide) (by decide)
      (by decide) [] (by decide)
  have own_read : readOptions CommandName.print.switches .start last =
      .ok (settledOf ownShared found.own) := by
    rw [← List.append_nil last, readOptions_of_reads own_reads]
    rfl
  let showing : Matches :=
    ⟨settledOf commonShared found.common, .print, settledOf ownShared found.own⟩
  refine ⟨(first ++ "show".toList :: last).map String.ofList, showing, ?_, rfl, ?_, ?_, ?_⟩
  · have characters : ((first ++ "show".toList :: last).map String.ofList).map String.toList =
        first ++ "show".toList :: last := by
      simp only [List.map_map, Function.comp_def, String.toList_ofList, List.map_id']
    rw [readArguments, characters, readCommand_of_reads common_reads]
    exact bind_eq_ok_iff.mpr ⟨_, own_read, rfl⟩
  · intro topic mem
    rw [lookup_settledOf, if_pos]
    revert topic
    decide
  · intro topic mem
    rw [lookup_settledOf, if_pos]
    revert topic
    decide
  · rw [lookup_settledOf, if_neg (by decide)]

theorem textOfLines_append (first last : List String) :
    Report.textOfLines (first ++ last) = Report.textOfLines first ++ Report.textOfLines last := by
  rw [Report.textOfLines, List.map_append, String.join_append]
  rfl

/-- A summary of a written report has only the lines on its directory besides. -/
theorem summaryText_some (styled : Bool) (inspection : Inspection) (directory : String) :
    Report.summaryText styled inspection (some directory) =
      Report.summaryText styled inspection none ++
        ("\nReports written to " ++ Report.paint styled .bold directory ++ "\n") := by
  rw [Report.summaryText, textOfLines_append, Report.summaryText, Report.closingLines,
    Report.closingLines, List.append_nil]
  have gap : "\nReports written to " = "\n" ++ "Reports written to " := by decide
  rw [gap]
  simp only [Report.textOfLines, List.map_cons, List.map_nil, String.join_cons, String.join_nil,
    String.append_empty, String.empty_append, String.append_assoc]

theorem run_of_error {refusal : Refusal} (refused : readArguments arguments = .error refusal) :
    run surroundings arguments = ⟨"", surroundings.files, some (.refused refusal)⟩ := by
  have parsed : parseArguments arguments = .error refusal := by
    rw [parseArguments, ← readArguments, refused]
    rfl
  rw [run, parsed]

theorem run_of_read (read : readArguments arguments = .ok found) :
    run surroundings arguments =
      match found.inspect surroundings with
      | .error failure => ⟨"", surroundings.files, some (.inspection failure)⟩
      | .ok inspection => deliver surroundings found.invocation inspection := by
  have parsed : parseArguments arguments = .ok found.invocation := by
    rw [parseArguments, ← readArguments, read]
    rfl
  simp only [run, parsed]
  rfl

theorem format_of_json (json : isGiven found.own .json = true) :
    found.invocation.format = .json := by
  simp only [Matches.invocation, json, if_true]

theorem format_of_not_json (summary : isGiven found.own .json = false)
    (whole : found.own.lookup .jsonLines = none) : found.invocation.format = .summary := by
  have no_lines : isGiven found.own .jsonLines = false := by rw [isGiven, whole, Option.isSome_none]
  simp only [Matches.invocation, summary, no_lines, Bool.false_eq_true, if_false]

theorem deliver_of_print (prints : found.command = .print) :
    deliver surroundings found.invocation inspection =
      ⟨printed surroundings found.invocation.format inspection none, surroundings.files, none⟩ := by
  have output : found.invocation.output = none := by simp only [Matches.invocation, prints]
  rw [deliver, output]

def Matches.written (found : Matches) (surroundings : Surroundings) (inspection : Inspection) :
    Report.Progress :=
  Report.write surroundings.files surroundings.working found.directory inspection

theorem deliver_of_inspect (inspects : found.command = .inspect) :
    deliver surroundings found.invocation inspection =
      match (found.written surroundings inspection).failure with
      | some error =>
        ⟨"", (found.written surroundings inspection).files,
          some (.writing found.directory error)⟩
      | none =>
        ⟨printed surroundings found.invocation.format inspection (some found.directory),
          (found.written surroundings inspection).files, none⟩ := by
  have output : found.invocation.output = some found.directory := by
    simp only [Matches.invocation, inspects, Matches.directory]
  simp only [deliver, output, Matches.written]
  cases Report.write surroundings.files surroundings.working found.directory inspection with
  | mk files failure => cases failure <;> rfl

/-- A printed report of an inspecting command beside that of a printing one. -/
def TextsAgree (surroundings : Surroundings) (found : Matches) (inspection : Inspection)
    (text shown time : String) : Prop :=
  if isGiven found.own .json then
    text = Report.jsonText surroundings.writtenAt inspection ∧
    shown = Report.jsonText time inspection
  else
    shown = Report.summaryText surroundings.styled inspection none ∧
    text = shown ++ ("\nReports written to " ++
      Report.paint surroundings.styled .bold (String.ofList found.directory) ++ "\n")

theorem textsAgree_printed (whole : inspecting.own.lookup .jsonLines = none)
    (same : SameOptions inspecting showing) (time : String) :
    TextsAgree surroundings inspecting inspection
      (printed surroundings inspecting.invocation.format inspection (some inspecting.directory))
      (printed { surroundings with writtenAt := time } showing.invocation.format inspection none)
      time := by
  have json_eq : isGiven showing.own .json = isGiven inspecting.own .json := by
    rw [isGiven, isGiven, same.own .json (by decide)]
  unfold TextsAgree
  cases json : isGiven inspecting.own .json with
  | true =>
      rw [format_of_json json, format_of_json (json_eq.trans json)]
      exact ⟨rfl, rfl⟩
  | false =>
      rw [format_of_not_json json whole, format_of_not_json (json_eq.trans json) same.whole]
      exact ⟨rfl, summaryText_some surroundings.styled inspection _⟩

/-- A command whose arguments are refused, or that cannot inspect its repository, leaves every file
as it was, and unless help or the version is asked for it prints nothing.  A printing command leaves
every file as it was.  An inspecting command leaves what writing the report makes; where this fails
it prints nothing and reports the failure.  Otherwise it prints the report, as the printing commands
with the same options do, of which there is one: an envelope up to the time of writing, or a summary
without the line on the directory. -/
theorem run_leaves_what_it_prints (surroundings : Surroundings) (arguments : List String) :
    (∀ refusal, readArguments arguments = .error refusal →
      (run surroundings arguments).files = surroundings.files ∧
      (run surroundings arguments).problem = some (.refused refusal) ∧
      (refusal ≠ .help → refusal ≠ .version → (run surroundings arguments).text = "")) ∧
    ∀ found, readArguments arguments = .ok found →
      (found.command = .print → (run surroundings arguments).files = surroundings.files) ∧
      (∀ failure, found.inspect surroundings = .error failure →
        run surroundings arguments = ⟨"", surroundings.files, some (.inspection failure)⟩) ∧
      (found.command = .inspect → ∀ inspection, found.inspect surroundings = .ok inspection →
        (run surroundings arguments).files = (found.written surroundings inspection).files ∧
        (∀ error, (found.written surroundings inspection).failure = some error →
          (run surroundings arguments).text = "" ∧
          (run surroundings arguments).problem = some (.writing found.directory error)) ∧
        ((found.written surroundings inspection).failure = none →
          (run surroundings arguments).problem = none ∧
          (∃ shown showing, readArguments shown = .ok showing ∧ showing.command = .print ∧
            SameOptions found showing) ∧
          ∀ shown showing time, readArguments shown = .ok showing → showing.command = .print →
            SameOptions found showing →
            ∃ text, run { surroundings with writtenAt := time } shown =
                ⟨text, surroundings.files, none⟩ ∧
              TextsAgree surroundings found inspection (run surroundings arguments).text text
                time)) := by
  refine ⟨fun refusal refused => ?_, fun found read => ⟨?_, ?_, ?_⟩⟩
  · rw [run_of_error refused]
    exact ⟨rfl, rfl, fun _ _ => rfl⟩
  · intro prints
    rw [run_of_read read]
    cases found.inspect surroundings with
    | error failure => rfl
    | ok inspection => simp only [deliver_of_print prints]
  · intro failure failed
    rw [run_of_read read, failed]
  · intro inspects inspection inspected
    have ran : run surroundings arguments =
        deliver surroundings found.invocation inspection := by
      rw [run_of_read read, inspected]
    rw [deliver_of_inspect inspects] at ran
    refine ⟨?_, ?_, ?_⟩
    · rw [ran]
      cases (found.written surroundings inspection).failure <;> rfl
    · intro error failed
      rw [ran, failed]
      exact ⟨rfl, rfl⟩
    · intro succeeded
      simp only [succeeded] at ran
      refine ⟨by rw [ran], exists_sameOptions read inspects, ?_⟩
      intro shown showing time shown_read prints same
      have shown_ran : run { surroundings with writtenAt := time } shown =
          deliver { surroundings with writtenAt := time } showing.invocation inspection := by
        rw [run_of_read shown_read, same.inspect_eq, inspected]
      rw [deliver_of_print prints] at shown_ran
      rw [shown_ran, ran]
      exact ⟨_, rfl, textsAgree_printed (lookup_jsonLines read inspects) same time⟩

/-- Surroundings in which the working directory is a small repository, with a directory at the path
of a table. -/
def smallSurroundings : Surroundings where
  files := .ofDirectories [["r".toList, "blocked".toList, "metrics.csv".toList]]
  working := ["r".toList]
  repository := some smallRepository
  home := ["r".toList]
  localZone := .fixed 0
  writtenAt := "2024-01-01T00:00:00Z"
  styled := false

def smallInspecting (directory : List Char) : Matches :=
  ⟨[], .inspect, [(.output, .path directory), (.history, .given)]⟩

def smallShowing : Matches := ⟨[], .print, [(.history, .given)]⟩

theorem exists_smallInspection :
    ∃ inspection, smallShowing.inspect smallSurroundings = .ok inspection ∧
      ((smallInspecting "out".toList).written smallSurroundings inspection).failure = none ∧
      ∃ error, ((smallInspecting "blocked".toList).written smallSurroundings inspection).failure =
        some error := by
  have success : ((smallShowing.inspect smallSurroundings).toOption.map fun inspection =>
      (((smallInspecting "out".toList).written smallSurroundings inspection).failure.isNone,
        ((smallInspecting "blocked".toList).written smallSurroundings inspection).failure.isSome)) =
        some (true, true) := by
    decide +kernel
  obtain ⟨inspection, inspected, verdicts⟩ := Option.map_eq_some_iff.mp success
  obtain ⟨written, blocked⟩ := Prod.mk.inj verdicts
  refine ⟨inspection, ?_, Option.isNone_iff_eq_none.mp written, Option.isSome_iff_exists.mp blocked⟩
  cases result : smallShowing.inspect smallSurroundings with
  | error failure =>
      rw [result] at inspected
      cases inspected
  | ok other =>
      rw [result] at inspected
      exact congrArg Except.ok (Option.some.inj inspected)

theorem small_runs_leave_what_they_print :
    (run smallSurroundings ["inspect", "--json=yes"]).text = "" ∧
    ((run smallSurroundings ["inspect", "--output=blocked", "--history"]).text = "" ∧
      ∃ error, (run smallSurroundings ["inspect", "--output=blocked", "--history"]).problem =
        some (.writing "blocked".toList error)) ∧
    ∃ inspection text,
      (run smallSurroundings ["inspect", "--output=out", "--history"]).files =
        (Report.write smallSurroundings.files smallSurroundings.working "out".toList
          inspection).files ∧
      (run smallSurroundings ["inspect", "--output=out", "--history"]).text =
        text ++ "\nReports written to out\n" ∧
      run smallSurroundings ["show", "--history"] = ⟨text, smallSurroundings.files, none⟩ := by
  have refused : readArguments ["inspect", "--json=yes"] = .error .unwantedValue := rfl
  have blocked_read : readArguments ["inspect", "--output=blocked", "--history"] =
    .ok (smallInspecting "blocked".toList) := rfl
  have read : readArguments ["inspect", "--output=out", "--history"] =
    .ok (smallInspecting "out".toList) := rfl
  have shown_read : readArguments ["show", "--history"] = .ok smallShowing := rfl
  have same : SameOptions (smallInspecting "out".toList) smallShowing :=
    ⟨by decide, by decide, rfl⟩
  obtain ⟨inspection, inspected, succeeded, error, failed⟩ := exists_smallInspection
  have runs := run_leaves_what_it_prints smallSurroundings
  obtain ⟨-, failing, -⟩ := ((runs _).2 _ blocked_read).2.2 rfl inspection inspected
  obtain ⟨files, -, printing⟩ := ((runs _).2 _ read).2.2 rfl inspection inspected
  obtain ⟨-, -, agree⟩ := printing succeeded
  obtain ⟨text, shown, -, texts⟩ := agree _ _ smallSurroundings.writtenAt shown_read rfl same
  exact ⟨((runs _).1 _ refused).2.2 (by decide) (by decide),
    ⟨(failing error failed).1, error, (failing error failed).2⟩, inspection, text, files, texts,
    shown⟩

end CodeGauge.Command
