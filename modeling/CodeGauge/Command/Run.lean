import CodeGauge.Command.Arguments
import CodeGauge.Report.Printing
import CodeGauge.Report.Tables
import CodeGauge.Repository.Snapshot

/-!
# Running commands

A command runs in surroundings: a file tree with a working directory, a repository at some place in
it, a zone and a time.  Its outcome is the printed text, the file tree afterwards, and what went
wrong.  A session describes surroundings as a JSON object.
-/

namespace CodeGauge.Command

open Measurement

/-- What a command runs in. -/
structure Surroundings where
  files : Filesystem
  working : Location
  repository : Option Repository
  home : Location
  localZone : Calendar.Zone
  writtenAt : String
  styled : Bool

/-- Why a command fails. -/
inductive Problem where
  | refused (refusal : Refusal)
  | inspection (failure : Failure)
  | writing (directory : List Char) (error : Report.WriteError)
  deriving Repr, DecidableEq

def Problem.message : Problem → String
  | refused refusal => refusal.message
  | inspection _ => "Failed to inspect repository"
  | writing directory _ => "Failed to write reports to " ++ String.ofList directory

/-- What a command leaves. -/
structure Outcome where
  text : String
  files : Filesystem
  problem : Option Problem

/-- A reversed path without slashes and dots at its beginning that name nothing. -/
def trimReversed : List Char → List Char
  | ['/'] => ['/']
  | '/' :: rest => trimReversed rest
  | '.' :: '/' :: rest => trimReversed ('/' :: rest)
  | rest => rest

/-- A path without slashes and dots at its end that name nothing. -/
def trimPath (path : List Char) : List Char := (trimReversed path.reverse).reverse

def parentPath (path : List Char) : List Char :=
  trimPath ((trimPath path).reverse.dropWhile (· != '/')).reverse

def ancestorPath : (levels : Nat) → List Char → List Char
  | 0, path => trimPath path
  | levels + 1, path => ancestorPath levels (parentPath path)

/-- The path by which a repository is known that lies at a place and is found from a path.  A
relative path to the working directory is a dot; other relative paths and paths with steps upwards
become absolute; an absolute path is shortened to the repository. -/
def repositoryPath (working home : Location) (path : List Char) (found : Location) : List Char :=
  if !Path.isAbsolute path then if home = working then ['.'] else home.path
  else if (Path.components path).contains Path.above then home.path
  else ancestorPath (found.length - home.length) path

/-- The repository that is found from a path, at or above the directory that the path names, and the
path by which it is known. -/
def discover (surroundings : Surroundings) (path : List Char) :
    Except Failure (Repository × String) :=
  match surroundings.repository, surroundings.files.directory surroundings.working path with
  | some repository, .ok found =>
    if surroundings.home.isPrefixOf found then
      .ok (repository,
        String.ofList (repositoryPath surroundings.working surroundings.home path found))
    else .error .noRepository
  | _, _ => .error .noRepository

def inspectAt {ε : Type} (surroundings : Surroundings) (analyzer : Analyzer ε) (path : List Char)
    (settings : Settings) : Except Failure Inspection :=
  match discover surroundings path with
  | .error failure => .error failure
  | .ok (repository, known) =>
    repository.inspect analyzer known surroundings.localZone settings

def printed (surroundings : Surroundings) (format : Format) (inspection : Inspection)
    (writtenTo : Option (List Char)) : String :=
  match format with
  | .json => Report.jsonText surroundings.writtenAt inspection
  | .jsonLines => Report.linesText inspection
  | .summary =>
    Report.summaryText surroundings.styled inspection (writtenTo.map String.ofList)

/-- Writes and prints the report of an inspection. -/
def deliver (surroundings : Surroundings) (invocation : Invocation) (inspection : Inspection) :
    Outcome :=
  match invocation.output with
  | none =>
    ⟨printed surroundings invocation.format inspection none, surroundings.files, none⟩
  | some directory =>
    match Report.write surroundings.files surroundings.working directory inspection with
    | ⟨files, some error⟩ => ⟨"", files, some (.writing directory error)⟩
    | ⟨files, none⟩ =>
      ⟨printed surroundings invocation.format inspection (some directory), files, none⟩

def execute (surroundings : Surroundings) (invocation : Invocation) : Outcome :=
  let path := invocation.repository.getD surroundings.working.path
  match inspectAt surroundings pythonAnalyzer path invocation.settings with
  | .error failure => ⟨"", surroundings.files, some (.inspection failure)⟩
  | .ok inspection => deliver surroundings invocation inspection

def run (surroundings : Surroundings) (arguments : List String) : Outcome :=
  match parseArguments arguments with
  | .error refusal => ⟨"", surroundings.files, some (.refused refusal)⟩
  | .ok invocation => execute surroundings invocation

def dataDirectory : List Char := ".git".toList

/-- The surroundings of a snapshot whose repository stands at a place; the working directory is the
one from which the snapshot starts. -/
def Surroundings.ofSnapshot (snapshot : Snapshot) (home : Location) (localZone : Calendar.Zone)
    (writtenAt : String) (styled : Bool) : Surroundings :=
  let working := home ++ Path.components snapshot.start
  let data :=
    if snapshot.bare || snapshot.repository.isNone then [] else [home ++ [dataDirectory]]
  { files := .ofDirectories (working :: data)
    working := working
    repository := snapshot.repository
    home := home
    localZone := localZone
    writtenAt := writtenAt
    styled := styled }

def Surroundings.ofJson? (value : Json) : Option Surroundings := do
  let snapshot ← Snapshot.ofJson? (← value.member? "repository")
  let place ← (value.member? "place").bind Json.toText?
  let offset := ((value.given? "offset").bind Json.toInt?).getD 0
  let writtenAt := ((value.given? "written_at").bind Json.toText?).getD ""
  let styled := ((value.given? "styled").bind Json.toBool?).getD false
  return .ofSnapshot snapshot (Path.components place.toList) (.fixed offset) writtenAt styled

/-- An item of a file tree as a member: a file with its text, a directory with null. -/
def itemMember (path : List Char) (item : FileItem) : String × Json :=
  match item with
  | .directory => (String.ofList (path ++ ['/']), .null)
  | .file text => (String.ofList path, .string text)

def filesJson (tree : Filesystem) : Json :=
  .object (tree.items.map fun (location, item) => itemMember location.path item)

end CodeGauge.Command
