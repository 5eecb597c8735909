/-!
# Repositories

A repository is a set of commits with a head.  A commit has a time, parents and a tree; any object
may be missing, and a place beyond the list of commits names a commit that is missing.  The files of
a tree are listed breadth first, and the log takes the newest waiting commit before its parents.
-/

namespace CodeGauge

/-- How a file is kept. -/
inductive FileMode where
  | regular
  | executable
  /-- A link, whose content is the path to which it points. -/
  | link
  deriving Repr, DecidableEq

/-- What stands under a name in a directory. -/
inductive Entry where
  | file (mode : FileMode) (content : Option (List UInt8))
  | submodule
  | directory (entries : List (List Char × Entry))
  | missingDirectory

abbrev Entries := List (List Char × Entry)

/-- A commit. -/
structure Commit where
  /-- When it was committed, in seconds since the beginning of 1970. -/
  time : Int
  parents : List Nat
  root : Option Entries

/-- A repository. -/
structure Repository where
  commits : List Commit
  head : Option Nat

/-- A commit by its place, unless it is missing. -/
def Repository.commit? (repository : Repository) (place : Nat) : Option Commit :=
  repository.commits[place]?

/-- Why a repository cannot be measured. -/
inductive Failure where
  | noRepository
  | noHead
  | missingCommit
  | timeOutOfRange (seconds : Int)
  | missingRoot
  | missingDirectory
  | missingContent
  deriving Repr, DecidableEq

def timeOutOfRangeMessage (seconds : Int) : String :=
  "Invalid date: Invalid timestamp: " ++ toString seconds

/-- A file of a tree. -/
structure TreeFile where
  path : List Char
  content : Option (List UInt8)

namespace Entries

/-- The path of a name in a directory; the path of the root is empty. -/
def pathIn (base name : List Char) : List Char :=
  if base.isEmpty then name else base ++ '/' :: name

def filesIn (base : List Char) (entries : Entries) : List TreeFile :=
  entries.filterMap fun (name, entry) =>
    match entry with
    | .file _ content => some ⟨pathIn base name, content⟩
    | _ => none

/-- The subdirectories of a directory with a given path; a missing one has no entries. -/
def directoriesIn (base : List Char) (entries : Entries) : List (List Char × Option Entries) :=
  entries.filterMap fun (name, entry) =>
    match entry with
    | .directory below => some (pathIn base name, some below)
    | .missingDirectory => some (pathIn base name, none)
    | _ => none

mutual

def countAt : Entry → Nat
  | .directory entries => 1 + countBelow entries
  | .missingDirectory => 1
  | .file _ _ => 0
  | .submodule => 0

def countBelow : List (List Char × Entry) → Nat
  | [] => 0
  | (_, entry) :: others => countAt entry + countBelow others

end

/-- The files of the directories in a queue and of all directories below them, within an allowance
of directories. -/
def listQueue : (allowance : Nat) → List (List Char × Option Entries) →
    Except Failure (List TreeFile)
  | _, [] => .ok []
  | 0, _ :: _ => .ok []
  | _ + 1, (_, none) :: _ => .error .missingDirectory
  | allowance + 1, (base, some entries) :: queue =>
    match listQueue allowance (queue ++ directoriesIn base entries) with
    | .error failure => .error failure
    | .ok others => .ok (filesIn base entries ++ others)

def files (entries : Entries) : Except Failure (List TreeFile) :=
  listQueue (1 + countBelow entries) [([], some entries)]

end Entries

def Commit.files (commit : Commit) : Except Failure (List TreeFile) :=
  match commit.root with
  | none => .error .missingRoot
  | some entries => entries.files

namespace Repository

/-- Where the log stands. -/
structure Frontier where
  waiting : List Nat
  met : List Nat

/-- The time by which a commit waits. -/
def waitingTime (repository : Repository) (place : Nat) : Int :=
  ((repository.commit? place).map Commit.time).getD 0

/-- The newest of some commits, and the one that stands first among equally new ones. -/
def newest? (repository : Repository) : List Nat → Option Nat
  | [] => none
  | place :: others =>
    match repository.newest? others with
    | none => some place
    | some other =>
      if repository.waitingTime place < repository.waitingTime other then some other
      else some place

/-- Lets a commit wait unless it was met before. -/
def Frontier.meet (frontier : Frontier) (place : Nat) : Frontier :=
  if frontier.met.contains place then frontier
  else ⟨frontier.waiting ++ [place], place :: frontier.met⟩

def Frontier.advance (frontier : Frontier) (place : Nat) (parents : List Nat) : Frontier :=
  parents.foldl meet ⟨frontier.waiting.erase place, frontier.met⟩

def logFrom (repository : Repository) :
    (limit : Nat) → Frontier → Except Failure (List (Nat × Commit))
  | 0, _ => .ok []
  | limit + 1, frontier =>
    match repository.newest? frontier.waiting with
    | none => .ok []
    | some place =>
      match repository.commit? place with
      | none => .error .missingCommit
      | some commit =>
        match repository.logFrom limit (frontier.advance place commit.parents) with
        | .error failure => .error failure
        | .ok others => .ok ((place, commit) :: others)

/-- The log, newest first, cut off after a number of commits if there is a limit.  Without a limit
one more step is allowed than there are commits, which is enough for all of them. -/
def log (repository : Repository) (limit : Option Nat) : Except Failure (List (Nat × Commit)) :=
  match repository.head with
  | none => .error .noHead
  | some head =>
    match repository.commit? head with
    | none => .error .noHead
    | some _ =>
      repository.logFrom (limit.getD (repository.commits.length + 1)) ⟨[head], [head]⟩

end Repository

end CodeGauge
