import CodeGauge.Json.Value
import CodeGauge.Path
import CodeGauge.Repository.Basic

/-!
# Snapshots of repositories

A snapshot describes a repository as a JSON object.  Its commits list their files by whole paths;
the tree of a commit is built from them, with the entries of a directory in the order of their
names, where the name of a directory counts as if it ended in a slash.
-/

namespace CodeGauge

namespace Entries

def replace (name : List Char) (entry : Entry) : Entries → Entries
  | [] => []
  | (other, old) :: others =>
    if other = name then (name, entry) :: others else (other, old) :: replace name entry others

/-- Puts an entry at a path of names below a directory, making the directories on the way. -/
def place (entry : Entry) : (names : List (List Char)) → Entries → Entries
  | [], entries => entries
  | [name], entries => entries ++ [(name, entry)]
  | name :: next :: names, entries =>
    match entries.lookup name with
    | some (.directory below) =>
      replace name (.directory (place entry (next :: names) below)) entries
    | _ => entries ++ [(name, .directory (place entry (next :: names) []))]

/-- The name by which an entry is put in order. -/
def orderKey (entry : List Char × Entry) : List Char :=
  match entry.2 with
  | .directory _ => entry.1 ++ ['/']
  | .missingDirectory => entry.1 ++ ['/']
  | _ => entry.1

/-- Puts an entry before the first one with a greater key. -/
def insertOrdered (entry : List Char × Entry) : Entries → Entries
  | [] => [entry]
  | first :: others =>
    if orderKey entry ≤ orderKey first then entry :: first :: others
    else first :: insertOrdered entry others

mutual

def orderedEntry : Entry → Entry
  | .directory entries => .directory (ordered entries)
  | entry => entry

def ordered : List (List Char × Entry) → Entries
  | [] => []
  | (name, entry) :: others => insertOrdered (name, orderedEntry entry) (ordered others)

end

end Entries

namespace Snapshot

open Json

def bytesOfHex? : List Char → Option (List UInt8)
  | [] => some []
  | [_] => none
  | high :: low :: rest => do
    let high ← hexValue? high
    let low ← hexValue? low
    let others ← bytesOfHex? rest
    return UInt8.ofNat (16 * high + low) :: others

/-- The bytes of a file: those of its text, or those that it gives in hexadecimal digits. -/
def content? (value : Json) : Option (List UInt8) :=
  match value.given? "hex" with
  | some hex => hex.toText?.bind fun digits => bytesOfHex? digits.toList
  | none =>
    match value.given? "text" with
    | some text => text.toText?.map fun text => text.toUTF8.toList
    | none => some []

def entry? (value : Json) : Option Entry := do
  let mode := ((value.given? "mode").bind toText?).getD "file"
  let content ← content? value
  match mode with
  | "file" => some (.file .regular (some content))
  | "exec" => some (.file .executable (some content))
  | "link" => some (.file .link (some content))
  | "missing" => some (.file .regular none)
  | "submodule" => some .submodule
  | _ => none

def addFile? (entries : Entries) (value : Json) : Option Entries := do
  let path ← (value.member? "path").bind toText?
  let entry ← entry? value
  return Entries.place entry (Path.components path.toList) entries

/-- The parents of a described commit: those that it lists, a negative place naming a missing
commit, or else the commit before it. -/
def parents? (count place : Nat) (value : Json) : Option (List Nat) :=
  match value.given? "parents" with
  | none => some (if place = 0 then [] else [place - 1])
  | some parents => do
    let places ← (← parents.toList?).mapM toInt?
    return places.map fun parent => if parent < 0 then count else parent.toNat

def commit? (count place : Nat) (value : Json) : Option Commit := do
  let time ← (value.member? "time").bind toInt?
  let parents ← parents? count place value
  let missing := ((value.given? "missing_tree").bind toBool?).getD false
  let files := ((value.given? "files").bind toList?).getD []
  let entries ← files.foldlM addFile? []
  return ⟨time, parents, if missing then none else some (Entries.ordered entries)⟩

def commits? (count : Nat) : (place : Nat) → List Json → Option (List Commit)
  | _, [] => some []
  | place, value :: others => do
    let commit ← commit? count place value
    let others ← commits? count (place + 1) others
    return commit :: others

end Snapshot

/-- A repository as a snapshot describes it. -/
structure Snapshot where
  repository : Option Repository
  bare : Bool
  /-- The directory in the work tree from which work starts, as a path from its root. -/
  start : List Char

def Snapshot.ofJson? (value : Json) : Option Snapshot := do
  let kind := ((value.given? "kind").bind Json.toText?).getD "attached"
  let described := ((value.given? "commits").bind Json.toList?).getD []
  let commits ← Snapshot.commits? described.length 0 described
  let head :=
    match (value.given? "head").bind Json.toNat? with
    | some place => some place
    | none => if commits.isEmpty then none else some (commits.length - 1)
  let start := ((value.given? "subdir").bind Json.toText?).getD ""
  let repository : Repository := ⟨commits, if kind == "unborn" then none else head⟩
  return ⟨if kind == "none" then none else some repository, kind == "bare", start.toList⟩

end CodeGauge
