import CodeGauge.Path
import CodeGauge.Text.Basic

/-!
# File trees

A file tree maps places to directories and files.  A path is followed from a directory, name by
name; writing puts a file at its end, unless something on the way or at the end forbids it.
-/

namespace CodeGauge

/-- A place in a file tree: the names from the root to it. -/
abbrev Location := List (List Char)

def Location.path (location : Location) : List Char :=
  if location.isEmpty then ['/'] else location.flatMap ('/' :: ·)

/-- The places on the way to a place, the place itself included, from the root on. -/
def Location.waypoints (location : Location) : List Location :=
  (List.range location.length).map fun count => location.take (count + 1)

/-- What is found at a place. -/
inductive FileItem where
  | directory
  | file (text : String)
  deriving Repr, DecidableEq

/-- Why a path cannot be followed or a file not be written. -/
inductive FileError where
  | missing
  | notDirectory
  | isDirectory
  | tooLong
  | zeroCharacter
  deriving Repr, DecidableEq

def FileError.message : FileError → String
  | missing => "No such file or directory (os error 2)"
  | notDirectory => "Not a directory (os error 20)"
  | isDirectory => "Is a directory (os error 21)"
  | tooLong => "File name too long (os error 36)"
  | zeroCharacter => "file name contained an unexpected NUL byte"

/-- A file tree: what is found at each place but the root, which is always a directory. -/
structure Filesystem where
  items : List (Location × FileItem)
  deriving Repr, DecidableEq

namespace Filesystem

def longestName : Nat := 255

/-- The least number of bytes of a path that is too long. -/
def pathBound : Nat := 4096

def item? (tree : Filesystem) (location : Location) : Option FileItem :=
  if location.isEmpty then some .directory else tree.items.lookup location

def setIn (location : Location) (item : FileItem) :
    List (Location × FileItem) → List (Location × FileItem)
  | [] => [(location, item)]
  | (place, old) :: others =>
    if place = location then (place, item) :: others
    else (place, old) :: setIn location item others

def set (tree : Filesystem) (location : Location) (item : FileItem) : Filesystem :=
  ⟨setIn location item tree.items⟩

theorem lookup_setIn (location place : Location) (item : FileItem)
    (items : List (Location × FileItem)) :
    (setIn location item items).lookup place =
      if place = location then some item else items.lookup place := by
  have differ : ∀ {first second : Location}, first ≠ second → (first == second) = false :=
    fun unequal => by simpa using unequal
  induction items with
  | nil =>
    by_cases same : place = location
    · simp [setIn, same]
    · simp [setIn, same, differ same, List.lookup_cons]
  | cons first others ih =>
    obtain ⟨other, old⟩ := first
    by_cases isFirst : other = location
    · subst isFirst
      by_cases same : place = other
      · simp [setIn, same]
      · simp [setIn, same, differ same, List.lookup_cons]
    · by_cases same : place = other
      · subst same
        simp [setIn, isFirst]
      · simp [setIn, isFirst, differ same, ih, List.lookup_cons]

/-- A written item is found at its place, and everything else stays. -/
theorem item?_set (tree : Filesystem) (location place : Location) (item : FileItem)
    (named : location ≠ []) :
    (tree.set location item).item? place =
      if place = location then some item else tree.item? place := by
  unfold item? set
  by_cases root : place = []
  · subst root
    have differ : ([] : Location) ≠ location := fun same => named same.symm
    simp [differ]
  · simp [root, lookup_setIn]

/-- The tree with nothing but the directories at and above some places. -/
def ofDirectories (locations : List Location) : Filesystem :=
  (locations.flatMap Location.waypoints).foldl (fun tree place => tree.set place .directory) ⟨[]⟩

/-- The place to which the names of a path lead from a directory.  Two dots lead to the directory
above, and the root is above itself. -/
def follow (tree : Filesystem) : (here : Location) → (names : List (List Char)) →
    Except FileError Location
  | here, [] => .ok here
  | here, name :: names =>
    if name = Path.above then tree.follow here.dropLast names
    else if longestName < Text.byteLength name then .error .tooLong
    else
      match tree.item? (here ++ [name]) with
      | none => .error .missing
      | some (.file _) => .error .notDirectory
      | some .directory => tree.follow (here ++ [name]) names

def origin (directory : Location) (path : List Char) : Location :=
  if Path.isAbsolute path then [] else directory

/-- What forbids a path whatever the tree holds. -/
def pathError? (path : List Char) : Option FileError :=
  if path.contains '\x00' then some .zeroCharacter
  else if pathBound ≤ Text.byteLength path then some .tooLong
  else none

def directory (tree : Filesystem) (working : Location) (path : List Char) :
    Except FileError Location :=
  match pathError? path with
  | some error => .error error
  | none => tree.follow (origin working path) (Path.components path)

/-- The place at which a file of a given path can be written. -/
def target (tree : Filesystem) (working : Location) (path : List Char) :
    Except FileError Location :=
  match pathError? path with
  | some error => .error error
  | none =>
    let names := Path.components path
    match tree.follow (origin working path) names.dropLast with
    | .error error => .error error
    | .ok here =>
      match names.getLast? with
      | none => .error .isDirectory
      | some last =>
        if last = Path.above then .error .isDirectory
        else if longestName < Text.byteLength last then .error .tooLong
        else
          match tree.item? (here ++ [last]) with
          | some .directory => .error .isDirectory
          | _ => .ok (here ++ [last])

/-- Writes a file, replacing the one that stands there. -/
def write (tree : Filesystem) (working : Location) (path : List Char) (text : String) :
    Except FileError Filesystem :=
  match tree.target working path with
  | .error error => .error error
  | .ok location => .ok (tree.set location (.file text))

/-- Follows names from a directory and makes the directories that are missing, up to the first
error. -/
def makeNames (tree : Filesystem) : (here : Location) → (names : List (List Char)) →
    Filesystem × Option FileError
  | _, [] => (tree, none)
  | here, name :: names =>
    if name = Path.above then tree.makeNames here.dropLast names
    else if longestName < Text.byteLength name then (tree, some .tooLong)
    else
      match tree.item? (here ++ [name]) with
      | some (.file _) => (tree, some .notDirectory)
      | some .directory => tree.makeNames (here ++ [name]) names
      | none => (tree.set (here ++ [name]) .directory).makeNames (here ++ [name]) names

/-- Makes the directory of a path and those above it; directories made before an error stay. -/
def makeDirectories (tree : Filesystem) (working : Location) (path : List Char) :
    Filesystem × Option FileError :=
  match pathError? path with
  | some error => (tree, some error)
  | none => tree.makeNames (origin working path) (Path.components path)

end Filesystem

end CodeGauge
