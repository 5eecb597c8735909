/-!
# Paths

A path is a text whose components are divided by slashes.  Empty components and single dots name
nothing.  The stem of a path is its last name without the last extension.
-/

namespace CodeGauge.Path

/-- The parts between the slashes of a path, empty ones included; there is always one. -/
def parts : List Char → List (List Char)
  | [] => [[]]
  | c :: rest =>
    if c = '/' then [] :: parts rest
    else
      match parts rest with
      | [] => [[c]]
      | first :: others => (c :: first) :: others

/-- The component that stands for the directory above. -/
def above : List Char := ['.', '.']

def isNaming (part : List Char) : Bool := !part.isEmpty && part != ['.']

def components (path : List Char) : List (List Char) := (parts path).filter isNaming

def isAbsolute (path : List Char) : Bool := path.head? == some '/'

def name (path : List Char) : List Char := (path.reverse.takeWhile (· != '/')).reverse

/-- A name up to its last dot; a name without a dot, or with none but its first character, stays
whole. -/
def withoutExtension (name : List Char) : List Char :=
  match name.reverse.dropWhile (· != '.') with
  | [] => name
  | _ :: before => if before.isEmpty then name else before.reverse

/-- The last component of a path without its extension, and nothing for a path that ends in no
name. -/
def stem (path : List Char) : List Char :=
  match (components path).getLast? with
  | none => []
  | some last => if last = above then [] else withoutExtension last

def sourceSuffix : List Char := ".py".toList

def isSource (path : List Char) : Bool := sourceSuffix.isSuffixOf path

/-- A path continued by another one, which replaces it when it begins at the root. -/
def join (base path : List Char) : List Char :=
  if isAbsolute path || base.isEmpty then path
  else if base.getLast? = some '/' then base ++ path
  else base ++ '/' :: path

end CodeGauge.Path
