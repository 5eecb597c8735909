import CodeGauge.Decimal.Numeral

/-!
# JSON values and their texts

A value keeps its numbers as they are written and its members in the order in which they stand.
Inside quotes only the quote, the backslash and the control characters are escaped.  A style says
what white space stands before the elements of a list and after the colon of a member.
-/

namespace CodeGauge

open Decimal

namespace Json

def hexDigit (n : Nat) : Char := (Nat.toDigits 16 n).headD '0'

def hexValue? (c : Char) : Option Nat :=
  if c.isDigit then some (c.toNat - '0'.toNat)
  else if 'a' ≤ c ∧ c ≤ 'f' then some (c.toNat - 'a'.toNat + 10)
  else if 'A' ≤ c ∧ c ≤ 'F' then some (c.toNat - 'A'.toNat + 10)
  else none

/-- A character as it stands between quotes. -/
def escape (c : Char) : List Char :=
  if c = '"' then ['\\', '"']
  else if c = '\\' then ['\\', '\\']
  else if c = '\x08' then ['\\', 'b']
  else if c = '\x0c' then ['\\', 'f']
  else if c = '\n' then ['\\', 'n']
  else if c = '\r' then ['\\', 'r']
  else if c = '\t' then ['\\', 't']
  else if c.toNat < 0x20 then
    ['\\', 'u', '0', '0', hexDigit (c.toNat / 16), hexDigit (c.toNat % 16)]
  else [c]

def quote (text : List Char) : List Char := '"' :: text.flatMap escape ++ ['"']

/-- A part of a quoted text: a character, or one sixteen-bit unit of it. -/
inductive Piece where
  | character (c : Char)
  | unit (n : Nat)
  deriving Repr, DecidableEq

/-- The character that a letter after a backslash names. -/
def namedEscape? (letter : Char) : Option Char :=
  if letter = '"' ∨ letter = '\\' ∨ letter = '/' then some letter
  else if letter = 'b' then some '\x08'
  else if letter = 'f' then some '\x0c'
  else if letter = 'n' then some '\n'
  else if letter = 'r' then some '\r'
  else if letter = 't' then some '\t'
  else none

def unit? (first second third fourth : Char) : Option Nat := do
  let first ← hexValue? first
  let second ← hexValue? second
  let third ← hexValue? third
  let fourth ← hexValue? fourth
  return ((first * 16 + second) * 16 + third) * 16 + fourth

def consPiece (piece : Option Piece) (rest : Option (List Piece × List Char)) :
    Option (List Piece × List Char) :=
  match piece, rest with
  | some piece, some (pieces, rest) => some (piece :: pieces, rest)
  | _, _ => none

def readPieces : List Char → Option (List Piece × List Char)
  | [] => none
  | '"' :: rest => some ([], rest)
  | '\\' :: 'u' :: first :: second :: third :: fourth :: rest =>
    consPiece ((unit? first second third fourth).map .unit) (readPieces rest)
  | '\\' :: letter :: rest => consPiece ((namedEscape? letter).map .character) (readPieces rest)
  | c :: rest =>
    consPiece (if c = '\\' ∨ c.toNat < 0x20 then none else some (.character c)) (readPieces rest)

/-- Whether a unit is the first half of a pair. -/
def isHighUnit (n : Nat) : Bool := 0xD800 ≤ n && n < 0xDC00

def isLowUnit (n : Nat) : Bool := 0xDC00 ≤ n && n < 0xE000

/-- The characters of some pieces, unless half of a pair stands alone. -/
def joinPieces : List Piece → Option (List Char)
  | [] => some []
  | .character c :: rest => (joinPieces rest).map (c :: ·)
  | .unit high :: .unit low :: rest =>
    if isHighUnit high then
      if isLowUnit low then
        (joinPieces rest).map (Char.ofNat (0x10000 + (high - 0xD800) * 0x400 + (low - 0xDC00)) :: ·)
      else none
    else if isLowUnit high then none
    else (joinPieces (.unit low :: rest)).map (Char.ofNat high :: ·)
  | .unit n :: rest =>
    if isHighUnit n || isLowUnit n then none else (joinPieces rest).map (Char.ofNat n :: ·)

/-- The text up to the closing quote, and what follows the quote. -/
def unquote (text : List Char) : Option (List Char × List Char) :=
  match readPieces text with
  | some (pieces, rest) => (joinPieces pieces).map fun characters => (characters, rest)
  | none => none

end Json

/-- A JSON value. -/
inductive Json where
  | null
  | bool (value : Bool)
  | number (numeral : Numeral)
  | string (value : String)
  | array (elements : List Json)
  | object (members : List (String × Json))
  deriving Repr

namespace Json

def ofNat (n : Nat) : Json := .number (.ofNat n)

/-- A double as a value: the shortest numeral that reads back, and null for what is no number. -/
def ofFloat (x : Float) : Json :=
  match Double.ofFloat x with
  | .finite value => .number value.numeral
  | _ => .null

def member? (value : Json) (name : String) : Option Json :=
  match value with
  | .object members => members.lookup name
  | _ => none

/-- The first member of a given name, unless it is absent or null. -/
def given? (value : Json) (name : String) : Option Json :=
  match value.member? name with
  | some .null => none
  | found => found

def toText? : Json → Option String
  | .string value => some value
  | _ => none

def toBool? : Json → Option Bool
  | .bool value => some value
  | _ => none

/-- The whole number of a value that is one, written without point and power of ten. -/
def toInt? : Json → Option Int
  | .number numeral => numeral.toInt?
  | _ => none

def toNat? (value : Json) : Option Nat :=
  value.toInt?.bind fun n => if 0 ≤ n then some n.toNat else none

def toList? : Json → Option (List Json)
  | .array elements => some elements
  | _ => none

/-- Where white space is written. -/
structure Style where
  gap : Nat → List Char
  afterColon : List Char

def Style.compact : Style where
  gap _ := []
  afterColon := []

/-- Every element on a line of its own, indented by two spaces for each level. -/
def Style.indented : Style where
  gap depth := '\n' :: List.replicate (2 * depth) ' '
  afterColon := [' ']

def nameWith (style : Style) (name : String) : List Char :=
  quote name.toList ++ ':' :: style.afterColon

mutual

/-- The text of a value that stands at a given depth. -/
def renderAt (style : Style) (depth : Nat) : Json → List Char
  | .null => ['n', 'u', 'l', 'l']
  | .bool true => ['t', 'r', 'u', 'e']
  | .bool false => ['f', 'a', 'l', 's', 'e']
  | .number numeral => numeral.render true
  | .string value => quote value.toList
  | .array [] => ['[', ']']
  | .array (first :: others) =>
    '[' :: style.gap (depth + 1) ++ renderAt style (depth + 1) first ++
      renderElements style depth others
  | .object [] => ['{', '}']
  | .object ((name, value) :: others) =>
    '{' :: style.gap (depth + 1) ++ nameWith style name ++ renderAt style (depth + 1) value ++
      renderMembers style depth others

/-- The elements after the first one of a list at a given depth, with its closing bracket. -/
def renderElements (style : Style) (depth : Nat) : List Json → List Char
  | [] => style.gap depth ++ [']']
  | element :: others =>
    ',' :: style.gap (depth + 1) ++ renderAt style (depth + 1) element ++
      renderElements style depth others

def renderMembers (style : Style) (depth : Nat) : List (String × Json) → List Char
  | [] => style.gap depth ++ ['}']
  | (name, value) :: others =>
    ',' :: style.gap (depth + 1) ++ nameWith style name ++ renderAt style (depth + 1) value ++
      renderMembers style depth others

end

def render (style : Style) (value : Json) : String := String.ofList (renderAt style 0 value)

end Json

end CodeGauge
