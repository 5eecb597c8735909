import CodeGauge.Json.Value

/-!
# Reading JSON

A text is one value with white space around it.  Reading is by recursion on an allowance that the
length of the text bounds.
-/

namespace CodeGauge.Json

open Decimal

def isSpace (c : Char) : Bool := c = ' ' || c = '\n' || c = '\r' || c = '\t'

def skipSpace (text : List Char) : List Char := text.dropWhile isSpace

/-- The digits at the beginning of a text, at least one, and the rest. -/
def readDigits (text : List Char) : Option (List Char × List Char) :=
  match text.takeWhile Char.isDigit with
  | [] => none
  | digits => some (digits, text.dropWhile Char.isDigit)

/-- The power of ten at the beginning of a text, or nothing. -/
def readPower (text : List Char) : Option (Option Power × List Char) :=
  match text with
  | mark :: rest =>
    if mark = 'e' ∨ mark = 'E' then
      match rest with
      | '-' :: rest => (readDigits rest).map fun (digits, rest) => (some ⟨true, digits⟩, rest)
      | '+' :: rest => (readDigits rest).map fun (digits, rest) => (some ⟨false, digits⟩, rest)
      | rest => (readDigits rest).map fun (digits, rest) => (some ⟨false, digits⟩, rest)
    else some (none, text)
  | [] => some (none, [])

def readFraction (text : List Char) : Option (List Char × List Char) :=
  match text with
  | '.' :: rest => readDigits rest
  | _ => some ([], text)

def readSign (text : List Char) : Bool × List Char :=
  match text with
  | '-' :: rest => (true, rest)
  | _ => (false, text)

/-- The numeral at the beginning of a text; it has no zero in front of other digits. -/
def readNumeral (text : List Char) : Option (Numeral × List Char) := do
  let (negative, rest) := readSign text
  let (whole, rest) ← readDigits rest
  if whole.head? = some '0' ∧ 1 < whole.length then none
  else
    let (fraction, rest) ← readFraction rest
    let (power, rest) ← readPower rest
    return (⟨negative, whole, fraction, power⟩, rest)

def readWord (word : String) (value : Json) (text : List Char) : Option (Json × List Char) :=
  (word.toList.isPrefixOf? text).map fun rest => (value, rest)

def readName (text : List Char) : Option (String × List Char) :=
  match skipSpace text with
  | '"' :: rest =>
    match unquote rest with
    | some (name, rest) =>
      match skipSpace rest with
      | ':' :: rest => some (String.ofList name, rest)
      | _ => none
    | none => none
  | _ => none

mutual

/-- The value at the beginning of a text, and the rest. -/
def readValue : (allowance : Nat) → List Char → Option (Json × List Char)
  | 0, _ => none
  | allowance + 1, text =>
    match skipSpace text with
    | '"' :: rest => (unquote rest).map fun (value, rest) => (.string (String.ofList value), rest)
    | '[' :: rest =>
      match skipSpace rest with
      | ']' :: rest => some (.array [], rest)
      | rest => (readElements allowance rest).map fun (elements, rest) => (.array elements, rest)
    | '{' :: rest =>
      match skipSpace rest with
      | '}' :: rest => some (.object [], rest)
      | rest => (readMembers allowance rest).map fun (members, rest) => (.object members, rest)
    | 'n' :: rest => readWord "ull" .null rest
    | 't' :: rest => readWord "rue" (.bool true) rest
    | 'f' :: rest => readWord "alse" (.bool false) rest
    | rest => (readNumeral rest).map fun (numeral, rest) => (.number numeral, rest)

def readElements : (allowance : Nat) → List Char → Option (List Json × List Char)
  | 0, _ => none
  | allowance + 1, text =>
    match readValue allowance text with
    | some (element, rest) =>
      match skipSpace rest with
      | ',' :: rest =>
        (readElements allowance rest).map fun (others, rest) => (element :: others, rest)
      | ']' :: rest => some ([element], rest)
      | _ => none
    | none => none

def readMembers : (allowance : Nat) → List Char → Option (List (String × Json) × List Char)
  | 0, _ => none
  | allowance + 1, text =>
    match readName text with
    | some (name, rest) =>
      match readValue allowance rest with
      | some (value, rest) =>
        match skipSpace rest with
        | ',' :: rest =>
          (readMembers allowance rest).map fun (others, rest) => ((name, value) :: others, rest)
        | '}' :: rest => some ([(name, value)], rest)
        | _ => none
      | none => none
    | none => none

end

/-- The value of a text, if the text is one. -/
def parse? (text : String) : Option Json :=
  let characters := text.toList
  match readValue (2 * characters.length + 2) characters with
  | some (value, rest) => if (skipSpace rest).isEmpty then some value else none
  | none => none

end CodeGauge.Json
