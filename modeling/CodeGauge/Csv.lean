/-!
# Comma-separated records

A record ends at a line feed and its fields are divided by commas.  A field is put in quotes where
it holds a comma, a quote or an end of line, or where it is empty and alone; a quote inside quotes
is doubled.
-/

namespace CodeGauge.Csv

abbrev Record := List (List Char)

def isSpecial (c : Char) : Bool := c = ',' || c = '"' || c = '\r' || c = '\n'

/-- A quoted field up to and with its closing quote, each quote inside doubled. -/
def encode : List Char → List Char
  | [] => ['"']
  | c :: rest => if c = '"' then '"' :: '"' :: encode rest else c :: encode rest

/-- A field, in quotes where it needs them. -/
def renderField (field : List Char) : List Char :=
  if field.any isSpecial then '"' :: encode field else field

def renderFields : Record → List Char
  | [] => []
  | [last] => renderField last
  | field :: others => renderField field ++ ',' :: renderFields others

/-- A record with its line end. -/
def renderRecord (record : Record) : List Char :=
  (if record = [[]] then ['"', '"'] else renderFields record) ++ ['\n']

def render (records : List Record) : List Char := records.flatMap renderRecord

/-- The content of a quoted field after its opening quote, and what follows the closing one. -/
def decode : List Char → Option (List Char × List Char)
  | [] => none
  | '"' :: '"' :: rest => (decode rest).map fun (field, after) => ('"' :: field, after)
  | c :: rest =>
    if c = '"' then some ([], rest) else (decode rest).map fun (field, after) => (c :: field, after)

def endsField (c : Char) : Bool := c = ',' || c = '\n'

def readField (text : List Char) : Option (List Char × List Char) :=
  match text with
  | '"' :: rest => decode rest
  | _ => some (text.takeWhile (!endsField ·), text.dropWhile (!endsField ·))

/-- The record at the beginning of a text, and the rest, within an allowance of fields. -/
def readRecord : (allowance : Nat) → List Char → Option (Record × List Char)
  | 0, _ => none
  | allowance + 1, text =>
    match readField text with
    | some (field, ',' :: rest) =>
      (readRecord allowance rest).map fun (others, rest) => (field :: others, rest)
    | some (field, '\n' :: rest) => some ([field], rest)
    | _ => none

def readRecords : (allowance : Nat) → List Char → Option (List Record)
  | _, [] => some []
  | 0, _ => none
  | allowance + 1, text =>
    match readRecord (allowance + 1) text with
    | some (record, rest) => (readRecords allowance rest).map (record :: ·)
    | none => none

/-- The records of a text in which every record ends at a line feed. -/
def parse? (text : List Char) : Option (List Record) := readRecords text.length text

end CodeGauge.Csv
