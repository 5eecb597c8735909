import CodeGauge.Decimal.Numeral

/-!
# Options on a command line

Options are named by a word after two dashes or by a letter after one.  The value of an option
follows it, in the same argument or in the next one.  A value in an argument of its own is looked at
only when the next option or the end comes, so an unknown option behind it is reported first.
-/

namespace CodeGauge.Command

/-- Why arguments are not accepted, or what is shown in place of running a command. -/
inductive Refusal where
  | unknownArgument
  | unknownCommand
  | missingValue
  | malformedValue
  | repeated
  | missingCommand
  | nothingGiven
  | unwantedValue
  | help
  | version
  deriving Repr, DecidableEq

def Refusal.message : Refusal → String
  | unknownArgument => "unknown argument"
  | unknownCommand => "unknown command"
  | missingValue => "missing value"
  | malformedValue => "malformed value"
  | repeated => "option given twice"
  | missingCommand => "missing command"
  | nothingGiven => "nothing given"
  | unwantedValue => "unwanted value"
  | help => "help"
  | version => "version"

/-- What an option is about. -/
inductive Topic where
  | repository
  | universalTime
  | noProgress
  | verbose
  | output
  | history
  | mostCommits
  | json
  | jsonLines
  | help
  | version
  deriving Repr, DecidableEq

/-- What an option takes. -/
inductive Form where
  | once
  | often
  | path
  | integer
  | stop (refusal : Refusal)
  deriving Repr, DecidableEq

/-- An option. -/
structure Switch where
  topic : Topic
  word : List Char
  letter : Option Char
  form : Form
  deriving Repr, DecidableEq

def Form.takesValue (form : Form) : Bool := form = .path || form = .integer

/-- The value of an option. -/
inductive Value where
  | given
  | path (text : List Char)
  | integer (n : Int)
  deriving Repr, DecidableEq

/-- The least number that is too great for sixty-four bits with a sign. -/
def integerBound : Int := 9223372036854775808

/-- A whole number of sixty-four bits from its digits with or without a sign. -/
def integer? (text : List Char) : Option Int :=
  let (negative, digits) :=
    match text with
    | '-' :: rest => (true, rest)
    | '+' :: rest => (false, rest)
    | _ => (false, text)
  if digits.isEmpty || !digits.all Char.isDigit then none
  else
    let size : Int := Decimal.valueOf digits
    let value := if negative then -size else size
    if -integerBound ≤ value ∧ value < integerBound then some value else none

def readValue (form : Form) (text : List Char) : Except Refusal Value :=
  match form with
  | .path => if text.isEmpty then .error .missingValue else .ok (.path text)
  | .integer =>
    match integer? text with
    | some n => .ok (.integer n)
    | none => .error .malformedValue
  | _ => .ok .given

/-- How far the options are read. -/
structure Reading where
  settled : List (Topic × Value)
  pending : Option (Switch × Option (List Char))

namespace Reading

def start : Reading := ⟨[], none⟩

def awaits (reading : Reading) : Bool :=
  match reading.pending with
  | some (_, none) => true
  | _ => false

def awaitsInteger (reading : Reading) : Bool :=
  match reading.pending with
  | some (switch, none) => switch.form = .integer
  | _ => false

/-- Takes an argument as the awaited value. -/
def supply (reading : Reading) (text : List Char) : Reading :=
  match reading.pending with
  | some (switch, none) => { reading with pending := some (switch, some text) }
  | _ => reading

def settleWith (settled : List (Topic × Value)) (switch : Switch) (text : List Char) :
    Except Refusal (List (Topic × Value)) :=
  if (settled.lookup switch.topic).isSome && switch.form != .often then .error .repeated
  else
    match readValue switch.form text with
    | .error refusal => .error refusal
    | .ok value => .ok (settled ++ [(switch.topic, value)])

def settle (reading : Reading) : Except Refusal (List (Topic × Value)) :=
  match reading.pending with
  | none => .ok reading.settled
  | some (_, none) => .error .missingValue
  | some (switch, some text) => settleWith reading.settled switch text

/-- Reads an option that has its value attached to it or takes none. -/
def take (reading : Reading) (switch : Switch) (text : List Char) : Except Refusal Reading := do
  let settled ← reading.settle
  match switch.form with
  | .stop refusal => .error refusal
  | _ =>
    let settled ← settleWith settled switch text
    return ⟨settled, none⟩

/-- Reads an option whose value comes in the next argument. -/
def expect (reading : Reading) (switch : Switch) : Except Refusal Reading := do
  let settled ← reading.settle
  return ⟨settled, some (switch, none)⟩

def takeWord (switches : List Switch) (reading : Reading) (word : List Char)
    (attached : Option (List Char)) : Except Refusal Reading :=
  match switches.find? fun switch => switch.word == word with
  | none => .error .unknownArgument
  | some switch =>
    match switch.form.takesValue, attached with
    | true, some text => reading.take switch text
    | true, none => reading.expect switch
    | false, some _ => .error .unwantedValue
    | false, none => reading.take switch []

/-- Reads options named by their letters; what follows the letter of an option with a value is its
value, after an equals sign if there is one. -/
def takeLetters (switches : List Switch) (reading : Reading) : List Char → Except Refusal Reading
  | [] => .ok reading
  | letter :: rest =>
    match switches.find? fun switch => switch.letter == some letter with
    | none => .error .unknownArgument
    | some switch =>
      if switch.form.takesValue then
        match rest with
        | [] => reading.expect switch
        | '=' :: text => reading.take switch text
        | text => reading.take switch text
      else
        match reading.take switch [] with
        | .error refusal => .error refusal
        | .ok reading => takeLetters switches reading rest

end Reading

/-- Whether the text after a dash makes it a negative number: digits with at most one point, which
is not the first of them, and at most one mark of an exponent, which is not the last. -/
def isNegativeNumber (text : List Char) : Bool :=
  let (mantissa, exponent) := text.span fun c => c != 'e' && c != 'E'
  let points := mantissa.filter (· == '.')
  !text.isEmpty && mantissa.all (fun c => c.isDigit || c == '.') && points.length ≤ 1 &&
    mantissa.head? != some '.' && !mantissa.isEmpty &&
    match exponent with
    | [] => true
    | _ :: digits => !digits.isEmpty && digits.all Char.isDigit

end CodeGauge.Command
