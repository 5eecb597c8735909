import CodeGauge.Syntax.Node
import CodeGauge.Text.Identifier

/-!
# From characters to tokens

A token carries its text and place, and everything between it and the token before it.  The scanner
reads one piece of the text at a time, while a stack of openings tells it whether it stands in code,
in a string, or in the format specifier of a replacement field.
-/

namespace CodeGauge.Syntax

def openBrace : String := "\x7b"

def closeBrace : String := "\x7d"

/-- What a token is. -/
inductive Shape where
  | word
  | integer
  | decimal
  | sign
  | stringStart
  | content
  | escape
  | backslash
  | doubledBrace
  | stringEnd
  /-- The conversion of a replacement field, such as `!r`. -/
  | conversion
  | specification
  | finish
  | stray
  deriving Repr, DecidableEq

/-- What lies between two tokens. -/
structure Gap where
  origin : Place
  /-- Comments and joints up to the comment on the line of the token before. -/
  near : List Node
  /-- The comments and joints after that, a comment with the indentation of its line. -/
  far : List (Option Nat × Node)
  /-- Whether the gap holds a line end that can end a statement. -/
  turned : Bool
  indent : Nat
  /-- Whether a blank that is not plain white space hides the line ends that follow it. -/
  muffled : Bool
  deriving Repr

namespace Gap

def empty (origin : Place) : Gap := ⟨origin, [], [], false, 0, false⟩

def extras (gap : Gap) : List Node := gap.near ++ gap.far.map (·.2)

/-- A line end: the count of indentation begins anew. -/
def turn (gap : Gap) : Gap :=
  { gap with turned := gap.turned || !gap.muffled, indent := 0 }

def addComment (gap : Gap) (comment : Node) : Gap :=
  if gap.turned then
    { gap with far := gap.far ++ [(some gap.indent, comment)], muffled := false }
  else
    { gap with near := gap.extras ++ [comment], far := [], muffled := false }

/-- A line end that a backslash hides. -/
def addJoint (gap : Gap) (joint : Node) : Gap :=
  { gap with far := gap.far ++ [(none, joint)], muffled := false }

/-- Drops the joints at the end of a gap: before a string they count as plain white space. -/
def dropJoints (gap : Gap) : Gap :=
  { gap with far := (gap.far.reverse.dropWhile fun extra => extra.1.isNone).reverse }

end Gap

/-- A token with the gap before it. -/
structure Token where
  shape : Shape
  text : String
  gap : Gap
  start : Place
  stop : Place
  deriving Repr

def leaf (kind : String) (named : Bool) (start stop : Place) : Node :=
  .mk ⟨kind, named, false, false, false, none, start, stop.byte, stop.row⟩ []

/-- How a string was opened. -/
structure Delimiter where
  quote : Char
  triple : Bool
  raw : Bool
  bytes : Bool
  formatted : Bool
  deriving Repr, DecidableEq

/-- What the scanner stands in. -/
inductive Opening where
  | bracket
  | text (delimiter : Delimiter)
  | field
  /-- Between `lambda` and its colon directly in a replacement field. -/
  | lambdaHead
  | specification
  deriving Repr, DecidableEq

/-- The scanner's memory. -/
structure ScanState where
  place : Place
  openings : List Opening
  gap : Gap

/-- A token cut off the text: its shape and characters, the openings after it, and the rest. -/
structure Cut where
  shape : Shape
  text : List Char
  openings : List Opening
  rest : List Char

/-- A run of digits in which single underscores may follow a digit. -/
def takeDigits (isDigit : Char → Bool) : Bool → List Char → List Char × List Char
  | _, [] => ([], [])
  | afterDigit, c :: rest =>
    if isDigit c then
      let (digits, others) := takeDigits isDigit true rest
      (c :: digits, others)
    else if afterDigit && c == '_' then
      let (digits, others) := takeDigits isDigit false rest
      (c :: digits, others)
    else ([], c :: rest)

def takeDecimal : List Char → List Char × List Char := takeDigits Char.isDigit false

def isHexDigit (c : Char) : Bool :=
  c.isDigit || ('a' ≤ c && c ≤ 'f') || ('A' ≤ c && c ≤ 'F')

/-- The digits of a number after its radix mark, in which a single underscore may precede a
digit. -/
def takeRadix (isDigit : Char → Bool) : List Char → List Char × List Char
  | [] => ([], [])
  | c :: rest =>
    if isDigit c then
      let (digits, others) := takeRadix isDigit rest
      (c :: digits, others)
    else if c == '_' && (rest.head?.any isDigit) then
      let (digits, others) := takeRadix isDigit rest
      (c :: digits, others)
    else ([], c :: rest)

def takeOne (set : List Char) : List Char → List Char × List Char
  | [] => ([], [])
  | c :: rest => if set.contains c then ([c], rest) else ([], c :: rest)

def takeExponent (text : List Char) : List Char × List Char :=
  match takeOne ['e', 'E'] text with
  | ([], _) => ([], text)
  | (letter, afterLetter) =>
    let (sign, afterSign) := takeOne ['+', '-'] afterLetter
    match takeDecimal afterSign with
    | ([], _) => ([], text)
    | (digits, rest) => (letter ++ sign ++ digits, rest)

def radixDigit? (letter : Char) : Option (Char → Bool) :=
  if letter == 'x' || letter == 'X' then some isHexDigit
  else if letter == 'o' || letter == 'O' then some fun c => '0' ≤ c && c ≤ '7'
  else if letter == 'b' || letter == 'B' then some fun c => c == '0' || c == '1'
  else none

def takeRadixNumber? : List Char → Option (List Char × List Char)
  | '0' :: letter :: rest =>
    (radixDigit? letter).bind fun isDigit =>
      match takeRadix isDigit rest with
      | ([], _) => none
      | (digits, others) =>
        let (mark, others) := takeOne ['l', 'L'] others
        some ('0' :: letter :: digits ++ mark, others)
  | _ => none

def takeNumber (text : List Char) : Shape × List Char × List Char :=
  match takeRadixNumber? text with
  | some (digits, rest) => (.integer, digits, rest)
  | none =>
    let (whole, rest) := takeDecimal text
    match rest with
    | '.' :: afterPoint =>
      let (fraction, rest) := takeDecimal afterPoint
      let (exponent, rest) := takeExponent rest
      let (mark, rest) := takeOne ['j', 'J'] rest
      (.decimal, whole ++ '.' :: fraction ++ exponent ++ mark, rest)
    | _ =>
      match takeExponent rest with
      | ([], _) =>
        let (mark, rest) := takeOne ['l', 'L', 'j', 'J'] rest
        (.integer, whole ++ mark, rest)
      | (exponent, rest) =>
        let (mark, rest) := takeOne ['j', 'J'] rest
        (.decimal, whole ++ exponent ++ mark, rest)

def isStringLetter (c : Char) : Bool :=
  ['f', 'F', 'r', 'R', 'b', 'B', 'u', 'U'].contains c

def takeStringStart? (text : List Char) : Option (Delimiter × List Char × List Char) :=
  let letters := text.takeWhile isStringLetter
  let has (lower upper : Char) : Bool := letters.contains lower || letters.contains upper
  let delimiter (quote : Char) (triple : Bool) : Delimiter :=
    ⟨quote, triple, has 'r' 'R', has 'b' 'B', has 'f' 'F'⟩
  match text.dropWhile isStringLetter with
  | '\'' :: '\'' :: '\'' :: rest => some (delimiter '\'' true, letters ++ ['\'', '\'', '\''], rest)
  | '"' :: '"' :: '"' :: rest => some (delimiter '"' true, letters ++ ['"', '"', '"'], rest)
  | '\'' :: rest => some (delimiter '\'' false, letters ++ ['\''], rest)
  | '"' :: rest => some (delimiter '"' false, letters ++ ['"'], rest)
  | '`' :: rest => some (delimiter '`' false, letters ++ ['`'], rest)
  | _ => none

def takeStringEnd? (delimiter : Delimiter) : List Char → Option (List Char × List Char)
  | [] => none
  | c :: rest =>
    if c ≠ delimiter.quote then none
    else if delimiter.triple then
      match rest with
      | second :: third :: rest =>
        if second = c ∧ third = c then some ([c, c, c], rest) else none
      | _ => none
    else some ([c], rest)

def takeHex? (count : Nat) (text : List Char) : Option (List Char × List Char) :=
  let digits := text.take count
  if digits.length = count ∧ digits.all isHexDigit then some (digits, text.drop count) else none

def takeEscape? : List Char → Option (List Char × List Char)
  | [] => none
  | c :: rest =>
    let hex (count : Nat) := (takeHex? count rest).map fun (digits, rest) => (c :: digits, rest)
    if c = 'u' then hex 4
    else if c = 'U' then hex 8
    else if c = 'x' then hex 2
    else if c = 'N' then
      match rest with
      | '{' :: name =>
        let inner := name.takeWhile (· ≠ '}')
        match inner, name.dropWhile (· ≠ '}') with
        | _ :: _, '}' :: rest => some ('N' :: '{' :: inner ++ ['}'], rest)
        | _, _ => none
      | _ => none
    else if c.isDigit then
      let digits := (c :: rest).take 3 |>.takeWhile Char.isDigit
      some (digits, (c :: rest).drop digits.length)
    else if c = '\n' then some ([c], rest)
    else if c = '\r' then
      match rest with
      | '\n' :: rest => some ([c, '\n'], rest)
      | _ => none
    else if ['\'', '"', 'a', 'b', 'f', 'r', 'n', 't', 'v', '\\'].contains c then some ([c], rest)
    else none

def endsContent (delimiter : Delimiter) (begun : Bool) (c : Char) (rest : List Char) : Bool :=
  (delimiter.formatted && (c == '{' || c == '}')) ||
    (c == '\\' && !delimiter.raw &&
      !(delimiter.bytes && rest.head?.any fun next => ['N', 'u', 'U'].contains next)) ||
    (takeStringEnd? delimiter (c :: rest)).isSome ||
    (c == '\n' && begun && !delimiter.triple)

/-- How many characters after a character of plain text belong to it whatever they are. -/
def forcedContent (delimiter : Delimiter) (c : Char) (rest : List Char) : Nat :=
  if c ≠ '\\' then 0
  else if delimiter.raw then
    let stepped :=
      if rest.head?.any fun next => next == delimiter.quote || next == '\\' then 1 else 0
    match rest.drop stepped with
    | '\r' :: '\n' :: _ => stepped + 2
    | '\r' :: _ => stepped + 1
    | '\n' :: _ => stepped + 1
    | _ => stepped
  else 2

/-- The plain text of a string up to the next special place. -/
def takeContent (delimiter : Delimiter) : Bool → Nat → List Char → List Char × List Char
  | _, _, [] => ([], [])
  | begun, forced, c :: rest =>
    match forced with
    | forced + 1 =>
      let (content, others) := takeContent delimiter begun forced rest
      (c :: content, others)
    | 0 =>
      if endsContent delimiter begun c rest then ([], c :: rest)
      else
        let begun := begun || !(delimiter.raw && c == '\\')
        let (content, others) := takeContent delimiter begun (forcedContent delimiter c rest) rest
        (c :: content, others)

def cutText (delimiter : Delimiter) (openings : List Opening) (text : List Char) : Cut :=
  let within := Opening.text delimiter :: openings
  match takeStringEnd? delimiter text with
  | some (quotes, rest) => ⟨.stringEnd, quotes, openings, rest⟩
  | none =>
    match delimiter.formatted, text with
    | true, '{' :: '{' :: rest => ⟨.doubledBrace, ['{', '{'], within, rest⟩
    | true, '}' :: '}' :: rest => ⟨.doubledBrace, ['}', '}'], within, rest⟩
    | true, '{' :: rest => ⟨.sign, ['{'], .field :: within, rest⟩
    | _, _ =>
      match takeContent delimiter false 0 text, text with
      | ([], _), '\\' :: afterBackslash =>
        match takeEscape? afterBackslash with
        | some (escape, rest) => ⟨.escape, '\\' :: escape, within, rest⟩
        | none => ⟨.backslash, ['\\'], within, afterBackslash⟩
      | ([], _), _ => ⟨.stray, text.take 1, within, text.drop 1⟩
      | (content, '\n' :: rest), _ =>
        ⟨if delimiter.triple then .content else .stray, content, within, '\n' :: rest⟩
      | (content, rest), _ => ⟨.content, content, within, rest⟩

/-- The signs of the language, longer ones before their beginnings. -/
def signs : List (List Char) :=
  ["**=", "//=", ">>=", "<<=", "...",
    "**", "//", ">>", "<<", "<=", ">=", "==", "!=", "<>", "->", "+=", "-=", "*=", "/=", "%=",
    "@=", "&=", "|=", "^=", ":=",
    "+", "-", "*", "/", "%", "@", "&", "|", "^", "~", "<", ">", "=", "(", ")", "[", "]",
    openBrace, closeBrace, ",", ":", ";", "."].map String.toList

def Opening.afterSign (openings : List Opening) (sign : List Char) : List Opening :=
  match sign, openings with
  | ['('], _ => .bracket :: openings
  | ['['], _ => .bracket :: openings
  | ['{'], _ => .bracket :: openings
  | [')'], .bracket :: outer => outer
  | [']'], .bracket :: outer => outer
  | ['}'], .bracket :: outer => outer
  | ['}'], .field :: outer => outer
  | [':'], .field :: outer => .specification :: .field :: outer
  | [':'], .lambdaHead :: outer => outer
  | _, _ => openings

def Opening.afterWord (openings : List Opening) (word : List Char) : List Opening :=
  match openings with
  | .field :: _ =>
    if word = ['l', 'a', 'm', 'b', 'd', 'a'] then .lambdaHead :: openings else openings
  | .lambdaHead :: _ =>
    if word = ['l', 'a', 'm', 'b', 'd', 'a'] then .lambdaHead :: openings else openings
  | _ => openings

def cutSign (openings : List Opening) (text : List Char) : Cut :=
  match signs.find? fun sign => sign.isPrefixOf text with
  | some sign => ⟨.sign, sign, Opening.afterSign openings sign, text.drop sign.length⟩
  | none => ⟨.stray, text.take 1, openings, text.drop 1⟩

def beginsNumber : List Char → Bool
  | '.' :: c :: _ => c.isDigit
  | c :: _ => c.isDigit
  | [] => false

def takeConversion? (openings : List Opening) : List Char → Option (List Char × List Char)
  | '!' :: letter :: rest =>
    if openings.head? = some .field ∧ 'a' ≤ letter ∧ letter ≤ 'z' then
      some (['!', letter], rest)
    else none
  | _ => none

def cutCode (openings : List Opening) (text : List Char) : Cut :=
  match takeStringStart? text with
  | some (delimiter, start, rest) => ⟨.stringStart, start, .text delimiter :: openings, rest⟩
  | none =>
    if text.head?.any Text.beginsIdentifier then
      let word := text.takeWhile Text.continuesIdentifier
      ⟨.word, word, Opening.afterWord openings word, text.dropWhile Text.continuesIdentifier⟩
    else if beginsNumber text then
      let (shape, number, rest) := takeNumber text
      ⟨shape, number, openings, rest⟩
    else
      match takeConversion? openings text with
      | some (conversion, rest) => ⟨.conversion, conversion, openings, rest⟩
      | none => cutSign openings text

def isSpecification (c : Char) : Bool := c ≠ '{' && c ≠ '}' && c ≠ '\n'

def cutSpecification (openings : List Opening) (text : List Char) : Cut :=
  match openings, text with
  | _, '{' :: rest => ⟨.sign, ['{'], .field :: openings, rest⟩
  | .specification :: .field :: outer, '}' :: rest => ⟨.sign, ['}'], outer, rest⟩
  | _, c :: rest =>
    if isSpecification c then
      ⟨.specification, text.takeWhile isSpecification, openings, text.dropWhile isSpecification⟩
    else ⟨.stray, [c], openings, rest⟩
  | _, [] => ⟨.stray, [], openings, []⟩

/-- What one step of the scanner yields. -/
inductive Scanned where
  | last (token : Token)
  | skipped (state : ScanState) (rest : List Char)
  | token (token : Token) (state : ScanState) (rest : List Char)

namespace ScanState

def finish (state : ScanState) : Token :=
  ⟨.finish, "", { state.gap with turned := state.gap.turned || !state.gap.muffled, indent := 0 },
    state.place, state.place⟩

def skipBlank (state : ScanState) (c : Char) (rest : List Char) : Scanned :=
  let gap := state.gap
  let gap :=
    if c = ' ' then { gap with indent := gap.indent + 1 }
    else if c = '\t' then { gap with indent := gap.indent + 8 }
    else if c = '\r' ∨ c = '\x0c' then { gap with indent := 0 }
    else if c = '\n' then gap.turn
    else { gap with muffled := true }
  .skipped { state with place := state.place.step c, gap } rest

def emit (state : ScanState) (cut : Cut) : Scanned :=
  let stop := state.place.after cut.text
  let gap := if cut.shape = .stringStart then state.gap.dropJoints else state.gap
  .token ⟨cut.shape, String.ofList cut.text, gap, state.place, stop⟩
    ⟨stop, cut.openings, Gap.empty stop⟩ cut.rest

def skipComment (state : ScanState) (text : List Char) : Scanned :=
  let stop := state.place.after (text.takeWhile (· ≠ '\n'))
  let comment := leaf "comment" true state.place stop
  .skipped { state with place := stop, gap := state.gap.addComment comment }
    (text.dropWhile (· ≠ '\n'))

def skipJoint (state : ScanState) (joint rest : List Char) : Scanned :=
  let stop := state.place.after joint
  let node := leaf "line_continuation" true state.place stop
  .skipped { state with place := stop, gap := state.gap.addJoint node } rest

/-- A blank between the tokens of code: ASCII white space and three characters of no width. -/
def isGapBlank (c : Char) : Bool :=
  ('\t' ≤ c && c ≤ '\r') || c == ' ' || c == '\uFEFF' || c == '\u2060' || c == '\u200B'

def stepCode (state : ScanState) (text : List Char) : Scanned :=
  match text with
  | [] => .last state.finish
  | '#' :: _ => state.skipComment text
  | '\\' :: '\n' :: rest => state.skipJoint ['\\', '\n'] rest
  | '\\' :: '\r' :: '\n' :: rest => state.skipJoint ['\\', '\r', '\n'] rest
  | ['\\'] => state.skipJoint ['\\'] []
  | c :: rest =>
    if isGapBlank c then state.skipBlank c rest else state.emit (cutCode state.openings text)

def step (state : ScanState) (text : List Char) : Scanned :=
  match state.openings, text with
  | _, [] => .last state.finish
  | .text delimiter :: outer, text => state.emit (cutText delimiter outer text)
  | .specification :: _, c :: rest =>
    if c = '\n' then state.skipBlank c rest else state.emit (cutSpecification state.openings text)
  | _, text => state.stepCode text

end ScanState

/-- The tokens of a text from a given state on, in at most `steps` steps. -/
def scanFrom : (steps : Nat) → ScanState → List Char → List Token
  | 0, _, _ => []
  | steps + 1, state, text =>
    match state.step text with
    | .last token => [token]
    | .skipped state rest => scanFrom steps state rest
    | .token token state rest => token :: scanFrom steps state rest

/-- The tokens of a source text; the last one is the end of the source. -/
def scan (text : List Char) : List Token :=
  scanFrom (text.length + 1) ⟨.zero, [], Gap.empty .zero⟩ text

end CodeGauge.Syntax
