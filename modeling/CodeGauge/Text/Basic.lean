/-!
# Texts

A text is a list of characters.  It is decoded from bytes, cut by byte offsets into its UTF-8 form,
and divided into physical lines, which can be freed of blank characters at their ends.
-/

namespace CodeGauge.Text

def replacement : Char := '\uFFFD'

/-- What the first byte of a character announces: how many bytes follow, its own payload bits, and
the range of the second byte. -/
structure Lead where
  more : Nat
  bits : Nat
  least : Nat
  greatest : Nat

def lead? (byte : Nat) : Option Lead :=
  if 0xC2 ≤ byte ∧ byte ≤ 0xDF then some ⟨1, byte - 0xC0, 0x80, 0xBF⟩
  else if byte = 0xE0 then some ⟨2, 0, 0xA0, 0xBF⟩
  else if byte = 0xED then some ⟨2, 0xD, 0x80, 0x9F⟩
  else if 0xE1 ≤ byte ∧ byte ≤ 0xEF then some ⟨2, byte - 0xE0, 0x80, 0xBF⟩
  else if byte = 0xF0 then some ⟨3, 0, 0x90, 0xBF⟩
  else if 0xF1 ≤ byte ∧ byte ≤ 0xF3 then some ⟨3, byte - 0xF0, 0x80, 0xBF⟩
  else if byte = 0xF4 then some ⟨3, 4, 0x80, 0x8F⟩
  else none

/-- What is read so far of a character. -/
structure Pending where
  owed : Nat
  bits : Nat
  least : Nat
  greatest : Nat

def beginCharacter (byte : Nat) : List Char × Option Pending :=
  if byte < 0x80 then ([Char.ofNat byte], none)
  else
    match lead? byte with
    | some lead => ([], some ⟨lead.more, lead.bits, lead.least, lead.greatest⟩)
    | none => ([replacement], none)

/-- Reads one byte: the characters that it finishes, and what is pending after it. -/
def feed (pending : Option Pending) (byte : Nat) : List Char × Option Pending :=
  match pending with
  | none => beginCharacter byte
  | some open_ =>
    if open_.least ≤ byte ∧ byte ≤ open_.greatest then
      let bits := open_.bits * 64 + (byte - 0x80)
      if open_.owed = 1 then ([Char.ofNat bits], none)
      else ([], some ⟨open_.owed - 1, bits, 0x80, 0xBF⟩)
    else
      let (characters, next) := beginCharacter byte
      (replacement :: characters, next)

def decodeFrom (pending : Option Pending) : List Nat → List Char
  | [] => if pending.isSome then [replacement] else []
  | byte :: rest =>
    let (characters, next) := feed pending byte
    characters ++ decodeFrom next rest

/-- The text of a byte sequence, with U+FFFD for each maximal malformed part. -/
def decodeLossy (bytes : List UInt8) : List Char :=
  decodeFrom none (bytes.map UInt8.toNat)

def byteLength : List Char → Nat
  | [] => 0
  | c :: rest => c.utf8Size + byteLength rest

theorem byteLength_append (first second : List Char) :
    byteLength (first ++ second) = byteLength first + byteLength second := by
  induction first with
  | nil => simp [byteLength]
  | cons c first ih => rw [List.cons_append, byteLength, byteLength, ih, Nat.add_assoc]

/-- The text after its first `count` bytes, if they end between two characters. -/
def dropBytes : List Char → Nat → Option (List Char)
  | text, 0 => some text
  | [], _ + 1 => none
  | c :: rest, count + 1 =>
    if c.utf8Size ≤ count + 1 then dropBytes rest (count + 1 - c.utf8Size) else none

def takeBytes : List Char → Nat → Option (List Char)
  | _, 0 => some []
  | [], _ + 1 => none
  | c :: rest, count + 1 =>
    if c.utf8Size ≤ count + 1 then (takeBytes rest (count + 1 - c.utf8Size)).map (c :: ·) else none

/-- The part of a text from byte `start` to byte `stop`. -/
def slice (text : List Char) (start stop : Nat) : Option (List Char) :=
  if start = stop then some []
  else (dropBytes text start).bind fun rest => takeBytes rest (stop - start)

/-- The physical lines of a text, without their line ends. -/
def lines : List Char → List (List Char)
  | [] => []
  | '\r' :: '\n' :: rest => [] :: lines rest
  | '\n' :: rest => [] :: lines rest
  | c :: rest =>
    match lines rest with
    | [] => [[c]]
    | line :: others => (c :: line) :: others

theorem lines_eq_nil_iff {text : List Char} : lines text = [] ↔ text = [] := by
  fun_cases lines text <;> simp

/-- A text without its last character when that is a line feed. -/
def dropFinalNewline (text : List Char) : List Char :=
  match text.reverse with
  | '\n' :: rest => rest.reverse
  | _ => text

/-- The Unicode property White_Space. -/
def isBlank (c : Char) : Bool :=
  let point := c.toNat
  (0x09 ≤ point && point ≤ 0x0D) || point == 0x20 || point == 0x85 || point == 0xA0 ||
    point == 0x1680 || (0x2000 ≤ point && point ≤ 0x200A) || point == 0x2028 ||
    point == 0x2029 || point == 0x202F || point == 0x205F || point == 0x3000

def trimLeft (line : List Char) : List Char :=
  line.dropWhile isBlank

def trim (line : List Char) : List Char :=
  (trimLeft (trimLeft line).reverse).reverse

end CodeGauge.Text
