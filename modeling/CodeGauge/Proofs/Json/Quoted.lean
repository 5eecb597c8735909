import CodeGauge.Json.Value
import Mathlib.Data.List.Basic

/-!
# Quoted texts are read back

What stands for a character between quotes is read as one piece, and the pieces of a text make the
text again (`unquote_escaped`).  No character of a quoted text is a control character, so it stays
on its line.
-/

namespace CodeGauge.Json

variable {c : Char} {text rest : List Char}

/-- A piece stands for a character: it is this character, or its number, which is small. -/
def Piece.StandsFor : Piece → Char → Prop
  | .character d, c => d = c
  | .unit n, c => n = c.toNat ∧ n < 0x20

/-- A character is escaped by a letter, by its number, or not at all. -/
theorem escape_cases (c : Char) :
    (∃ letter, escape c = ['\\', letter] ∧ letter ≠ 'u' ∧ 0x20 ≤ letter.toNat ∧
        namedEscape? letter = some c) ∨
      (escape c = ['\\', 'u', '0', '0', hexDigit (c.toNat / 16), hexDigit (c.toNat % 16)] ∧
        c.toNat < 0x20) ∨
      (escape c = [c] ∧ c ≠ '"' ∧ c ≠ '\\' ∧ 0x20 ≤ c.toNat) := by
  by_cases named : c ∈ ['"', '\\', '\x08', '\x0c', '\n', '\r', '\t']
  · left
    simp only [List.mem_cons, List.not_mem_nil, or_false] at named
    rcases named with rfl | rfl | rfl | rfl | rfl | rfl | rfl <;>
      exact ⟨_, rfl, by decide, by decide, by decide⟩
  · right
    simp only [List.mem_cons, List.not_mem_nil, or_false, not_or] at named
    have by_number : escape c = if c.toNat < 0x20 then
        ['\\', 'u', '0', '0', hexDigit (c.toNat / 16), hexDigit (c.toNat % 16)] else [c] := by
      simp only [escape, named, if_false]
    rw [by_number]
    split
    · exact .inl ⟨rfl, ‹_›⟩
    · exact .inr ⟨rfl, named.1, named.2.1, Nat.le_of_not_lt ‹_›⟩

theorem unit?_hexDigit {n : Nat} (control : n < 0x20) :
    unit? '0' '0' (hexDigit (n / 16)) (hexDigit (n % 16)) = some n := by
  revert n
  decide

theorem readPieces_letter {letter : Char} (differs : letter ≠ 'u') (text : List Char) :
    readPieces ('\\' :: letter :: text) =
      consPiece ((namedEscape? letter).map .character) (readPieces text) := by
  rw [readPieces]
  rintro first second third fourth rest rfl
  exact fun _ => differs rfl

theorem readPieces_plain (not_quote : c ≠ '"') (not_backslash : c ≠ '\\') (visible : 0x20 ≤ c.toNat)
    (text : List Char) :
    readPieces (c :: text) = consPiece (some (.character c)) (readPieces text) := by
  have shown : ¬(c = '\\' ∨ c.toNat < 0x20) := by
    rintro (backslash | control)
    · exact not_backslash backslash
    · exact absurd control (Nat.not_lt.mpr visible)
  rw [readPieces, if_neg shown]
  · exact not_quote
  · exact fun _ _ _ _ _ backslash => absurd backslash not_backslash
  · exact fun _ _ backslash => absurd backslash not_backslash

theorem exists_readPieces_escape (c : Char) :
    ∃ piece : Piece, piece.StandsFor c ∧
      ∀ text, readPieces (escape c ++ text) = consPiece (some piece) (readPieces text) := by
  rcases escape_cases c with ⟨letter, escaped, differs, -, named⟩ | ⟨escaped, control⟩ |
    ⟨escaped, not_quote, not_backslash, visible⟩
  · refine ⟨.character c, rfl, fun text => ?_⟩
    rw [escaped, List.cons_append, List.cons_append, List.nil_append, readPieces_letter differs,
      named]
    rfl
  · refine ⟨.unit c.toNat, ⟨rfl, control⟩, fun text => ?_⟩
    simp only [escaped, List.cons_append, List.nil_append, readPieces, unit?_hexDigit control,
      Option.map_some]
  · refine ⟨.character c, rfl, fun text => ?_⟩
    rw [escaped, List.cons_append, List.nil_append,
      readPieces_plain not_quote not_backslash visible]

theorem joinPieces_cons {piece : Piece} (stands : piece.StandsFor c) (pieces : List Piece) :
    joinPieces (piece :: pieces) = (joinPieces pieces).map (c :: ·) := by
  match piece, pieces with
  | .character d, _ =>
      obtain rfl : d = c := stands
      rfl
  | .unit n, pieces =>
      obtain ⟨rfl, control⟩ := stands
      have single : isHighUnit c.toNat = false ∧ isLowUnit c.toNat = false := by
        simp [isHighUnit, isLowUnit]
        omega
      match pieces with
      | [] => simp [joinPieces, single]
      | .character d :: pieces => simp [joinPieces, single]
      | .unit low :: pieces => simp [joinPieces, single]

/-- The text between quotes is read back, whatever stands behind the closing quote. -/
theorem unquote_escaped (text rest : List Char) :
    unquote (text.flatMap escape ++ '"' :: rest) = some (text, rest) := by
  have read : ∃ pieces, readPieces (text.flatMap escape ++ '"' :: rest) = some (pieces, rest) ∧
      joinPieces pieces = some text := by
    induction text with
    | nil => exact ⟨[], by simp [readPieces], rfl⟩
    | cons c text ih =>
        obtain ⟨pieces, read, joined⟩ := ih
        obtain ⟨piece, stands, step⟩ := exists_readPieces_escape c
        refine ⟨piece :: pieces, ?_, ?_⟩
        · rw [List.flatMap_cons, List.append_assoc, step, read]
          rfl
        · rw [joinPieces_cons stands, joined]
          rfl
  obtain ⟨pieces, read, joined⟩ := read
  rw [unquote, read]
  simp only [joined, Option.map_some]

theorem visible_hexDigit {n : Nat} (small : n < 0x20) :
    0x20 ≤ (hexDigit (n / 16)).toNat ∧ 0x20 ≤ (hexDigit (n % 16)).toNat := by
  revert n
  decide

theorem visible_of_mem_escape {d : Char} (mem : d ∈ escape c) : 0x20 ≤ d.toNat := by
  rcases escape_cases c with ⟨letter, escaped, -, visible, -⟩ | ⟨escaped, control⟩ |
    ⟨escaped, -, -, visible⟩
  · rw [escaped, List.mem_pair] at mem
    rcases mem with rfl | rfl
    · decide
    · exact visible
  · obtain ⟨high, low⟩ := visible_hexDigit control
    simp only [escaped, List.mem_cons, List.not_mem_nil, or_false] at mem
    rcases mem with rfl | rfl | rfl | rfl | rfl | rfl
    · decide
    · decide
    · decide
    · decide
    · exact high
    · exact low
  · rw [escaped, List.mem_singleton] at mem
    exact mem ▸ visible

theorem visible_of_mem_quote (mem : c ∈ quote text) : 0x20 ≤ c.toNat := by
  have visible_quote : 0x20 ≤ ('"').toNat := by decide
  rw [quote, List.mem_append, List.mem_cons, List.mem_flatMap, List.mem_singleton] at mem
  rcases mem with (rfl | ⟨d, -, mem⟩) | rfl
  · exact visible_quote
  · exact visible_of_mem_escape mem
  · exact visible_quote

end CodeGauge.Json
