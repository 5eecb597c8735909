import CodeGauge.Csv
import Mathlib.Data.List.Basic

/-!
# Reading written records

Reading undoes writing, whatever characters the fields hold: a field is read back where a comma or a
line feed follows it (`readField_renderField`), a record up to and with its line feed
(`readRecord_renderRecord`), and a text of records that have fields as a whole (`parse?_render`).
-/

namespace CodeGauge.Csv

variable {field rest : List Char} {c : Char} {record : Record} {allowance : Nat}

theorem isSpecial_quote : isSpecial '"' = true := by decide

theorem endsField_eq_false_of_plain (plain : isSpecial c = false) : endsField c = false := by
  simp_all [isSpecial, endsField]

theorem ne_quote_of_endsField (ends : endsField c = true) : c ≠ '"' := by
  rintro rfl
  simp [endsField] at ends

theorem decode_cons (differs : c ≠ '"') (text : List Char) :
    decode (c :: text) = (decode text).map fun (field, after) => (c :: field, after) := by
  rw [decode, if_neg differs]
  simp [differs]

theorem decode_quote (ends : endsField c = true) (rest : List Char) :
    decode ('"' :: c :: rest) = some ([], c :: rest) := by
  rw [decode, if_pos rfl]
  simp [ne_quote_of_endsField ends]

/-- A quoted field ends at the first quote that is not doubled. -/
theorem decode_encode (field : List Char) (ends : endsField c = true) (rest : List Char) :
    decode (encode field ++ c :: rest) = some (field, c :: rest) := by
  induction field with
  | nil => exact decode_quote ends rest
  | cons d field ih =>
      rw [encode]
      split
      · rename_i quote
        rw [List.cons_append, List.cons_append, decode, ih, Option.map_some, quote]
      · rename_i differs
        rw [List.cons_append, decode_cons differs, ih, Option.map_some]

theorem readField_of_ne_quote (bare : field.head? ≠ some '"') :
    readField field = some (field.takeWhile (!endsField ·), field.dropWhile (!endsField ·)) := by
  cases field with
  | nil => rfl
  | cons d field =>
      have differs : d ≠ '"' := fun quote => bare (by rw [quote, List.head?_cons])
      simp [readField, differs]

theorem readField_renderField (field : List Char) (ends : endsField c = true)
    (rest : List Char) : readField (renderField field ++ c :: rest) = some (field, c :: rest) := by
  rw [renderField]
  split
  · exact decode_encode field ends rest
  · rename_i unquoted
    have plain : ∀ d ∈ field, isSpecial d = false := by simpa using unquoted
    have continues : ∀ d ∈ field, (!endsField d) = true := fun d mem => by
      rw [endsField_eq_false_of_plain (plain d mem), Bool.not_false]
    have bare : (field ++ c :: rest).head? ≠ some '"' := by
      cases field with
      | nil => simpa using ne_quote_of_endsField ends
      | cons d field =>
          rintro quote
          obtain rfl : d = '"' := by simpa using quote
          simpa [isSpecial_quote] using plain '"' List.mem_cons_self
    rw [readField_of_ne_quote bare, List.takeWhile_append_of_pos continues,
      List.dropWhile_append_of_pos continues]
    simp [ends]

theorem readRecord_of_comma {text : List Char} (read : readField text = some (field, ',' :: rest)) :
    readRecord (allowance + 1) text =
      (readRecord allowance rest).map fun (others, rest) => (field :: others, rest) := by
  simp only [readRecord, read]

theorem readRecord_of_lineFeed {text : List Char}
    (read : readField text = some (field, '\n' :: rest)) :
    readRecord (allowance + 1) text = some ([field], rest) := by
  simp [readRecord, read]

theorem renderFields_cons_cons (field other : List Char) (others : Record) :
    renderFields (field :: other :: others) =
      renderField field ++ ',' :: renderFields (other :: others) := by
  rw [renderFields]
  simp

theorem readRecord_renderFields (nonempty : record ≠ []) (enough : record.length ≤ allowance)
    (rest : List Char) :
    readRecord allowance (renderFields record ++ '\n' :: rest) = some (record, rest) := by
  induction record generalizing allowance with
  | nil => exact (nonempty rfl).elim
  | cons field others ih =>
      obtain ⟨allowance, rfl⟩ := Nat.exists_eq_succ_of_ne_zero (Nat.ne_zero_of_lt enough)
      cases others with
      | nil => exact readRecord_of_lineFeed (readField_renderField field (by decide) rest)
      | cons other others =>
          have enough_others : (other :: others).length ≤ allowance := Nat.le_of_succ_le_succ enough
          rw [renderFields_cons_cons, List.append_assoc, List.cons_append,
            readRecord_of_comma (readField_renderField field (by decide) _),
            ih (by simp) enough_others, Option.map_some]

theorem readRecord_renderRecord (nonempty : record ≠ []) (enough : record.length ≤ allowance)
    (rest : List Char) :
    readRecord allowance (renderRecord record ++ rest) = some (record, rest) := by
  rw [renderRecord]
  split
  · rename_i alone
    obtain ⟨allowance, rfl⟩ := Nat.exists_eq_succ_of_ne_zero
      (Nat.ne_zero_of_lt (Nat.lt_of_lt_of_le (List.length_pos_of_ne_nil nonempty) enough))
    rw [alone]
    rfl
  · rw [List.append_assoc, List.singleton_append]
    exact readRecord_renderFields nonempty enough rest

theorem length_renderFields (record : Record) :
    record.length ≤ (renderFields record).length + 1 := by
  induction record with
  | nil => exact Nat.zero_le _
  | cons field others ih =>
      cases others with
      | nil => simp [renderFields]
      | cons other others =>
          rw [renderFields_cons_cons]
          simp only [List.length_append, List.length_cons] at ih ⊢
          omega

theorem length_renderRecord (record : Record) : record.length ≤ (renderRecord record).length := by
  have fields := length_renderFields record
  rw [renderRecord]
  split
  · rename_i alone
    simp [alone]
  · simpa using fields

theorem readRecords_of_readRecord {text : List Char} (nonempty : text ≠ [])
    (read : readRecord (allowance + 1) text = some (record, rest)) :
    readRecords (allowance + 1) text = (readRecords allowance rest).map (record :: ·) := by
  rw [readRecords, read]
  exact nonempty

/-- The length of a text is allowance enough for its records and their fields. -/
theorem readRecords_render {records : List Record} (nonempty : ∀ record ∈ records, record ≠ [])
    (enough : (render records).length ≤ allowance) :
    readRecords allowance (render records) = some records := by
  induction records generalizing allowance with
  | nil => simp [render, readRecords]
  | cons record records ih =>
      rw [List.forall_mem_cons] at nonempty
      have fields := length_renderRecord record
      have some_field := List.length_pos_of_ne_nil nonempty.1
      have text_eq : render (record :: records) = renderRecord record ++ render records := rfl
      rw [text_eq, List.length_append] at enough
      obtain ⟨allowance, rfl⟩ : ∃ fewer, allowance = fewer + 1 := ⟨allowance - 1, by omega⟩
      have text_nonempty : renderRecord record ++ render records ≠ [] :=
        List.ne_nil_of_length_pos (by rw [List.length_append]; omega)
      rw [text_eq, readRecords_of_readRecord text_nonempty
          (readRecord_renderRecord nonempty.1 (by omega) (render records)),
        ih nonempty.2 (by omega), Option.map_some]

theorem parse?_render {records : List Record} (nonempty : ∀ record ∈ records, record ≠ []) :
    parse? (render records) = some records :=
  readRecords_render nonempty (Nat.le_refl _)

end CodeGauge.Csv
