import CodeGauge.Json.Value
import CodeGauge.Proofs.Json.Numeral
import CodeGauge.Proofs.Json.Quoted

/-!
# Written values are read back

A value is read back from its text in every style whose gaps are white space, with its members in
their order and with white space behind it (`parse?_render`).
-/

namespace CodeGauge.Json

open Decimal

variable {style : Style} {depth allowance : Nat} {space text rest : List Char} {value : Json}

/-- A value in which all numerals are written with the digits that they need. -/
inductive IsWritten : Json → Prop
  | null : IsWritten .null
  | bool (value : Bool) : IsWritten (.bool value)
  | number {numeral : Numeral} (written : numeral.IsWritten) : IsWritten (.number numeral)
  | string (value : String) : IsWritten (.string value)
  | array {elements : List Json} (written : ∀ element ∈ elements, IsWritten element) :
      IsWritten (.array elements)
  | object {members : List (String × Json)} (written : ∀ member ∈ members, IsWritten member.2) :
      IsWritten (.object members)

def IsGap (space : List Char) : Prop := ∀ c ∈ space, isSpace c = true

/-- A style writes nothing but white space between the parts of a value. -/
structure Style.IsBlank (style : Style) : Prop where
  gap : ∀ depth, IsGap (style.gap depth)
  afterColon : IsGap style.afterColon

theorem isBlank_compact : Style.compact.IsBlank :=
  ⟨fun _ => List.forall_mem_nil _, List.forall_mem_nil _⟩

theorem isBlank_indented : Style.indented.IsBlank := by
  refine ⟨fun depth c mem => ?_, fun c mem => ?_⟩
  · rcases List.mem_cons.mp mem with rfl | blank
    · decide
    · rw [List.eq_of_mem_replicate blank]
      decide
  · rw [List.mem_singleton.mp mem]
    decide

theorem skipSpace_append (blank : IsGap space) (text : List Char) :
    skipSpace (space ++ text) = skipSpace text :=
  List.dropWhile_append_of_pos blank

theorem skipSpace_cons {c : Char} (dark : isSpace c = false) (text : List Char) :
    skipSpace (c :: text) = c :: text :=
  List.dropWhile_cons_of_neg (by simp [dark])

theorem readValue_space (blank : IsGap space) (allowance : Nat) (text : List Char) :
    readValue allowance (space ++ text) = readValue allowance text := by
  cases allowance with
  | zero => rfl
  | succ allowance => simp only [readValue, skipSpace_append blank]

/-- A text starts neither with white space nor with a closing bracket. -/
def StartsPart (text : List Char) : Prop :=
  ∃ c others, text = c :: others ∧ isSpace c = false ∧ c ≠ ']' ∧ c ≠ '}'

theorem StartsPart.append (starts : StartsPart text) (rest : List Char) :
    StartsPart (text ++ rest) := by
  obtain ⟨c, others, rfl, dark⟩ := starts
  exact ⟨c, others ++ rest, rfl, dark⟩

def startsNumeral (c : Char) : Bool := c = '-' || c.isDigit

theorem ne_of_startsNumeral {c d : Char} (starts : startsNumeral c = true)
    (other : startsNumeral d = false) : c ≠ d := by
  rintro rfl
  exact Bool.false_ne_true (other.symm.trans starts)

theorem isSpace_eq_false {c : Char} (starts : startsNumeral c = true) : isSpace c = false := by
  have differs := @ne_of_startsNumeral c
  simp only [isSpace, Bool.or_eq_false_iff, decide_eq_false_iff_not]
  exact ⟨⟨⟨differs starts rfl, differs starts rfl⟩, differs starts rfl⟩, differs starts rfl⟩

theorem exists_numeral_eq_cons {numeral : Numeral} (written : numeral.IsWritten) :
    ∃ c text, numeral.render true = c :: text ∧ startsNumeral c = true := by
  have digit := written.whole.digit
  cases whole : numeral.whole with
  | nil => exact absurd whole written.whole.nonempty
  | cons d digits =>
      rw [render_eq, whole]
      cases numeral.negative with
      | true => exact ⟨_, _, rfl, rfl⟩
      | false =>
          have is_digit := digit d (whole ▸ List.mem_cons_self)
          exact ⟨_, _, rfl, by simp [startsNumeral, is_digit]⟩

theorem startsPart_renderAt (written : value.IsWritten) (style : Style) (depth : Nat) :
    StartsPart (renderAt style depth value) := by
  cases value with
  | null => exact ⟨'n', _, by rw [renderAt], by decide⟩
  | bool value =>
      cases value with
      | true => exact ⟨'t', _, by rw [renderAt], by decide⟩
      | false => exact ⟨'f', _, by rw [renderAt], by decide⟩
  | number numeral =>
      cases written with
      | number written =>
          obtain ⟨c, text, eq, starts⟩ := exists_numeral_eq_cons written
          exact ⟨c, text, by rw [renderAt, eq], isSpace_eq_false starts,
            ne_of_startsNumeral starts rfl, ne_of_startsNumeral starts rfl⟩
  | string value => exact ⟨'"', _, by rw [renderAt, quote]; rfl, by decide⟩
  | array elements =>
      cases elements with
      | nil => exact ⟨'[', _, by rw [renderAt], by decide⟩
      | cons first others => exact ⟨'[', _, by rw [renderAt]; rfl, by decide⟩
  | object members =>
      cases members with
      | nil => exact ⟨'{', _, by rw [renderAt], by decide⟩
      | cons first others => exact ⟨'{', _, by rw [renderAt]; rfl, by decide⟩

theorem readValue_quote : readValue (allowance + 1) ('"' :: text) =
    (unquote text).map fun (value, rest) => (.string (String.ofList value), rest) :=
  rfl

theorem readValue_null : readValue (allowance + 1) ('n' :: text) = readWord "ull" .null text :=
  rfl

theorem readValue_true :
    readValue (allowance + 1) ('t' :: text) = readWord "rue" (.bool true) text :=
  rfl

theorem readValue_false :
    readValue (allowance + 1) ('f' :: text) = readWord "alse" (.bool false) text :=
  rfl

theorem readValue_numeral {c : Char} (starts : startsNumeral c = true) :
    readValue (allowance + 1) (c :: text) =
      (readNumeral (c :: text)).map fun (numeral, rest) => (.number numeral, rest) := by
  rw [readValue, skipSpace_cons (isSpace_eq_false starts)]
  split
  case h_7 => rfl
  all_goals
    rename_i same
    exact absurd (List.cons.inj same).1 (ne_of_startsNumeral starts rfl)

theorem readValue_bracket (gap : IsGap space) (starts : StartsPart text) :
    readValue (allowance + 1) ('[' :: (space ++ text)) =
      (readElements allowance text).map fun (elements, rest) => (.array elements, rest) := by
  obtain ⟨c, others, rfl, dark, more, -⟩ := starts
  rw [readValue, skipSpace_cons (by decide)]
  simp only [skipSpace_append gap, skipSpace_cons dark]
  split
  · rename_i same
    exact absurd (List.cons.inj same).1 more
  · rfl

theorem readValue_brace (gap : IsGap space) (starts : StartsPart text) :
    readValue (allowance + 1) ('{' :: (space ++ text)) =
      (readMembers allowance text).map fun (members, rest) => (.object members, rest) := by
  obtain ⟨c, others, rfl, dark, -, more⟩ := starts
  rw [readValue, skipSpace_cons (by decide)]
  simp only [skipSpace_append gap, skipSpace_cons dark]
  split
  · rename_i same
    exact absurd (List.cons.inj same).1 more
  · rfl

theorem readValue_emptyList :
    readValue (allowance + 1) ('[' :: ']' :: rest) = some (.array [], rest) :=
  rfl

theorem readValue_emptyObject :
    readValue (allowance + 1) ('{' :: '}' :: rest) = some (.object [], rest) :=
  rfl

theorem continuesNumeral_eq_false {c : Char} (space : isSpace c = true) :
    continuesNumeral c = false := by
  simp only [isSpace, Bool.or_eq_true, decide_eq_true_eq] at space
  rcases space with ((rfl | rfl) | rfl) | rfl <;> rfl

theorem endsNumeral_append (blank : IsGap space) (ends : EndsNumeral text) :
    EndsNumeral (space ++ text) := by
  cases space with
  | nil => exact ends
  | cons c space =>
      intro d mem
      obtain rfl := Option.some.inj mem
      exact continuesNumeral_eq_false (blank c List.mem_cons_self)

theorem endsNumeral_cons {c : Char} (stops : continuesNumeral c = false) (text : List Char) :
    EndsNumeral (c :: text) := by
  intro d mem
  obtain rfl := Option.some.inj mem
  exact stops

/-- A value is read back at every depth, with anything behind it that does not continue a numeral,
if the allowance reaches the length of its text. -/
def IsReadBack (style : Style) (value : Json) : Prop :=
  ∀ depth allowance rest, (renderAt style depth value).length ≤ allowance + 1 → EndsNumeral rest →
    readValue (allowance + 1) (renderAt style depth value ++ rest) = some (value, rest)

theorem length_renderAt_pos (written : value.IsWritten) (style : Style) (depth : Nat) :
    0 < (renderAt style depth value).length := by
  obtain ⟨c, text, eq, -⟩ := startsPart_renderAt written style depth
  rw [eq]
  exact Nat.succ_pos _

theorem length_renderElements_pos (style : Style) (depth : Nat) (elements : List Json) :
    0 < (renderElements style depth elements).length := by
  cases elements <;> simp [renderElements]

theorem length_renderMembers_pos (style : Style) (depth : Nat) (members : List (String × Json)) :
    0 < (renderMembers style depth members).length := by
  cases members <;> simp [renderMembers]

theorem readElements_last {element : Json} (blank : IsGap space)
    (read : readValue allowance text = some (element, space ++ ']' :: rest)) :
    readElements (allowance + 1) text = some ([element], rest) := by
  rw [readElements, read]
  simp only [skipSpace_append blank]
  rw [skipSpace_cons (by decide)]
  rfl

theorem readElements_more {element : Json}
    (read : readValue allowance text = some (element, ',' :: rest)) :
    readElements (allowance + 1) text =
      (readElements allowance rest).map fun (others, rest) => (element :: others, rest) := by
  rw [readElements, read]
  simp only
  rw [skipSpace_cons (by decide)]
  rfl

theorem readElements_render (blank : style.IsBlank) {first : Json} {others : List Json}
    (written : ∀ element ∈ first :: others, IsWritten element)
    (back : ∀ element ∈ first :: others, IsReadBack style element) (gap : IsGap space)
    (rest : List Char) (enough : (renderAt style (depth + 1) first).length +
      (renderElements style depth others).length ≤ allowance + 2) :
    readElements (allowance + 2) (space ++ (renderAt style (depth + 1) first ++
      (renderElements style depth others ++ rest))) = some (first :: others, rest) := by
  -- each element takes one from the allowance, and its text has one character at least
  induction others generalizing first space allowance with
  | nil =>
      rw [renderElements, List.length_append, List.length_singleton] at enough
      rw [renderElements, List.append_assoc, List.singleton_append]
      refine readElements_last (blank.gap depth) ?_
      rw [readValue_space gap]
      exact back first List.mem_cons_self (depth + 1) allowance _ (by omega)
        (endsNumeral_append (blank.gap depth) (endsNumeral_cons (by decide) rest))
  | cons second others ih =>
      have first_pos := length_renderAt_pos (written first List.mem_cons_self) style (depth + 1)
      have second_pos := length_renderAt_pos
        (written second (List.mem_cons_of_mem first List.mem_cons_self)) style (depth + 1)
      rw [renderElements] at enough ⊢
      simp only [List.cons_append, List.append_assoc, List.length_cons, List.length_append]
        at enough ⊢
      obtain ⟨allowance, rfl⟩ : ∃ less, allowance = less + 1 :=
        Nat.exists_eq_add_one.mpr (by omega)
      have first_read : ∀ text, readValue (allowance + 2)
          (renderAt style (depth + 1) first ++ ',' :: text) = some (first, ',' :: text) :=
        fun text => back first List.mem_cons_self (depth + 1) (allowance + 1) _ (by omega)
          (endsNumeral_cons (by decide) text)
      rw [readElements_more ((readValue_space gap _ _).trans (first_read _)),
        ih (fun element mem => written element (List.mem_cons_of_mem first mem))
          (fun element mem => back element (List.mem_cons_of_mem first mem))
          (blank.gap (depth + 1)) (by omega)]
      rfl

theorem readName_nameWith (gap : IsGap space) (name : String) (text : List Char) :
    readName (space ++ (nameWith style name ++ text)) = some (name, style.afterColon ++ text) := by
  rw [readName, skipSpace_append gap, nameWith, quote]
  simp only [List.cons_append, List.append_assoc, List.nil_append]
  rw [skipSpace_cons (by decide)]
  simp only [unquote_escaped]
  rw [skipSpace_cons (by decide)]
  simp only [String.ofList_toList]

theorem readMembers_last {name : String} {value : Json} {after : List Char} (blank : IsGap space)
    (named : readName text = some (name, after))
    (read : readValue allowance after = some (value, space ++ '}' :: rest)) :
    readMembers (allowance + 1) text = some ([(name, value)], rest) := by
  simp only [readMembers, named, read, skipSpace_append blank]
  rw [skipSpace_cons (by decide)]
  rfl

theorem readMembers_more {name : String} {value : Json} {after : List Char}
    (named : readName text = some (name, after))
    (read : readValue allowance after = some (value, ',' :: rest)) :
    readMembers (allowance + 1) text =
      (readMembers allowance rest).map fun (others, rest) => ((name, value) :: others, rest) := by
  simp only [readMembers, named, read]
  rw [skipSpace_cons (by decide)]
  rfl

theorem readMembers_render (blank : style.IsBlank) {first : String × Json}
    {others : List (String × Json)} (written : ∀ member ∈ first :: others, IsWritten member.2)
    (back : ∀ member ∈ first :: others, IsReadBack style member.2) (gap : IsGap space)
    (rest : List Char) (enough : (renderAt style (depth + 1) first.2).length +
      (renderMembers style depth others).length ≤ allowance + 2) :
    readMembers (allowance + 2) (space ++ (nameWith style first.1 ++
      (renderAt style (depth + 1) first.2 ++ (renderMembers style depth others ++ rest)))) =
        some (first :: others, rest) := by
  induction others generalizing first space allowance with
  | nil =>
      rw [renderMembers, List.length_append, List.length_singleton] at enough
      rw [renderMembers, List.append_assoc, List.singleton_append]
      refine readMembers_last (blank.gap depth) (readName_nameWith gap first.1 _) ?_
      rw [readValue_space blank.afterColon]
      exact back first List.mem_cons_self (depth + 1) allowance _ (by omega)
        (endsNumeral_append (blank.gap depth) (endsNumeral_cons (by decide) rest))
  | cons second others ih =>
      have first_pos := length_renderAt_pos (written first List.mem_cons_self) style (depth + 1)
      obtain ⟨name, value⟩ := second
      have second_pos : 0 < (renderAt style (depth + 1) value).length := length_renderAt_pos
        (written (name, value) (List.mem_cons_of_mem first List.mem_cons_self)) style (depth + 1)
      rw [renderMembers] at enough ⊢
      simp only [List.cons_append, List.append_assoc, List.length_cons, List.length_append]
        at enough ⊢
      obtain ⟨allowance, rfl⟩ : ∃ less, allowance = less + 1 :=
        Nat.exists_eq_add_one.mpr (by omega)
      have first_read : ∀ text, readValue (allowance + 2)
          (renderAt style (depth + 1) first.2 ++ ',' :: text) = some (first.2, ',' :: text) :=
        fun text => back first List.mem_cons_self (depth + 1) (allowance + 1) _ (by omega)
          (endsNumeral_cons (by decide) text)
      rw [readMembers_more (readName_nameWith gap first.1 _)
          ((readValue_space blank.afterColon _ _).trans (first_read _)),
        ih (fun member mem => written member (List.mem_cons_of_mem first mem))
          (fun member mem => back member (List.mem_cons_of_mem first mem))
          (blank.gap (depth + 1)) (by dsimp only; omega)]
      rfl

theorem isReadBack_number (style : Style) {numeral : Numeral} (written : numeral.IsWritten) :
    IsReadBack style (.number numeral) := by
  intro depth allowance rest enough ends
  obtain ⟨c, text, eq, starts⟩ := exists_numeral_eq_cons written
  have read := readNumeral_render true written ends
  rw [eq] at read
  rw [renderAt, eq, List.cons_append, readValue_numeral starts, ← List.cons_append, read]
  rfl

theorem isReadBack_string (style : Style) (value : String) : IsReadBack style (.string value) := by
  intro depth allowance rest enough ends
  rw [renderAt, quote, List.cons_append, List.cons_append, List.append_assoc,
    List.singleton_append, readValue_quote, unquote_escaped]
  simp only [Option.map_some, String.ofList_toList]

theorem isReadBack_array (blank : style.IsBlank) {elements : List Json}
    (written : ∀ element ∈ elements, IsWritten element)
    (back : ∀ element ∈ elements, IsReadBack style element) :
    IsReadBack style (.array elements) := by
  intro depth allowance rest enough ends
  cases elements with
  | nil =>
      rw [renderAt]
      exact readValue_emptyList
  | cons first others =>
      have first_written := written first List.mem_cons_self
      have first_pos := length_renderAt_pos first_written style (depth + 1)
      have others_pos := length_renderElements_pos style depth others
      rw [renderAt] at enough ⊢
      simp only [List.cons_append, List.append_assoc, List.length_cons, List.length_append]
        at enough ⊢
      obtain ⟨allowance, rfl⟩ : ∃ less, allowance = less + 2 :=
        Nat.exists_eq_add_of_le' (by omega)
      have inner : (renderAt style (depth + 1) first).length +
          (renderElements style depth others).length ≤ allowance + 2 := by omega
      have read := readElements_render blank written back (List.forall_mem_nil _) rest inner
      rw [List.nil_append] at read
      rw [readValue_bracket (blank.gap (depth + 1))
        ((startsPart_renderAt first_written style (depth + 1)).append _), read]
      rfl

theorem isReadBack_object (blank : style.IsBlank) {members : List (String × Json)}
    (written : ∀ member ∈ members, IsWritten member.2)
    (back : ∀ member ∈ members, IsReadBack style member.2) :
    IsReadBack style (.object members) := by
  intro depth allowance rest enough ends
  cases members with
  | nil =>
      rw [renderAt]
      exact readValue_emptyObject
  | cons first others =>
      obtain ⟨name, value⟩ := first
      have first_pos : 0 < (renderAt style (depth + 1) value).length :=
        length_renderAt_pos (written (name, value) List.mem_cons_self) style (depth + 1)
      have others_pos := length_renderMembers_pos style depth others
      rw [renderAt] at enough ⊢
      simp only [List.cons_append, List.append_assoc, List.length_cons, List.length_append]
        at enough ⊢
      obtain ⟨allowance, rfl⟩ : ∃ less, allowance = less + 2 :=
        Nat.exists_eq_add_of_le' (by omega)
      have inner : (renderAt style (depth + 1) value).length +
          (renderMembers style depth others).length ≤ allowance + 2 := by omega
      have read := readMembers_render blank written back (List.forall_mem_nil _) rest inner
      rw [List.nil_append] at read
      have starts : StartsPart (nameWith style name) := ⟨'"', _, rfl, by decide⟩
      rw [readValue_brace (blank.gap (depth + 1)) (starts.append _), read]
      rfl

theorem isReadBack (blank : style.IsBlank) (written : value.IsWritten) :
    IsReadBack style value := by
  induction written with
  | null =>
      intro depth allowance rest enough ends
      rw [renderAt]
      exact readValue_null
  | bool value =>
      intro depth allowance rest enough ends
      cases value with
      | true =>
          rw [renderAt]
          exact readValue_true
      | false =>
          rw [renderAt]
          exact readValue_false
  | number written => exact isReadBack_number style written
  | string value => exact isReadBack_string style value
  | array written back => exact isReadBack_array blank written back
  | object written back => exact isReadBack_object blank written back

/-- A written value is the value of its text, also with white space behind it. -/
theorem parse?_render (blank : style.IsBlank) (written : value.IsWritten) (gap : IsGap space) :
    parse? (String.ofList (renderAt style 0 value ++ space)) = some value := by
  have ends : EndsNumeral space := by
    have ends := endsNumeral_append gap (fun _ mem => nomatch mem : EndsNumeral [])
    rwa [List.append_nil] at ends
  have read := isReadBack blank written 0 (2 * (renderAt style 0 value ++ space).length + 1) space
    (by rw [List.length_append]; omega) ends
  have end_reached : skipSpace space = [] := by
    have skipped := skipSpace_append gap []
    rwa [List.append_nil] at skipped
  simp only [parse?, String.toList_ofList, read, end_reached, List.isEmpty_nil, if_true]

end CodeGauge.Json
