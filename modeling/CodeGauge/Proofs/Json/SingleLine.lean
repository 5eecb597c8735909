import CodeGauge.Proofs.Json.RoundTrip
import CodeGauge.Text.Basic

/-!
# Values on single lines

Without white space the text of a value has no control characters (`isVisible_renderAt`), so values
that are written one a line are the lines of their text (`lines_flatMap`).
-/

namespace CodeGauge.Json

open Decimal

variable {depth : Nat} {text : List Char} {value : Json}

/-- Some text has no control characters. -/
def IsVisible (text : List Char) : Prop := ∀ c ∈ text, 0x20 ≤ c.toNat

instance (text : List Char) : Decidable (IsVisible text) := List.decidableBAll _ text

theorem isVisible_append_iff {first last : List Char} :
    IsVisible (first ++ last) ↔ IsVisible first ∧ IsVisible last :=
  List.forall_mem_append

theorem isVisible_cons_iff {c : Char} :
    IsVisible (c :: text) ↔ 0x20 ≤ c.toNat ∧ IsVisible text :=
  List.forall_mem_cons

theorem isVisible_nil : IsVisible [] := List.forall_mem_nil _

theorem isVisible_of_digits {digits : List Char} (digit : ∀ c ∈ digits, c.isDigit = true) :
    IsVisible digits := by
  intro c mem
  have bounds := digit c mem
  simp only [Char.isDigit, Bool.and_eq_true, decide_eq_true_eq] at bounds
  exact Nat.le_trans (by decide) (UInt32.le_iff_toNat_le.mp bounds.1)

theorem isVisible_numeral {numeral : Numeral} (written : numeral.IsWritten) :
    IsVisible (numeral.render true) := by
  have sign : IsVisible (if numeral.negative then ['-'] else []) := by
    cases numeral.negative <;> simp [IsVisible]
  have fraction : IsVisible (fractionText numeral.fraction) := by
    rw [fractionText]
    split
    · exact isVisible_nil
    · exact isVisible_cons_iff.mpr ⟨by decide, isVisible_of_digits written.fraction⟩
  have power : IsVisible (powerText true numeral.power) := by
    cases power : numeral.power with
    | none => exact isVisible_nil
    | some p =>
        have digits := isVisible_of_digits (written.power p power).digit
        cases negative : p.negative <;>
          simpa [powerText, Power.render, negative, isVisible_cons_iff] using digits
  rw [render_eq]
  simp only [isVisible_append_iff]
  exact ⟨sign, isVisible_of_digits written.whole.digit, fraction, power⟩

theorem isVisible_nameWith (name : String) : IsVisible (nameWith .compact name) := by
  rw [nameWith, isVisible_append_iff, isVisible_cons_iff]
  exact ⟨fun c mem => visible_of_mem_quote mem, by decide, isVisible_nil⟩

theorem isVisible_renderElements {elements : List Json}
    (visible : ∀ element ∈ elements, IsVisible (renderAt .compact (depth + 1) element)) :
    IsVisible (renderElements .compact depth elements) := by
  induction elements with
  | nil =>
      rw [renderElements]
      simp [IsVisible, Style.compact]
  | cons first others ih =>
      obtain ⟨first_visible, others_visible⟩ := List.forall_mem_cons.mp visible
      rw [renderElements]
      simp only [List.cons_append, isVisible_cons_iff, isVisible_append_iff]
      exact ⟨by decide, ⟨isVisible_nil, first_visible⟩, ih others_visible⟩

theorem isVisible_renderMembers {members : List (String × Json)}
    (visible : ∀ member ∈ members, IsVisible (renderAt .compact (depth + 1) member.2)) :
    IsVisible (renderMembers .compact depth members) := by
  induction members with
  | nil =>
      rw [renderMembers]
      simp [IsVisible, Style.compact]
  | cons first others ih =>
      obtain ⟨name, value⟩ := first
      obtain ⟨first_visible, others_visible⟩ := List.forall_mem_cons.mp visible
      rw [renderMembers]
      simp only [List.cons_append, isVisible_cons_iff, isVisible_append_iff]
      exact ⟨by decide, ⟨⟨isVisible_nil, isVisible_nameWith name⟩, first_visible⟩,
        ih others_visible⟩

/-- Without white space the text of a value has no control characters, so no line breaks. -/
theorem isVisible_renderAt (written : value.IsWritten) (depth : Nat) :
    IsVisible (renderAt .compact depth value) := by
  induction written generalizing depth with
  | null =>
      rw [renderAt]
      decide
  | bool value =>
      cases value <;> rw [renderAt] <;> decide
  | number written =>
      rw [renderAt]
      exact isVisible_numeral written
  | string value =>
      rw [renderAt]
      exact fun c mem => visible_of_mem_quote mem
  | @array elements _ visible =>
      cases elements with
      | nil =>
          rw [renderAt]
          decide
      | cons first others =>
          have others_visible : IsVisible (renderElements .compact depth others) :=
            isVisible_renderElements fun element mem =>
              visible element (List.mem_cons_of_mem first mem) (depth + 1)
          rw [renderAt]
          simp only [List.cons_append, isVisible_cons_iff, isVisible_append_iff]
          exact ⟨by decide, ⟨isVisible_nil, visible first List.mem_cons_self (depth + 1)⟩,
            others_visible⟩
  | @object members _ visible =>
      cases members with
      | nil =>
          rw [renderAt]
          decide
      | cons first others =>
          obtain ⟨name, value⟩ := first
          have others_visible : IsVisible (renderMembers .compact depth others) :=
            isVisible_renderMembers fun member mem =>
              visible member (List.mem_cons_of_mem _ mem) (depth + 1)
          rw [renderAt]
          simp only [List.cons_append, isVisible_cons_iff, isVisible_append_iff]
          exact ⟨by decide, ⟨⟨isVisible_nil, isVisible_nameWith name⟩,
            visible (name, value) List.mem_cons_self (depth + 1)⟩, others_visible⟩

theorem lines_visible {line : List Char} (visible : IsVisible line) (rest : List Char) :
    Text.lines (line ++ '\n' :: rest) = line :: Text.lines rest := by
  induction line with
  | nil => rw [List.nil_append, Text.lines]
  | cons c line ih =>
      obtain ⟨c_visible, line_visible⟩ := isVisible_cons_iff.mp visible
      rw [List.cons_append, Text.lines, ih line_visible]
      · rintro other rfl
        exact absurd c_visible (by decide)
      · rintro rfl
        exact absurd c_visible (by decide)

/-- Lines without control characters are the lines of their text. -/
theorem lines_flatMap {lines : List (List Char)} (visible : ∀ line ∈ lines, IsVisible line) :
    Text.lines (lines.flatMap (· ++ ['\n'])) = lines := by
  induction lines with
  | nil => rfl
  | cons line lines ih =>
      obtain ⟨line_visible, others_visible⟩ := List.forall_mem_cons.mp visible
      rw [List.flatMap_cons, List.append_assoc, List.singleton_append, lines_visible line_visible,
        ih others_visible]

end CodeGauge.Json
