import CodeGauge.Proofs.Syntax.Expressions
import CodeGauge.Syntax.Pattern

/-!
# Targets, parameters and case patterns account for their tokens

An expression that becomes a target shows what it showed before (`Node.Retells`), so the rules for
targets keep account of their tokens, and with them those for parameters and case patterns.
-/

namespace CodeGauge.Syntax

namespace Node

/-- Trees that show the same as others and are as whole. -/
structure Retells (before after : List Node) : Prop where
  marks : marksOf before = marksOf after
  whole : (∀ node ∈ before, node.IsWhole) → ∀ node ∈ after, node.IsWhole

theorem Retells.refl (nodes : List Node) : Retells nodes nodes := ⟨rfl, id⟩

theorem Retells.cons {first target : Node} {others targets : List Node}
    (head : Retells [first] [target]) (tail : Retells others targets) :
    Retells (first :: others) (target :: targets) := by
  refine ⟨?_, fun whole => ?_⟩
  · rw [marksOf_cons, marksOf_cons target, head.marks, tail.marks]
  · obtain ⟨first_whole, others_whole⟩ := List.forall_mem_cons.mp whole
    refine List.forall_mem_cons.mpr ⟨?_, tail.whole others_whole⟩
    exact head.whole (List.forall_mem_singleton.mpr first_whole) target List.mem_cons_self

theorem Retells.withKind {label : Label} {children targets : List Node} (kind : String)
    (old : label.kind ≠ "comment" ∧ label.kind ≠ "string")
    (new : kind ≠ "comment" ∧ kind ≠ "string") (below : Retells children targets) :
    Retells [.mk label children] [.mk { label with kind } targets] := by
  refine ⟨marksOf_withKind label kind old new below.marks, fun whole => ?_⟩
  obtain ⟨own, children_whole⟩ := isWhole_mk_iff.mp (whole _ List.mem_cons_self)
  exact List.forall_mem_singleton.mpr (isWhole_mk_iff.mpr ⟨own, below.whole children_whole⟩)

mutual

theorem toTarget?_retells :
    ∀ {node target : Node}, node.toTarget? = some target → Retells [node] [target]
  | mk label children, target, found => by
      rw [toTarget?] at found
      split at found
      · obtain rfl := Option.some.inj found
        exact .refl _
      · split at found
        · rename_i splat
          split at found
          · split at found
            · obtain rfl := Option.some.inj found
              exact .withKind _ (by simp [eq_of_beq splat]) (by decide) (.refl children)
            · exact absurd found (Option.some_ne_none _).symm
          · exact absurd found (Option.some_ne_none _).symm
        · split at found
          · rename_i bracket
            obtain ⟨targets, targets_eq, rfl⟩ := Option.map_eq_some_iff.mp found
            have old : label.kind ≠ "comment" ∧ label.kind ≠ "string" := by
              simp only [Bool.or_eq_true, beq_iff_eq] at bracket
              rcases bracket with kind | kind <;> simp [kind]
            exact .withKind _ old (by decide) (toTargets?_retells targets_eq)
          · split at found
            · rename_i bracket
              obtain ⟨targets, targets_eq, rfl⟩ := Option.map_eq_some_iff.mp found
              exact .withKind _ (by simp [eq_of_beq bracket]) (by decide)
                (toTargets?_retells targets_eq)
            · exact absurd found (Option.some_ne_none _).symm

theorem toTargets?_retells :
    ∀ {nodes targets : List Node}, toTargets? nodes = some targets → Retells nodes targets
  | [], targets, found => by
      rw [toTargets?] at found
      obtain rfl := Option.some.inj found
      exact .refl []
  | node :: others, targets, found => by
      rw [toTargets?] at found
      split at found
      · split at found
        · exact absurd found (Option.some_ne_none _).symm
        · rename_i target target_eq
          obtain ⟨rest, rest_eq, rfl⟩ := Option.map_eq_some_iff.mp found
          exact .cons (toTarget?_retells target_eq) (toTargets?_retells rest_eq)
      · obtain ⟨rest, rest_eq, rfl⟩ := Option.map_eq_some_iff.mp found
        exact .cons (.refl [node]) (toTargets?_retells rest_eq)

end

end Node

theorem Phrase.derives_toTargets? {phrase targets : Phrase}
    (found : phrase.toTargets? = some targets) : phrase.Derives targets := by
  refine Phrase.Derives.mapM (fun item changed changed_eq => ?_) found
  split at changed_eq
  · obtain ⟨node, node_eq, rfl⟩ := Option.map_eq_some_iff.mp changed_eq
    have retold := Node.toTarget?_retells node_eq
    refine .ofNode (retold.marks ▸ List.Subset.refl _) fun whole => ?_
    exact retold.whole (List.forall_mem_singleton.mpr whole) node List.mem_cons_self
  · obtain rfl := Option.some.inj changed_eq
    exact .refl item

namespace Grammar

open Reader

variable {self : Grammar} (kept : self.Keeps)
include kept

theorem keeps_singleTarget : (singleTarget self).Keeps Shape.IsPlain [] :=
  .refine (.ifNext (keeps_starredOperand kept) (keeps_trailed kept)) fun _ _ =>
    Phrase.derives_toTargets?

theorem keeps_target : (target self).Keeps Shape.IsPlain [] :=
  .bind (keeps_singleTarget kept) fun first =>
    .bind (.many (.append (keeps_sign _) (.notBefore (keeps_singleTarget kept)))) fun others =>
      .bind (.optional (keeps_sign _)) fun comma =>
        .pure (derives_row (by decide) first others comma)

theorem keeps_splatName : (splatName self).Keeps Shape.IsPlain [] :=
  .bind keeps_name (.grow fun left => .notBefore (keeps_trailer kept left))

theorem keeps_typedRest (left : Phrase) : (typedRest self left).Keeps Shape.IsPlain left :=
  .bind (.append (keeps_sign _) (.named (kept (.typeForm _)))) fun _ =>
    .ifNext
      (.map (.append (keeps_sign _) (.named (kept (.expression _)))) fun _ =>
        .wrap (by decide) (.append (.append (.named (.refl left)) (.refl _)) (.refl _)))
      (.pure (.wrap (by decide) (.refl _)))

theorem keeps_splatParameter (typed : Bool) {stars kind : String} (proper : kind ≠ "comment") :
    (splatParameter self typed stars kind).Keeps Shape.IsPlain [] := by
  refine .bind (.wrap proper (.append (keeps_sign _) (keeps_splatName kept))) fun left => ?_
  split
  · exact .ifNext
      (keeps_rest (by decide) (.append (keeps_sign _) (.named (kept (.typeForm _)))))
      (.pure (.refl left))
  · exact .pure (.refl left)

theorem keeps_defaultRest (left : Phrase) : (defaultRest self left).Keeps Shape.IsPlain left :=
  .ifNext
    (keeps_restNamed (by decide) (.append (keeps_sign _) (.named (kept (.expression _)))))
    (.pure (.refl left))

omit kept in
theorem keeps_separator (text kind : String) : (separator text kind).Keeps Shape.IsPlain [] :=
  .tokenIf .sign (fun _ => shape_of_isSign) (by decide)

theorem keeps_parameter (typed : Bool) : (parameter self typed).Keeps Shape.IsPlain [] := by
  refine .ifNext
    (.either (keeps_splatParameter kept typed (by decide)) (keeps_separator _ _)) <|
    .ifNext (keeps_splatParameter kept typed (by decide)) <|
      .ifNext (keeps_separator _ _) <|
        .ifNext (.bind (keeps_singleTarget kept) (keeps_defaultRest kept)) <|
          .bind keeps_name fun left => ?_
  split
  · exact .ifNext (keeps_typedRest kept left) (keeps_defaultRest kept left)
  · exact keeps_defaultRest kept left

theorem keeps_parameters : (parameters self).Keeps Shape.IsPlain [] :=
  .wrap (by decide) <| .bracketed <|
    .append
      (.append (keeps_sign _) (.optional (.notBefore
        (.listOf (keeps_sign _) (kept (.parameter _)) (kept (.parameter _))))))
      (keeps_sign _)

omit kept in
theorem keeps_dottedName : dottedName.Keeps Shape.IsPlain [] :=
  .wrap (by decide) (.append keeps_name (.many (.append (.joined (keeps_sign _)) keeps_name)))

omit kept in
theorem keeps_number : number.Keeps Shape.IsPlain [] :=
  .either (keeps_shape (by decide) _) (keeps_shape (by decide) _)

omit kept in
theorem keeps_numberPattern : numberPattern.Keeps Shape.IsPlain [] :=
  .bind (.append (.optional (keeps_sign _)) keeps_number) fun first =>
    .either (keeps_rest (by decide) (.append (keeps_anySign _) keeps_number))
      (.pure (.refl first))

omit kept in
theorem keeps_wildcard : wildcard.Keeps Shape.IsPlain [] :=
  .tokenIf .word (fun _ => shape_of_isWord) (by decide)

omit kept in
theorem keeps_splatPattern : splatPattern.Keeps Shape.IsPlain [] :=
  .wrap (by decide) (.append (keeps_anySign _) (.either keeps_wildcard keeps_name))

omit kept in
theorem keeps_bracketedPatterns {reader : Reader} (opening close : String)
    (reads : reader.Keeps Shape.IsPlain []) :
    (bracketedPatterns opening close reader).Keeps Shape.IsPlain [] :=
  .bracketed <|
    .append
      (.append (keeps_sign _) (.optional (.notBefore (.listOf (keeps_sign _) reads reads))))
      (keeps_sign _)

theorem keeps_classPattern : (classPattern self).Keeps Shape.IsPlain [] :=
  .bind keeps_dottedName fun name =>
    .ifNext (keeps_rest (by decide) (keeps_bracketedPatterns _ _ (kept .casePattern)))
      (.pure (.refl name))

theorem keeps_alternatives : (alternatives self).Keeps Shape.IsPlain [] :=
  .bind (kept .closedPattern) fun first =>
    .bind (.many (.append (keeps_sign _) (kept .closedPattern))) fun others =>
      .pure (derives_alone (by decide) first others)

theorem keeps_entryPattern : (entryPattern self).Keeps Shape.IsPlain [] :=
  .ifNext keeps_splatPattern <|
    .append (.append (.named (keeps_alternatives kept)) (keeps_sign _)) (.named (kept .casePattern))

theorem keeps_closedPattern : (closedPattern self).Keeps Shape.IsPlain [] := by
  have bracketed {kind opening close : String} {reader : Reader} (proper : kind ≠ "comment")
      (reads : reader.Keeps Shape.IsPlain []) :
      (wrap kind (bracketedPatterns opening close reader)).Keeps Shape.IsPlain [] :=
    .wrap proper (keeps_bracketedPatterns opening close reads)
  intro scope tokens phrase rest read
  unfold closedPattern at read
  split at read
  · exact absurd read (Option.some_ne_none _).symm
  · split at read
    · split_ifs at read
      · exact keeps_wildcard _ _ _ _ read
      · exact keeps_wordAtom _ _ _ _ read
      · exact keeps_classPattern kept _ _ _ _ read
    · exact keeps_strings kept _ _ _ _ read
    · exact keeps_numberPattern _ _ _ _ read
    · exact keeps_numberPattern _ _ _ _ read
    · split_ifs at read
      · exact keeps_numberPattern _ _ _ _ read
      · exact bracketed (by decide) (kept .casePattern) _ _ _ _ read
      · exact bracketed (by decide) (kept .casePattern) _ _ _ _ read
      · exact bracketed (by decide) (keeps_entryPattern kept) _ _ _ _ read
      · exact keeps_splatPattern _ _ _ _ read
    · exact absurd read (Option.some_ne_none _).symm

theorem keeps_keywordPattern : (keywordPattern self).Keeps Shape.IsPlain [] :=
  .wrap (by decide) (.append (.append keeps_name (keeps_sign _)) (keeps_alternatives kept))

theorem keeps_casePattern : (casePattern self).Keeps Shape.IsPlain [] :=
  .bind
    (.wrap (by decide) (.ifAhead (keeps_keywordPattern kept) (keeps_alternatives kept)))
    (.grow fun _ => .map (.append (keeps_word _) keeps_name) fun _ =>
      .wrap (by decide) (.wrap (by decide) (.refl _)))

end Grammar

end CodeGauge.Syntax
