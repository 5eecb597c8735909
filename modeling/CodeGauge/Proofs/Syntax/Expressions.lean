import CodeGauge.Proofs.Syntax.Readers

/-!
# Expressions account for their tokens

Each rule of the grammar for expressions and types keeps account of the tokens that it takes, if
the readers of the recursive rules do (`Grammar.Keeps`).  The proofs follow the definitions, part by
part.  Only strings take tokens that may not stand anywhere (`Reader.Keeps.enclosed`).
-/

namespace CodeGauge.Syntax

/-- What the reader of a rule takes.  A replacement field always stands in a string, so it may take
anything there; no rule makes comments. -/
def Rule.Keeps : Rule → Reader → Prop
  | .replacement kind, reader => kind ≠ "comment" → reader.Keeps (fun _ => True) []
  | _, reader => reader.Keeps Shape.IsPlain []

/-- The readers of the recursive rules account for every token that they take. -/
def Grammar.Keeps (self : Grammar) : Prop := ∀ rule : Rule, rule.Keeps (self rule)

namespace Grammar

open Reader

variable {self : Grammar}

variable {kind close : String} {free : Shape → Prop} {reader : Reader}

/-- A phrase that becomes a node of its own only if others follow it. -/
theorem derives_alone (proper : kind ≠ "comment") (first others : Phrase) :
    Phrase.Derives (first ++ others)
      (if others.isEmpty then first else Phrase.wrap kind (first ++ others)) := by
  cases others with
  | nil =>
      rw [List.append_nil]
      exact .refl first
  | cons => exact .wrap proper (.refl _)

/-- A phrase that becomes a node of its own only if others or a comma follow it. -/
theorem derives_row (proper : kind ≠ "comment") (first others comma : Phrase) :
    Phrase.Derives (first ++ others ++ comma)
      (if others.isEmpty && comma.isEmpty then first
        else Phrase.wrap kind (first ++ others ++ comma)) := by
  cases others with
  | nil =>
      rw [List.append_nil]
      exact derives_alone proper first comma
  | cons => exact .wrap proper (.refl _)

theorem keeps_rest (proper : kind ≠ "comment") {left : Phrase} (reads : reader.Keeps free []) :
    (reader.map fun rest => Phrase.wrap kind (left ++ rest)).Keeps free left :=
  reads.map fun _ => .wrap proper (.refl _)

theorem keeps_restNamed (proper : kind ≠ "comment") {left : Phrase} {field : String}
    (reads : reader.Keeps free []) :
    (reader.map fun rest => Phrase.wrap kind (Phrase.named field left ++ rest)).Keeps free left :=
  reads.map fun _ => .wrap proper (.append (.named (.refl left)) (.refl _))

variable (kept : self.Keeps)
include kept

omit kept in
theorem keeps_hidden (shape : Shape) :
    ((Reader.shape shape "").map (List.map Item.hide)).Keeps (fun _ => True) [] := by
  intro scope tokens phrase rest read
  obtain ⟨begun, begun_read, rfl⟩ := map_eq_some_iff.mp read
  obtain ⟨first, kind, isNamed, rfl, -, rfl⟩ := token_eq_some begun_read
  exact takes_item rest trivial rfl (Node.isWhole_leaf kind isNamed _ _)

omit kept in
theorem keeps_contentPiece : contentPiece.Keeps (fun _ => True) [] :=
  .either (keeps_hidden _) <| .either (keeps_shape trivial _) <|
    .either (keeps_shape trivial _) <| .token fun _ _ => trivial

theorem keeps_expressions : (expressions self).Keeps Shape.IsPlain [] :=
  .bind (kept (.expression _)) fun first =>
    .bind (.many (.append (.joined (keeps_sign _)) (.joined (kept (.expression _))))) fun others =>
      .bind (.optional (.joined (keeps_sign _))) fun comma =>
        .pure (derives_row (by decide) first others comma)

theorem keeps_yieldExpression : (yieldExpression self).Keeps Shape.IsPlain [] :=
  .wrap (by decide) <| .append (keeps_word _) <|
    .either (.append (.joined (keeps_word _)) (kept (.expression _)))
      (.optional (.joined (keeps_expressions kept)))

theorem keeps_yieldOr (reads : reader.Keeps Shape.IsPlain []) :
    (yieldOr self reader).Keeps Shape.IsPlain [] :=
  .ifNext (keeps_yieldExpression kept) reads

theorem keeps_formatSpecifier : (formatSpecifier self).Keeps (fun _ => True) [] :=
  .wrap (by decide) <| .append (.anything (keeps_sign _)) <|
    .many (.either (keeps_hidden _) (kept (.replacement _) (by decide)))

theorem keeps_replacementField (proper : kind ≠ "comment") :
    (replacementField self kind).Keeps (fun _ => True) [] :=
  .wrap proper <| .bracketed <|
    (((((keeps_sign _).anything.append
      (.anything (.named (keeps_yieldOr kept (keeps_expressions kept))))).append
        (.optional (keeps_sign _).anything)).append
          (.optional (.named (keeps_shape trivial _)))).append
            (.optional (.named (keeps_formatSpecifier kept)))).append (keeps_sign _).anything

theorem keeps_string : (string self).Keeps Shape.IsPlain [] :=
  .enclosed <| .many <|
    .either (kept (.replacement _) (by decide)) (.wrap (by decide) (.oneOrMore keeps_contentPiece))

theorem keeps_strings : (strings self).Keeps Shape.IsPlain [] :=
  .bind (keeps_string kept) fun first =>
    .bind (.many (.joined (keeps_string kept))) fun others =>
      .pure (derives_alone (by decide) first others)

theorem keeps_starred : (starred self).Keeps Shape.IsPlain [] :=
  .wrap (by decide) (.append (keeps_sign _) (kept (.expression _)))

theorem keeps_doubleStarred : (doubleStarred self).Keeps Shape.IsPlain [] :=
  .wrap (by decide) (.append (keeps_sign _) (kept (.expression _)))

theorem keeps_element : (element self).Keeps Shape.IsPlain [] :=
  .ifNext (keeps_starred kept) (keeps_yieldOr kept (kept (.expression _)))

theorem keeps_comprehensionLoop : (comprehensionLoop self).Keeps Shape.IsPlain [] :=
  .wrap (by decide) <|
    (((((Keeps.optional (keeps_word _)).append (keeps_word _)).append
      (.named (kept .target))).append (keeps_word _)).append
        (.named (.separated (keeps_sign _) (kept .iterable)))).append (.optional (keeps_sign _))

theorem keeps_comprehensionCondition : (comprehensionCondition self).Keeps Shape.IsPlain [] :=
  .wrap (by decide) (.append (keeps_word _) (kept (.expression _)))

theorem keeps_comprehensionClauses : (comprehensionClauses self).Keeps Shape.IsPlain [] :=
  .append (keeps_comprehensionLoop kept) <|
    .many (.ifNext (keeps_comprehensionCondition kept) (keeps_comprehensionLoop kept))

theorem keeps_comprehension (proper : kind ≠ "comment") (opening body : Phrase) :
    (comprehension self kind close opening body).Keeps Shape.IsPlain (opening ++ body) :=
  .map (.append (keeps_comprehensionClauses kept) (keeps_sign _)) fun _ =>
    .wrap proper (.append (.append (.refl opening) (.named (.refl body))) (.refl _))

omit kept in
theorem keeps_display (proper : kind ≠ "comment") (reads : reader.Keeps Shape.IsPlain [])
    (opening first : Phrase) :
    (display kind close reader opening first).Keeps Shape.IsPlain (opening ++ first) :=
  keeps_rest proper <|
    ((Keeps.many (.append (keeps_sign _) reads)).append (.optional (keeps_sign _))).append
      (keeps_sign _)

omit kept in
theorem keeps_emptyDisplay (proper : kind ≠ "comment") (opening : Phrase) :
    (emptyDisplay kind close opening).Keeps Shape.IsPlain opening :=
  keeps_rest proper (keeps_sign _)

theorem keeps_roundBrackets : (roundBrackets self).Keeps Shape.IsPlain [] :=
  .bracketed <| .bind (keeps_sign _) fun opening =>
    .ifNext (keeps_emptyDisplay (by decide) opening) <|
      .ifNext
        (.bind (keeps_starred kept) (keeps_display (by decide) (keeps_element kept) opening)) <|
        .bind (keeps_yieldOr kept (kept (.expression _))) fun first =>
          .ifAhead (keeps_comprehension kept (by decide) opening first) <|
            .ifNext (keeps_display (by decide) (keeps_element kept) opening first) <|
              keeps_rest (by decide) (keeps_sign _)

theorem keeps_squareBrackets : (squareBrackets self).Keeps Shape.IsPlain [] :=
  .bracketed <| .bind (keeps_sign _) fun opening =>
    .ifNext (keeps_emptyDisplay (by decide) opening) <|
      .bind (keeps_element kept) fun first =>
        .ifAhead (keeps_comprehension kept (by decide) opening first)
          (keeps_display (by decide) (keeps_element kept) opening first)

theorem keeps_pairAfter (key : Phrase) : (pairAfter self key).Keeps Shape.IsPlain key :=
  keeps_restNamed (by decide) (.append (keeps_sign _) (.named (kept (.expression _))))

theorem keeps_entry : (entry self).Keeps Shape.IsPlain [] :=
  .ifNext (keeps_doubleStarred kept) (.bind (kept (.expression _)) (keeps_pairAfter kept))

theorem keeps_curlyBrackets : (curlyBrackets self).Keeps Shape.IsPlain [] :=
  .bracketed <| .bind (keeps_sign _) fun opening =>
    .ifNext (keeps_emptyDisplay (by decide) opening) <|
      .ifNext (keeps_rest (by decide) (.append (keeps_sign _) (keeps_sign _))) <|
        .ifNext
          (.bind (keeps_doubleStarred kept)
            (keeps_display (by decide) (keeps_entry kept) opening)) <|
          .bind (keeps_element kept) fun first =>
            .ifNext
              (.bind_rest (keeps_pairAfter kept first) fun pair =>
                .ifAhead (keeps_comprehension kept (by decide) opening pair)
                  (keeps_display (by decide) (keeps_entry kept) opening pair)) <|
              .ifAhead (keeps_comprehension kept (by decide) opening first)
                (keeps_display (by decide) (keeps_element kept) opening first)

omit kept in
theorem keeps_wordAtom : wordAtom.Keeps Shape.IsPlain [] := by
  refine .token fun first chosen => ?_
  have worded : first.shape = .word := by
    by_contra other
    simp [other] at chosen
  exact worded ▸ (by decide : Shape.IsPlain .word)

theorem keeps_atom : (atom self).Keeps Shape.IsPlain [] := by
  intro scope tokens phrase rest read
  unfold atom at read
  split at read
  · exact absurd read (Option.some_ne_none _).symm
  · split at read
    · exact keeps_wordAtom _ _ _ _ read
    · exact keeps_shape (by decide) _ _ _ _ _ read
    · exact keeps_shape (by decide) _ _ _ _ _ read
    · exact keeps_strings kept _ _ _ _ read
    · rename_i signed
      split_ifs at read
      · exact keeps_roundBrackets kept _ _ _ _ read
      · exact keeps_squareBrackets kept _ _ _ _ read
      · exact keeps_curlyBrackets kept _ _ _ _ read
      · obtain ⟨token, kind, isNamed, token_eq, -, rfl⟩ := token_eq_some read
        obtain ⟨rfl, rfl⟩ := List.cons_eq_cons.mp token_eq
        exact takes_item _ (signed ▸ (by decide : Shape.IsPlain .sign)) rfl
          (Node.isWhole_leaf kind isNamed _ _)
    · exact absurd read (Option.some_ne_none _).symm

theorem keeps_keywordArgument : (keywordArgument self).Keeps Shape.IsPlain [] :=
  .wrap (by decide) <|
    .append (.append (.named (keeps_nameExcept _)) (keeps_sign _)) (.named (kept (.expression _)))

theorem keeps_argument : (argument self).Keeps Shape.IsPlain [] :=
  .ifNext (keeps_starred kept) <| .ifNext (keeps_doubleStarred kept) <|
    .ifAhead (keeps_keywordArgument kept) (kept (.expression _))

theorem keeps_arguments : (arguments self).Keeps Shape.IsPlain [] :=
  .bracketed <| .bind (keeps_sign _) fun opening =>
    .ifNext (keeps_emptyDisplay (by decide) opening) <|
      .ifNext (keeps_rest (by decide) (.append (keeps_sign _) (keeps_sign _))) <|
        .bind (keeps_argument kept) fun first =>
          .ifAhead (keeps_comprehension kept (by decide) opening first)
            (keeps_display (by decide) (keeps_argument kept) opening first)

theorem keeps_index : (index self).Keeps Shape.IsPlain [] :=
  .bind (.ifNext .empty (kept (.expression _))) fun lower =>
    .ifNext
      (keeps_rest (by decide) <|
        ((keeps_sign _).append (.optional (kept (.expression _)))).append
          (.optional (.append (keeps_sign _) (.optional (kept (.expression _))))))
      (.pure (.refl lower))

theorem keeps_subscript : (subscript self).Keeps Shape.IsPlain [] :=
  .bracketed <|
    .append
      (.append (keeps_sign _)
        (.listOf (keeps_sign _) (.named (keeps_index kept)) (.named (keeps_index kept))))
      (keeps_sign _)

theorem keeps_trailer (left : Phrase) : (trailer self left).Keeps Shape.IsPlain left :=
  .joined <|
    .ifNext (keeps_restNamed (by decide) (.append (keeps_sign _) (.named keeps_name))) <|
      .ifNext (keeps_restNamed (by decide) (keeps_subscript kept))
        (keeps_restNamed (by decide) (.named (keeps_arguments kept)))

theorem keeps_trailed : (trailed self).Keeps Shape.IsPlain [] :=
  .bind (keeps_atom kept) (.grow (keeps_trailer kept))

theorem keeps_awaitOr (reads : reader.Keeps Shape.IsPlain []) :
    (awaitOr self reader).Keeps Shape.IsPlain [] := by
  have awaits : (wrap "await" (word "await" ++ self (.primary Strength.unary))).Keeps
      Shape.IsPlain [] := .wrap (by decide) (.append (keeps_word _) (kept (.primary _)))
  intro scope tokens phrase rest read
  unfold awaitOr at read
  split at read
  · split at read
    · exact awaits _ _ _ _ read
    · exact reads _ _ _ _ read
  · exact absurd read (Option.some_ne_none _).symm

theorem keeps_starredOperand : (starredOperand self).Keeps Shape.IsPlain [] :=
  .wrap (by decide) (.append (keeps_sign _) (.filtered (keeps_trailed kept)))

theorem keeps_operand : (operand self).Keeps Shape.IsPlain [] :=
  .ifNext
    (.wrap (by decide) (.append (.named (keeps_anySign _)) (.named (kept (.primary _))))) <|
    .ifNext (keeps_starredOperand kept) (keeps_awaitOr kept (keeps_trailed kept))

theorem keeps_binaryRest (floor : Nat) (left : Phrase) :
    (binaryRest self floor left).Keeps Shape.IsPlain left := by
  intro scope tokens phrase rest read
  unfold binaryRest at read
  split at read
  · exact absurd read (Option.some_ne_none _).symm
  · split at read
    · exact absurd read (Option.some_ne_none _).symm
    · split at read
      · exact absurd read (Option.some_ne_none _).symm
      · split at read
        · exact absurd read (Option.some_ne_none _).symm
        · exact keeps_restNamed (by decide)
            (.append (.named (keeps_sign _)) (.named (kept (.primary _)))) _ _ _ _ read

theorem keeps_primary (floor : Nat) : (primary self floor).Keeps Shape.IsPlain [] :=
  .bind (keeps_operand kept) (.grow (keeps_binaryRest kept floor))

omit kept in
theorem keeps_comparingSign : comparingSign.Keeps Shape.IsPlain [] := by
  refine .ifNext (.map (.append (keeps_word _) (keeps_word _)) fun phrase => ?_) <|
    .ifNext (.map (.append (keeps_word _) (.optional (keeps_word _))) fun phrase => ?_) <|
      .either (keeps_word _) (keeps_anySign _)
  · exact .wrapAs (by decide) (.refl phrase)
  · split
    · exact .refl phrase
    · exact .wrapAs (by decide) (.refl phrase)

theorem keeps_comparison : (comparison self).Keeps Shape.IsPlain [] :=
  .bind (kept (.primary _)) fun left =>
    .bind (.many (.append (.joined (.named keeps_comparingSign)) (kept (.primary _))))
      fun others => .pure (derives_alone (by decide) left others)

theorem keeps_lambdaWith (reads : reader.Keeps Shape.IsPlain []) :
    (lambdaWith self reader).Keeps Shape.IsPlain [] :=
  .wrap (by decide) <|
    (((keeps_word _).append
      (.inner (.optional (.notBefore (.named (.wrap (by decide)
        (.listOf (keeps_sign _) (kept (.parameter _)) (kept (.parameter _))))))))).append
          (.inner (keeps_sign _))).append (.named reads)

theorem keeps_simpleExpression : (simpleExpression self).Keeps Shape.IsPlain [] :=
  .ifNext (.wrap (by decide) (.append (keeps_word _) (.named (kept (.expression _))))) <|
    .ifNext (keeps_lambdaWith kept (kept (.expression _))) <|
      .ifAhead
        (.wrap (by decide)
          (.append (.append (.named keeps_name) (keeps_sign _)) (.named (kept (.expression _)))))
        (keeps_comparison kept)

theorem keeps_booleanRest (keyword : String) (strength : Nat) (left : Phrase) :
    (booleanRest self keyword strength left).Keeps Shape.IsPlain left :=
  keeps_restNamed (by decide) (.append (.named (keeps_word _)) (.named (kept (.expression _))))

theorem keeps_conditionalRest (left : Phrase) :
    (conditionalRest self left).Keeps Shape.IsPlain left :=
  keeps_rest (by decide) <|
    .append (.append (keeps_word _) (.inner (.append (kept (.expression _)) (keeps_word _))))
      (kept (.expression _))

theorem keeps_aliasRest (left : Phrase) : (aliasRest self left).Keeps Shape.IsPlain left :=
  keeps_rest (by decide) <|
    .append (keeps_word _) (.named (.wrap (by decide) (kept (.expression _))))

theorem keeps_expressionRest (floor : Nat) (left : Phrase) :
    (expressionRest self floor left).Keeps Shape.IsPlain left := by
  intro scope tokens phrase rest read
  unfold expressionRest at read
  split at read
  · exact absurd read (Option.some_ne_none _).symm
  · split_ifs at read
    · exact keeps_booleanRest kept _ _ left _ _ _ _ read
    · exact keeps_booleanRest kept _ _ left _ _ _ _ read
    · exact keeps_conditionalRest kept left _ _ _ _ read
    · exact keeps_aliasRest kept left _ _ _ _ read

theorem keeps_expression (floor : Nat) : (expression self floor).Keeps Shape.IsPlain [] :=
  .bind (keeps_simpleExpression kept) (.grow (keeps_expressionRest kept floor))

theorem keeps_iterable : (iterable self).Keeps Shape.IsPlain [] :=
  .ifNext (keeps_lambdaWith kept (kept .iterable)) (kept (.expression _))

theorem keeps_typeArguments : (typeArguments self).Keeps Shape.IsPlain [] :=
  .wrap (by decide) <| .bracketed <|
    .append
      (.append (keeps_sign _) (.listOf (keeps_sign _) (kept (.typeForm _)) (kept (.typeForm _))))
      (keeps_sign _)

omit kept in
theorem derives_splatType (phrase : Phrase) : Phrase.Derives phrase (splatType phrase) := by
  refine .map (fun item => ?_) phrase
  split
  · rename_i label star operand below node_eq
    split
    · rename_i splat
      have splat_kind : label.kind = "list_splat" := by
        simp only [Bool.and_eq_true, beq_iff_eq] at splat
        exact splat.1
      refine .ofNode ?_ fun whole => (node_eq ▸ whole).withLabel id
      rw [node_eq, marksOf_withKind label "splat_type" (by simp [splat_kind]) (by decide) rfl]
      exact List.Subset.refl _
    · exact .refl item
  · exact .refl item

theorem keeps_simpleType : (simpleType self).Keeps Shape.IsPlain [] :=
  .ifJoined
    (.wrap (by decide) (.append keeps_name (.joined (keeps_typeArguments kept)))) <|
    .ifNext (.wrap (by decide) (.append (keeps_sign _) keeps_name)) <|
      .ifNext (.map (kept (.expression _)) derives_splatType) (kept (.expression _))

theorem keeps_typeRest (left : Phrase) : (typeRest self left).Keeps Shape.IsPlain left :=
  .joined <|
    .ifNext
      (.map (.append (keeps_sign _) (.wrap (by decide) (keeps_simpleType kept))) fun _ =>
        .wrap (by decide) (.wrap (by decide) (.refl _)))
      (.map (.append (keeps_sign _) keeps_name) fun _ =>
        .wrap (by decide) (.wrap (by decide) (.refl _)))

theorem keeps_constraintRest (left : Phrase) :
    (constraintRest self left).Keeps Shape.IsPlain left :=
  .map (.append (.joined (keeps_sign _)) (kept (.typeForm _))) fun _ =>
    .wrap (by decide) (.wrap (by decide) (.refl _))

theorem keeps_typeForm (constrained : Bool) :
    (typeForm self constrained).Keeps Shape.IsPlain [] := by
  refine .bind (.bind (.wrap (by decide) (keeps_simpleType kept)) (.grow (keeps_typeRest kept)))
    fun left => ?_
  split
  · exact .either (keeps_constraintRest kept left) (.pure (.refl left))
  · exact .pure (.refl left)

end Grammar

end CodeGauge.Syntax
