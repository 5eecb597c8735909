import CodeGauge.Proofs.Syntax.Patterns
import CodeGauge.Proofs.Syntax.Scanning
import CodeGauge.Syntax.Statement

/-!
# Statements and modules account for their tokens

Each rule for statements and blocks keeps account of the tokens that it takes, so every unfolding of
the grammar does as well (`Grammar.keeps_unfolded`).  The tree of a text is that of a module or a
single error node, and it is flagged rightly (`isFlagged_read`).  A hash with only blank characters
before it on its line shows in a module as a comment or lies in a string (`mark_of_hash`).
-/

namespace CodeGauge.Syntax.Grammar

open Reader

variable {self : Grammar} (kept : self.Keeps)
include kept

omit kept in
theorem derives_leftSide? {phrase left : Phrase} (found : leftSide? phrase = some left) :
    phrase.Derives left := by
  obtain ⟨targets, targets_eq, rfl⟩ := Option.map_eq_some_iff.mp found
  refine .named ?_
  split
  · exact Phrase.derives_toTargets? targets_eq
  · exact .wrap (by decide) (Phrase.derives_toTargets? targets_eq)

theorem keeps_assignmentRest (phrase : Phrase) :
    (assignmentRest self phrase).Keeps Shape.IsPlain phrase := by
  unfold assignmentRest
  split
  · exact .fail
  · rename_i left found
    have joins {kind : String} (proper : kind ≠ "comment") (rest : Phrase) :
        Phrase.Derives (phrase ++ rest) (Phrase.wrap kind (left ++ rest)) :=
      .wrap proper (.append (derives_leftSide? found) (.refl rest))
    exact .joined <|
      .ifNext
        (.map (.append (keeps_sign _) (.named (kept .rightSide))) (joins (by decide))) <|
        .ifNext
          (.map
            (.append (.append (keeps_sign _) (.named (kept (.typeForm _))))
              (.optional (.append (.joined (keeps_sign _)) (.named (kept .rightSide)))))
            (joins (by decide))) <|
          .map (.append (.named (keeps_anySign _)) (.named (kept .rightSide)))
            (joins (by decide))

theorem keeps_expressionRow : (expressionRow self).Keeps Shape.IsPlain [] :=
  .listOf (keeps_sign _) (kept (.expression _)) (kept (.expression _))

theorem keeps_assignmentOr {finish : Phrase → Phrase}
    (derived : ∀ phrase : Phrase, phrase.Derives (finish phrase)) :
    (assignmentOr self finish).Keeps Shape.IsPlain [] :=
  .bind (keeps_expressionRow kept) fun row =>
    .ite (keeps_assignmentRest kept row) (.pure (derived row))

theorem keeps_rightSide : (rightSide self).Keeps Shape.IsPlain [] := by
  refine keeps_yieldOr kept (keeps_assignmentOr kept fun row => ?_)
  split
  · exact .refl row
  · exact .wrap (by decide) (.refl row)

theorem keeps_expressionStatement : (expressionStatement self).Keeps Shape.IsPlain [] :=
  .wrap (by decide) (keeps_yieldOr kept (keeps_assignmentOr kept .refl))

omit kept in
theorem keeps_importList : importList.Keeps Shape.IsPlain [] := by
  unfold importList
  extract_lets imported
  have imports : imported.Keeps Shape.IsPlain [] :=
    .named <| .bind keeps_dottedName fun name =>
      .either
        (keeps_restNamed (by decide) (.append (.joined (keeps_word _)) (.named keeps_name)))
        (.pure (.refl name))
  exact .listOf (keeps_sign _) imports imports

omit kept in
theorem keeps_importNames : importNames.Keeps Shape.IsPlain [] :=
  .ifNext (.bracketed (.append (.append (keeps_sign _) keeps_importList) (keeps_sign _)))
    keeps_importList

omit kept in
theorem keeps_importDots : importDots.Keeps Shape.IsPlain [] := by
  refine .wrap (by decide) (.oneOrMore fun scope tokens phrase rest read => ?_)
  have plain {text : String} {token : Token} (signed : isSign text token = true) :
      token.shape.IsPlain := shape_of_isSign signed ▸ (by decide : Shape.IsPlain .sign)
  have whole (start stop : Place) : (leaf "." false start stop).IsWhole :=
    Node.isWhole_leaf "." false start stop
  split at read
  · exact absurd read (Option.some_ne_none _).symm
  · rename_i token others
    split at read
    · exact absurd read (Option.some_ne_none _).symm
    · split at read
      · rename_i dot
        obtain ⟨rfl, rfl⟩ := Prod.mk.inj (Option.some.inj read)
        exact takes_item others (plain dot) rfl (whole _ _)
      · split at read
        · rename_i dots
          obtain ⟨rfl, rfl⟩ := Prod.mk.inj (Option.some.inj read)
          refine (takes_item others (plain dots) rfl (whole _ _)).derive
            (.concat [_] fun item mem => ?_)
          simp only [List.mem_cons, List.not_mem_nil, or_false] at mem
          rcases mem with rfl | rfl <;>
            exact ⟨fun _ mem => absurd mem List.not_mem_nil, whole _ _⟩
        · exact absurd read (Option.some_ne_none _).symm

omit kept in
theorem keeps_relativeImport : relativeImport.Keeps Shape.IsPlain [] :=
  .wrap (by decide) (.append keeps_importDots (.optional (.notBefore keeps_dottedName)))

omit kept in
theorem keeps_importFrom : importFrom.Keeps Shape.IsPlain [] :=
  .ifAhead
    (.wrap (by decide)
      (.append (.append (keeps_word _) (.inner (.append (keeps_word _) (keeps_word _))))
        keeps_importNames)) <|
    .wrap (by decide) <|
      .append
        (.append (keeps_word _)
          (.inner (.append (.named (.ifNext keeps_relativeImport keeps_dottedName))
            (keeps_word _))))
        (.ifNext (.wrap (by decide) (keeps_sign _)) keeps_importNames)

theorem keeps_printStatement : (printStatement self).Keeps Shape.IsPlain [] := by
  have argument : (named "argument" (self (.expression Strength.weakest))).Keeps
      Shape.IsPlain [] := .named (kept (.expression _))
  have more := (Keeps.many (.append (.joined (keeps_sign ",")) argument.joined)).append
    (.optional (.joined (keeps_sign ",")))
  exact .wrap (by decide) <| .append (keeps_word _) <| .joined <|
    .ifNext (.append (.wrap (by decide) (.append (keeps_sign _) (kept (.expression _)))) more)
      (argument.append more)

theorem keeps_execStatement : (execStatement self).Keeps Shape.IsPlain [] :=
  .wrap (by decide) <|
    .append
        (.append (keeps_word _) (.joined (.named (.either (keeps_string kept) keeps_name)))) <|
      .optional
        (.append (.joined (keeps_word _)) (.separated (keeps_sign _) (kept (.expression _))))

theorem keeps_typeAlias : (typeAlias self).Keeps Shape.IsPlain [] :=
  .wrap (by decide) <|
    .append (.append (.append (keeps_word _) (.joined (.named (kept (.typeForm _)))))
      (keeps_sign _)) (.named (kept (.typeForm _)))

theorem keeps_softly {reader : Reader} (reads : reader.Keeps Shape.IsPlain []) :
    (softly self reader).Keeps Shape.IsPlain [] := by
  intro scope tokens phrase rest read
  unfold softly at read
  split at read
  · exact keeps_expressionStatement kept _ _ _ _ read
  · rename_i found
    split at read
    · exact reads _ _ _ _ (found.trans read)
    · exact keeps_expressionStatement kept _ _ _ _ read

theorem keeps_lastly {reader : Reader} (reads : reader.Keeps Shape.IsPlain []) :
    (lastly self reader).Keeps Shape.IsPlain [] := by
  intro scope tokens phrase rest read
  unfold lastly at read
  split at read
  · exact reads _ _ _ _ read
  · rename_i found
    split at read
    · exact keeps_expressionStatement kept _ _ _ _ (found.trans read)
    · exact reads _ _ _ _ read

theorem keeps_raiseStatement : (raiseStatement self).Keeps Shape.IsPlain [] :=
  .wrap (by decide) <|
    .append
      (.append (keeps_word _) (.optional (.joined (.notBefore (keeps_expressions kept)))))
      (.optional (.append (.joined (keeps_word _)) (.named (kept (.expression _)))))

omit kept in
theorem keeps_names : names.Keeps Shape.IsPlain [] := .separated (keeps_sign _) keeps_name

theorem keeps_simpleStatement : (simpleStatement self).Keeps Shape.IsPlain [] := by
  intro scope tokens phrase rest read
  unfold simpleStatement at read
  dsimp only at read
  split at read
  · exact Keeps.fail _ _ _ _ read
  · split at read
    · exact keeps_expressionStatement kept _ _ _ _ read
    · refine (?_ : Reader.Keeps Shape.IsPlain [] _) scope _ phrase rest read
      split
      · exact .wrap (by decide) (.append (keeps_word _) keeps_importList)
      · exact keeps_importFrom
      · exact .wrap (by decide)
          (.append (keeps_word _) (.separated (keeps_sign _) (kept (.expression _))))
      · exact .wrap (by decide)
          (.append (keeps_word _) (.optional (.joined (keeps_expressions kept))))
      · exact .wrap (by decide) (.append (keeps_word _) (keeps_expressions kept))
      · exact keeps_raiseStatement kept
      · exact .wrap (by decide) (keeps_word _)
      · exact .wrap (by decide) (keeps_word _)
      · exact .wrap (by decide) (keeps_word _)
      · exact .wrap (by decide) (.append (keeps_word _) keeps_names)
      · exact .wrap (by decide) (.append (keeps_word _) keeps_names)
      · exact .ifJoined (keeps_printStatement kept) (keeps_lastly kept (keeps_printStatement kept))
      · exact keeps_lastly kept (keeps_execStatement kept)
      · exact keeps_softly kept (keeps_typeAlias kept)
      · exact keeps_expressionStatement kept

theorem keeps_simpleStatements : (simpleStatements self).Keeps Shape.IsPlain [] :=
  .lined <|
    .append
      (.append
        (.append (keeps_simpleStatement kept)
          (.many (.append (.joined (keeps_sign _)) (.joined (keeps_simpleStatement kept)))))
        (.optional (.joined (keeps_sign _))))
      keeps_newline

theorem keeps_block : (block self).Keeps Shape.IsPlain [] :=
  .wrap (by decide) (.append (.many (.staying (kept .statement))) keeps_dedent)

theorem keeps_suite : (suite self).Keeps Shape.IsPlain [] :=
  .ite (.indented (keeps_block kept)) <|
    .ite (.wrap (by decide) keeps_newline) (.wrap (by decide) (keeps_simpleStatements kept))

omit kept in
theorem keeps_header {reader : Reader} (reads : reader.Keeps Shape.IsPlain []) :
    (header reader).Keeps Shape.IsPlain [] :=
  .within (.append reads (keeps_sign _))

theorem keeps_elseClause : (elseClause self).Keeps Shape.IsPlain [] :=
  .wrap (by decide) (.append (keeps_header (keeps_word _)) (.named (keeps_suite kept)))

theorem keeps_ifStatement : (ifStatement self).Keeps Shape.IsPlain [] := by
  have clause (keyword : String) :
      (header (word keyword ++ named "condition" (self (.expression Strength.weakest))) ++
        named "consequence" (suite self)).Keeps Shape.IsPlain [] :=
    .append (keeps_header (.append (keeps_word _) (.named (kept (.expression _)))))
      (.named (keeps_suite kept))
  exact .wrap (by decide) <|
    .append (.append (clause "if") (.many (.named (.wrap (by decide) (clause "elif")))))
      (.optional (.named (keeps_elseClause kept)))

theorem keeps_forStatement : (forStatement self).Keeps Shape.IsPlain [] :=
  .wrap (by decide) <|
    .append
      (.append
        (keeps_header
          ((((Keeps.optional (keeps_word _)).append (keeps_word _)).append
            (.named (kept .target))).append (keeps_word _) |>.append
              (.named (keeps_expressions kept))))
        (.named (keeps_suite kept)))
      (.optional (.named (keeps_elseClause kept)))

theorem keeps_whileStatement : (whileStatement self).Keeps Shape.IsPlain [] :=
  .wrap (by decide) <|
    .append
      (.append (keeps_header (.append (keeps_word _) (.named (kept (.expression _)))))
        (.named (keeps_suite kept)))
      (.optional (.named (keeps_elseClause kept)))

theorem keeps_finallyClause : (finallyClause self).Keeps Shape.IsPlain [] :=
  .wrap (by decide) (.append (keeps_header (keeps_word _)) (keeps_suite kept))

omit kept in
theorem keeps_groupKeyword : groupKeyword.Keeps Shape.IsPlain [] :=
  .map (.append (keeps_word _) (keeps_sign _)) fun _ => .wrapAs (by decide) (.refl _)

theorem keeps_groupHandler : (groupHandler self).Keeps Shape.IsPlain [] :=
  .wrap (by decide) <|
    .append (keeps_header (.append keeps_groupKeyword (kept (.expression _)))) (keeps_suite kept)

theorem keeps_handler : (handler self).Keeps Shape.IsPlain [] :=
  .wrap (by decide) <|
    .append
      (keeps_header
        (.append (keeps_word _) (.optional (.notBefore
          (.append (.named (kept (.expression _)))
            (.optional (.append (keeps_sign _) (.named (kept (.expression _))))))))))
      (keeps_suite kept)

theorem keeps_tryStatement : (tryStatement self).Keeps Shape.IsPlain [] := by
  have rest := (Keeps.optional (keeps_elseClause kept)).append
    (.optional (keeps_finallyClause kept))
  exact .wrap (by decide) <|
    .append (.append (keeps_header (keeps_word _)) (.named (keeps_suite kept))) <|
      .ifNext (keeps_finallyClause kept) <|
        .ifAhead (.append (.oneOrMore (.ifAhead (keeps_groupHandler kept) .fail)) rest)
          (.append (.oneOrMore (.ifAhead .fail (keeps_handler kept))) rest)

theorem keeps_withItem : (withItem self).Keeps Shape.IsPlain [] :=
  .wrap (by decide) (.named (kept (.expression _)))

theorem keeps_withItems : (withItems self).Keeps Shape.IsPlain [] := by
  have items : (listOf (withItem self) (withItem self) ",").Keeps Shape.IsPlain [] :=
    .listOf (keeps_sign _) (keeps_withItem kept) (keeps_withItem kept)
  exact .either
    (.append
      (.wrap (by decide) (.bracketed (.append (.append (keeps_sign _) items) (keeps_sign _))))
      (keeps_sign _))
    (.append (.wrap (by decide) items) (keeps_sign _))

theorem keeps_withStatement : (withStatement self).Keeps Shape.IsPlain [] :=
  .wrap (by decide) <|
    .append
      (.within (.append (.append (.optional (keeps_word _)) (keeps_word _))
        (keeps_withItems kept)))
      (.named (keeps_suite kept))

theorem keeps_functionDefinition : (functionDefinition self).Keeps Shape.IsPlain [] :=
  .wrap (by decide) <|
    .append
      (keeps_header
        (((((Keeps.optional (keeps_word _)).append (keeps_word _)).append
          (.named keeps_name)).append (.optional (.named (keeps_typeArguments kept)))).append
            (.named (keeps_parameters kept)) |>.append
              (.optional (.append (keeps_sign _) (.named (kept (.typeForm _)))))))
      (.named (keeps_suite kept))

theorem keeps_classDefinition : (classDefinition self).Keeps Shape.IsPlain [] :=
  .wrap (by decide) <|
    .append
      (keeps_header
        ((((keeps_word _).append (.named keeps_name)).append
          (.optional (.named (keeps_typeArguments kept)))).append
            (.optional (.named (.before (.filtered (keeps_arguments kept)))))))
      (.named (keeps_suite kept))

theorem keeps_decoratedDefinition : (decoratedDefinition self).Keeps Shape.IsPlain [] :=
  .wrap (by decide) <|
    .append
      (.oneOrMore (.wrap (by decide) (.lined
        (.append (.append (keeps_sign _) (kept (.expression _))) keeps_newline))))
      (.named (.ifNext (keeps_classDefinition kept) (keeps_functionDefinition kept)))

theorem keeps_caseClause : (caseClause self).Keeps Shape.IsPlain [] :=
  .wrap (by decide) <|
    .append
      (keeps_header
        (.append
          (.append (keeps_word _)
            (.append
              (.append (kept .casePattern)
                (.many (.append (keeps_sign _) (.notBefore (kept .casePattern)))))
              (.optional (keeps_sign _))))
          (.optional (.named (.wrap (by decide)
            (.append (keeps_word _) (kept (.expression _))))))))
      (.named (keeps_suite kept))

theorem keeps_caseBlock : (caseBlock self).Keeps Shape.IsPlain [] := by
  intro scope tokens phrase rest read
  unfold caseBlock at read
  dsimp only at read
  split at read
  · exact Keeps.wrap (by decide)
      (.indented (.append (.many (.staying (.named (keeps_caseClause kept)))) keeps_dedent))
      _ _ _ _ read
  · exact Keeps.wrap (by decide) keeps_newline _ _ _ _ read

theorem keeps_matchStatement : (matchStatement self).Keeps Shape.IsPlain [] :=
  .wrap (by decide) <|
    .append
      (keeps_header
        (.append
          (.append (keeps_word _)
            (.named (.append (kept (.expression _))
              (.many (.append (keeps_sign _) (kept (.expression _)))))))
          (.optional (keeps_sign _))))
      (.named (keeps_caseBlock kept))

theorem keeps_statement : (statement self).Keeps Shape.IsPlain [] := by
  intro scope tokens phrase rest read
  unfold statement at read
  dsimp only at read
  split at read
  · exact Keeps.fail _ _ _ _ read
  · split at read
    · exact keeps_decoratedDefinition kept _ _ _ _ read
    · split at read
      · exact keeps_simpleStatements kept _ _ _ _ read
      · refine (?_ : Reader.Keeps Shape.IsPlain [] _) scope _ phrase rest read
        split
        · exact keeps_ifStatement kept
        · exact keeps_forStatement kept
        · exact keeps_whileStatement kept
        · exact keeps_tryStatement kept
        · exact keeps_withStatement kept
        · exact keeps_functionDefinition kept
        · exact keeps_classDefinition kept
        · exact .ifJoined (keeps_forStatement kept) <| .ifJoined (keeps_withStatement kept) <|
            .ifJoined (keeps_functionDefinition kept) (keeps_simpleStatements kept)
        · exact .ifJoined (.either (keeps_matchStatement kept) (keeps_simpleStatements kept))
            (keeps_simpleStatements kept)
        · exact keeps_simpleStatements kept

theorem keeps_unfold : self.unfold.Keeps
  | .expression floor => keeps_expression kept floor
  | .primary floor => keeps_primary kept floor
  | .iterable => keeps_iterable kept
  | .typeForm constrained => keeps_typeForm kept constrained
  | .replacement _ => keeps_replacementField kept
  | .target => keeps_target kept
  | .parameter typed => keeps_parameter kept typed
  | .casePattern => keeps_casePattern kept
  | .closedPattern => keeps_closedPattern kept
  | .rightSide => keeps_rightSide kept
  | .statement => keeps_statement kept

omit kept in
theorem keeps_unfolded (depth : Nat) : (unfolded depth).Keeps := by
  induction depth with
  | zero => intro rule; cases rule <;> first | exact Keeps.fail | exact fun _ => Keeps.fail
  | succ depth ih => exact keeps_unfold ih

omit kept in
theorem keeps_moduleStatements (depth : Nat) :
    (moduleStatements (unfolded depth)).Keeps Shape.IsPlain [] :=
  .many (keeps_unfolded depth .statement)

end CodeGauge.Syntax.Grammar

namespace CodeGauge.Syntax

/-- Trees that account for all tokens of a text. -/
structure IsModuleOf (tokens : List Token) (children : List Node) : Prop where
  whole : AreWhole tokens → ∀ child ∈ children, child.IsWhole
  extras : marksOf (extrasOf tokens) ⊆ marksOf children
  accounts : Accounts Shape.IsPlain (marksOf children) (tokens.map Token.bare)
  ended : ∃ token ∈ tokens, token.shape = .finish

theorem isModuleOf_of_takes {tokens : List Token} {phrase : Phrase} {last : Token}
    (takes : Takes Shape.IsPlain [] tokens phrase [last]) (finish : last.shape = .finish) :
    IsModuleOf tokens (phrase.shown ++ last.gap.extras) where
  whole tokens_whole := by
    obtain ⟨phrase_whole, last_whole⟩ := takes.whole Phrase.isWhole_nil tokens_whole
    refine List.forall_mem_append.mpr ⟨fun _ => Phrase.isWhole_of_mem_shown phrase_whole, ?_⟩
    exact (Reader.areWhole_cons_iff.mp last_whole).1
  extras := by
    have shown := takes.extras
    rw [extrasOf_cons, extrasOf_nil, List.append_nil] at shown
    rw [marksOf_append]
    exact shown
  accounts := by
    obtain ⟨taken, split, accounts⟩ := takes.taken
    have plain : last.bare.shape.IsPlain := finish ▸ (by decide : Shape.IsPlain .finish)
    rw [split, marksOf_append]
    exact (accounts.mono (List.subset_append_left _ _)).append (.singleton plain)
  ended := by
    obtain ⟨taken, split, -⟩ := takes.taken
    have mem : last.bare ∈ tokens.map Token.bare :=
      split ▸ List.mem_append_right taken List.mem_cons_self
    obtain ⟨token, token_mem, bare_eq⟩ := List.mem_map.mp mem
    have shape_eq := congrArg Token.shape bare_eq
    exact ⟨token, token_mem, shape_eq.trans finish⟩

theorem readTokens_eq (text : List Char) (tokens : List Token) :
    readTokens text tokens = errorRoot text ∨
      ∃ children, readTokens text tokens = moduleRoot text children ∧
        IsModuleOf tokens children := by
  unfold readTokens
  dsimp only
  split
  · rename_i phrase last read
    split
    · rename_i finish
      have takes := Grammar.keeps_moduleStatements _ _ _ _ _ read
      exact .inr ⟨_, rfl, isModuleOf_of_takes takes finish⟩
    · exact .inl rfl
  · exact .inl rfl

theorem read_eq (text : List Char) :
    read text = errorRoot text ∨
      ∃ children, read text = moduleRoot text children ∧ IsModuleOf (scan text) children :=
  readTokens_eq text (scan text)

theorem areWhole_scan (text : List Char) : AreWhole (scan text) :=
  areWhole_scanFrom _ (Gap.isSound_empty .zero)

theorem isWhole_moduleRoot {text : List Char} {children : List Node}
    (module : IsModuleOf (scan text) children) : (moduleRoot text children).IsWhole :=
  Node.isWhole_mk_iff.mpr ⟨⟨rfl, rfl, rfl⟩, module.whole (areWhole_scan text)⟩

theorem isFlagged_read (text : List Char) : (read text).IsFlagged := by
  rcases read_eq text with error | ⟨children, module, accounts⟩
  · rw [error]
    intro node mem
    have root := List.mem_singleton.mp mem
    have broken : node.isBroken = true := root ▸ rfl
    exact iff_of_true (root ▸ rfl) ⟨node, node.mem_preorder_self, broken⟩
  · rw [module]
    exact (isWhole_moduleRoot accounts).isFlagged

theorem marksOf_moduleRoot (text : List Char) (children : List Node) :
    marksOf [moduleRoot text children] = marksOf children :=
  marksOf_singleton _ children

/-- A hash with only blank characters before it on its line shows as a comment, or lies in a string
that begins on an earlier line. -/
theorem mark_of_hash {mid after : List Char} {children : List Node} (blank : BlankEnd mid)
    (module : IsModuleOf (scan (mid ++ '#' :: after)) children) :
    Mark.comment (mid.count '\n') ∈ marksOf children ∨
      ∃ first last, Mark.string first last ∈ marksOf children ∧
        first < mid.count '\n' ∧ mid.count '\n' ≤ last := by
  have row_eq : (Place.zero.after mid).row = mid.count '\n' := by
    rw [Place.row_after]
    exact Nat.zero_add _
  rcases scanFrom_hash _ (Gap.isSound_empty .zero) blank module.ended with mark | covers
  · exact .inl (row_eq ▸ module.extras mark)
  · obtain ⟨before, token, later, split, inside, goes_on, opens⟩ := covers
    have bare_split : (scan (mid ++ '#' :: after)).map Token.bare =
        before.map Token.bare ++ token.bare :: later.map Token.bare := by
      rw [scan, split, List.map_append, List.map_cons]
    have surrounded := (module.accounts _ _ _ bare_split).resolve_left inside
    obtain ⟨_, opener_bare, shape, _, closer_bare, mark⟩ := surrounded
    obtain ⟨opener, opener_mem, rfl⟩ := List.mem_map.mp opener_bare
    rw [← List.map_cons] at closer_bare
    obtain ⟨closer, closer_mem, rfl⟩ := List.mem_map.mp closer_bare
    refine .inr ⟨_, _, mark, ?_, ?_⟩
    · exact row_eq ▸ opens opener opener_mem shape
    · exact row_eq ▸ goes_on closer closer_mem

end CodeGauge.Syntax
