import CodeGauge.Proofs.Measurement.Halstead
import CodeGauge.Proofs.Measurement.LineScan
import CodeGauge.Proofs.Measurement.Survey
import CodeGauge.Proofs.Syntax.Comments

/-!
# Counts of trees without some of their comments

Decision points, definitions, operators, operands and logical lines are what they are whether or
not comments stand among them: no comment that is taken out of a tree changes a block, a complexity,
Halstead's counts or the number of logical lines (`counts_ignore_comments`).
-/

namespace CodeGauge.Measurement

open Syntax Node

variable (source : List Char)

theorem isFunction_strip (chosen : List Nat → Bool) (node : Node) :
    (node.strip chosen).isFunction = node.isFunction := by
  rw [isFunction, kind_strip, isFunction]

theorem isClass_strip (chosen : List Nat → Bool) (node : Node) :
    (node.strip chosen).isClass = node.isClass := by
  rw [isClass, kind_strip, isClass]

theorem decisionPoints_strip (chosen : List Nat → Bool) (node : Node) :
    decisionPoints (node.strip chosen) = decisionPoints node := by
  have handlers : ((node.strip chosen).children.countP fun child =>
        handlerKinds.contains child.kind) =
      node.children.countP fun child => handlerKinds.contains child.kind := by
    refine view_children_strip (List.countP fun child => handlerKinds.contains child.kind)
      (fun child rest => rest + if handlerKinds.contains child.kind then 1 else 0)
      (fun child others => List.countP_cons) node (fun child comment rest => ?_)
      (fun child _ chosen => ?_) chosen
    · simp [kind_of_isLooseComment comment, handlerKinds]
    · rw [kind_strip]
  rw [decisionPoints, decisionPoints, kind_strip, isSome_child?_strip, handlers]

theorem survey_comment {parent : Label} {child : Node}
    (comment : isLooseComment parent child = true) : survey source child = .nothing := by
  have kind := kind_of_isLooseComment comment
  have plain : child.isFunction = false ∧ child.isClass = false := by
    simp [isFunction, isClass, kind]
  have points : decisionPoints child = 0 := by simp [decisionPoints, branchKinds, kind]
  rw [survey_eq, ownTally, isDefinition, plain.1, plain.2, points,
    children_of_isLooseComment comment]
  rfl

/-- Comments change nothing about a survey, neither of a tree nor of the children of its root. -/
theorem survey_strip (node : Node) (chosen : List Nat → Bool) :
    survey source (node.strip chosen) = survey source node ∧
      surveyAll source (node.strip chosen).children = surveyAll source node.children := by
  induction node using Node.induction generalizing chosen with
  | step node ih =>
      have below : surveyAll source (node.strip chosen).children =
          surveyAll source node.children := by
        refine view_children_strip (surveyAll source)
          (fun child rest => survey source child ++ rest) (fun child others => rfl) node
          (fun child comment rest => ?_) (fun child mem chosen => ?_) chosen
        · rw [survey_comment source comment, Tally.nothing_append]
        · rw [(ih child mem chosen).1]
      -- the body is the first child of its field, so its survey is a view of the children as well
      have body : bodyTally source (node.strip chosen) = bodyTally source node := by
        rw [← surveyBody_children, ← surveyBody_children]
        refine view_children_strip (surveyBody source)
          (fun child rest =>
            if child.label.field == some "body" then surveyAll source child.children else rest)
          (fun child others => ?_) node (fun child comment rest => ?_)
          (fun child mem chosen => ?_) chosen
        · obtain ⟨label, children⟩ := child
          rw [surveyBody, label_mk, children_mk]
        · simp [field_of_isLooseComment comment]
        · rw [label_strip, (ih child mem chosen).2]
      have own : ownTally source (node.strip chosen) = ownTally source node := by
        rw [ownTally, ownTally, isFunction_strip, isClass_strip, body, decisionPoints_strip,
          definitionName, bind_text?_child?_strip, ← definitionName, line, label_strip, ← line]
      refine ⟨?_, below⟩
      rw [survey_eq, survey_eq, own, below, isDefinition, isFunction_strip, isClass_strip,
        ← isDefinition]

theorem fieldTexts_strip (chosen : List Nat → Bool) (node : Node) (names : List String) :
    fieldTexts source (node.strip chosen) names = fieldTexts source node names := by
  simp only [fieldTexts, bind_text?_child?_strip]

theorem texts_comparison_strip {node : Node} (comparison : node.kind = "comparison_operator")
    (test : Label → Bool)
    (blind : ∀ label : Label, label.kind = "comment" → label.named = true → test label = false)
    (chosen : List Nat → Bool) :
    ((node.strip chosen).children.filter fun child => test child.label).filterMap (text? source) =
      (node.children.filter fun child => test child.label).filterMap (text? source) := by
  refine view_children_strip
    (fun children =>
      (children.filter fun child => test child.label).filterMap (text? source))
    (fun child rest =>
      (if test child.label then (text? source child).toList else []) ++ rest)
    (fun child others => ?_) node (fun child comment rest => ?_) (fun child _ chosen => ?_) chosen
  · rw [List.filter_cons]
    cases test child.label with
    | false => rfl
    | true => cases text : text? source child <;> simp [text]
  · rw [blind child.label (kind_of_isLooseComment comment)
      (named_of_isLooseComment comparison comment)]
    rfl
  · rw [label_strip, text?, label_strip, text?]

theorem ownOperators_strip (node : Node) (chosen : List Nat → Bool) :
    ownOperators source (node.strip chosen) = ownOperators source node := by
  by_cases comparison : node.kind = "comparison_operator"
  · simp only [ownOperators, kind_strip, fieldTexts_strip]
    rw [texts_comparison_strip source comparison (fun label => !label.named)
      (fun label _ named => by rw [named]; rfl)]
  · simp [ownOperators, fieldTexts_strip, comparison]

theorem ownOperands_strip (node : Node) (chosen : List Nat → Bool) :
    ownOperands source (node.strip chosen) = ownOperands source node := by
  by_cases comparison : node.kind = "comparison_operator"
  · simp only [ownOperands, kind_strip, fieldTexts_strip]
    have operands := texts_comparison_strip source comparison
      (fun label => label.named && label.kind != "comment")
      (fun label kind _ => by simp [kind]) chosen
    simp only [kind] at operands ⊢
    rw [operands]
  · simp [ownOperands, fieldTexts_strip, comparison]

theorem halstead_strip (root : Node) (chosen : List Nat → Bool) :
    halstead source (root.strip chosen) = halstead source root := by
  have operators := flatMap_preorder_strip (ownOperators_strip source)
    (fun parent child comment => by
      simp [ownOperators, infixKinds, kind_of_isLooseComment comment]) root chosen
  have operands := flatMap_preorder_strip (ownOperands_strip source)
    (fun parent child comment => by
      simp [ownOperands, infixKinds, kind_of_isLooseComment comment]) root chosen
  rw [halstead_eq, halstead_eq, operators, operands]

theorem isLogical_strip (chosen : List Nat → Bool) (node : Node) :
    isLogical (node.strip chosen) = isLogical node := by
  rw [isLogical, isLogical, kind_strip, label_strip]

theorem countP_isLogical_strip (node : Node) (chosen : List Nat → Bool) :
    (outsideComments (node.strip chosen)).countP isLogical =
      (outsideComments node).countP isLogical := by
  induction node using Node.induction generalizing chosen with
  | step node ih =>
      have below : (outsideCommentsAll (node.strip chosen).children).countP isLogical =
          (outsideCommentsAll node.children).countP isLogical := by
        refine view_children_strip
          (fun children => (outsideCommentsAll children).countP isLogical)
          (fun child rest => (outsideComments child).countP isLogical + rest)
          (fun child others => ?_) node (fun child comment rest => ?_)
          (fun child mem chosen => ?_) chosen
        · rw [outsideCommentsAll, List.countP_append]
        · have unlogical : isLogical child = false :=
            isLogical_of_isComment (beq_iff_eq.mpr (kind_of_isLooseComment comment))
          simp [outsideComments_eq, isComment, kind_of_isLooseComment comment, unlogical]
        · rw [ih child mem chosen]
      rw [outsideComments_eq, outsideComments_eq, List.countP_cons, List.countP_cons,
        isLogical_strip, isComment, kind_strip, ← isComment]
      cases isComment node with
      | false => simp [below]
      | true => rfl

/-- Whichever loose comments are taken out of a tree, what is left are all its other nodes with
their labels, and the blocks, the complexity of the whole, the vocabulary and length and the number
of logical lines are the same. -/
theorem counts_ignore_comments (root : Node) (chosen : List Nat → Bool) :
    (root.strip chosen).preorder.map label =
      root.label :: (root.sites.filter fun site => !root.isStripped chosen site).map
        (fun site => site.node.label) ∧
    (surveyModule source (root.strip chosen)).blocks = (surveyModule source root).blocks ∧
    (surveyModule source (root.strip chosen)).totalComplexity =
      (surveyModule source root).totalComplexity ∧
    (halstead source (root.strip chosen)).vocabulary = (halstead source root).vocabulary ∧
    (halstead source (root.strip chosen)).length = (halstead source root).length ∧
    (countLines source (root.strip chosen)).logical = (countLines source root).logical := by
  have survey : surveyModule source (root.strip chosen) = surveyModule source root :=
    (survey_strip source root chosen).2
  refine ⟨map_label_preorder_strip chosen root, ?_⟩
  rw [survey, halstead_strip, logical_countLines, logical_countLines]
  exact ⟨rfl, rfl, rfl, rfl, countP_isLogical_strip root chosen⟩

end CodeGauge.Measurement
