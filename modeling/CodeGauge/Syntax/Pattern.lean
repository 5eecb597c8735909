import CodeGauge.Syntax.Expression

/-!
# Targets, parameters and case patterns

An assignment's left side is first read as an expression and becomes a target afterwards: names,
attributes, indices, starred ones of these, and tuples and lists of targets.
-/

namespace CodeGauge.Syntax

namespace Node

def withKind (kind : String) : Node → Node
  | mk label children => mk { label with kind } children

/-- A node that stands anywhere between the parts of a rule. -/
def isExtra (node : Node) : Bool := node.kind == "comment" || node.kind == "line_continuation"

def simpleTargets : List String := ["identifier", "attribute", "subscript"]

mutual

/-- An expression as a target, if it is one. -/
def toTarget? : Node → Option Node
  | mk label children =>
    if simpleTargets.contains label.kind then some (mk label children)
    else if label.kind == "list_splat" then
      match children.getLast? with
      | some last =>
        if simpleTargets.contains last.kind then
          some (mk { label with kind := "list_splat_pattern" } children)
        else none
      | none => none
    else if label.kind == "tuple" || label.kind == "parenthesized_expression" then
      (toTargets? children).map (mk { label with kind := "tuple_pattern" })
    else if label.kind == "list" then
      (toTargets? children).map (mk { label with kind := "list_pattern" })
    else none

def toTargets? : List Node → Option (List Node)
  | [] => some []
  | node :: others =>
    if node.label.named && !node.isExtra then
      match toTarget? node with
      | none => none
      | some target => (toTargets? others).map (target :: ·)
    else (toTargets? others).map (node :: ·)

end

end Node

/-- A phrase of expressions and commas as one of targets and commas. -/
def Phrase.toTargets? (phrase : Phrase) : Option Phrase :=
  phrase.mapM fun item =>
    if item.node.label.named then item.node.toTarget?.map fun node => { item with node }
    else some item

namespace Grammar

open Reader

variable (self : Grammar)

def singleTarget : Reader :=
  (ifNext (isSign "*") (starredOperand self) (trailed self)).refine Phrase.toTargets?

/-- A target of a loop: one, or several with commas. -/
def target : Reader :=
  (singleTarget self).bind fun first =>
    (sign "," ++ notBefore (isWord "in") (singleTarget self)).many.bind fun others =>
      (optional (sign ",")).bind fun comma =>
        .pure (if others.isEmpty && comma.isEmpty then first
          else Phrase.wrap "pattern_list" (first ++ others ++ comma))

def splatName : Reader :=
  name.bind (grow fun left => notBefore (isSign "(") (trailer self left))

def typedRest (left : Phrase) : Reader :=
  (sign ":" ++ named "type" (self (.typeForm true))).bind fun type =>
    ifNext (isSign "=")
      ((sign "=" ++ named "value" (self (.expression Strength.weakest))).map fun value =>
        Phrase.wrap "typed_default_parameter" (Phrase.named "name" left ++ type ++ value))
      (.pure (Phrase.wrap "typed_parameter" (left ++ type)))

def splatParameter (typed : Bool) (stars kind : String) : Reader :=
  (wrap kind (sign stars ++ splatName self)).bind fun left =>
    if typed then
      ifNext (isSign ":")
        ((sign ":" ++ named "type" (self (.typeForm true))).map fun type =>
          Phrase.wrap "typed_parameter" (left ++ type))
        (.pure left)
    else .pure left

def defaultRest (left : Phrase) : Reader :=
  ifNext (isSign "=")
    ((sign "=" ++ named "value" (self (.expression Strength.weakest))).map fun value =>
      Phrase.wrap "default_parameter" (Phrase.named "name" left ++ value))
    (.pure left)

/-- A sign that stands alone as a parameter. -/
def separator (text kind : String) : Reader :=
  token fun token => if isSign text token then some (kind, true) else none

def parameter (typed : Bool) : Reader :=
  ifNext (isSign "*")
    (either (splatParameter self typed "*" "list_splat_pattern")
      (separator "*" "keyword_separator")) <|
    ifNext (isSign "**") (splatParameter self typed "**" "dictionary_splat_pattern") <|
      ifNext (isSign "/") (separator "/" "positional_separator") <|
        ifNext (isSign "(") ((singleTarget self).bind (defaultRest self)) <|
          name.bind fun left =>
            if typed then
              ifNext (isSign ":") (typedRest self left) (defaultRest self left)
            else defaultRest self left

def parameters : Reader :=
  wrap "parameters"
    (bracketed
      (sign "(" ++
        optional (notBefore (isSign ")")
          (listOf (self (.parameter true)) (self (.parameter true)) ",")) ++
        sign ")"))

def dottedName : Reader :=
  wrap "dotted_name" (name ++ (joined (sign ".") ++ name).many)

def number : Reader := either (shape .integer "integer") (shape .decimal "float")

/-- A number with an optional minus, or the sum of two numbers. -/
def numberPattern : Reader :=
  (optional (sign "-") ++ number).bind fun first =>
    either
      ((anySign ["+", "-"] ++ number).map fun rest => Phrase.wrap "complex_pattern" (first ++ rest))
      (.pure first)

def wildcard : Reader :=
  token fun token => if isWord "_" token then some ("_", false) else none

def splatPattern : Reader :=
  wrap "splat_pattern" (anySign ["*", "**"] ++ either wildcard name)

def bracketedPatterns (opening close : String) (pattern : Reader) : Reader :=
  bracketed
    (sign opening ++ optional (notBefore (isSign close) (listOf pattern pattern ",")) ++
      sign close)

/-- A name, or a class with patterns for its attributes. -/
def classPattern : Reader :=
  dottedName.bind fun name =>
    ifNext (isSign "(")
      ((bracketedPatterns "(" ")" (self .casePattern)).map fun rest =>
        Phrase.wrap "class_pattern" (name ++ rest))
      (.pure name)

def alternatives : Reader :=
  (self .closedPattern).bind fun first =>
    (sign "|" ++ self .closedPattern).many.bind fun others =>
      .pure (if others.isEmpty then first else Phrase.wrap "union_pattern" (first ++ others))

def entryPattern : Reader :=
  ifNext (fun token => isSign "*" token || isSign "**" token) splatPattern
    (named "key" (alternatives self) ++ sign ":" ++ named "value" (self .casePattern))

def closedPattern : Reader := fun scope tokens =>
  match tokens with
  | [] => none
  | first :: _ =>
    match first.shape with
    | .word =>
      if first.text == "_" then wildcard scope tokens
      else if ["True", "False", "None"].contains first.text then wordAtom scope tokens
      else classPattern self scope tokens
    | .stringStart => strings self scope tokens
    | .integer => numberPattern scope tokens
    | .decimal => numberPattern scope tokens
    | .sign =>
      if first.text == "-" then numberPattern scope tokens
      else if first.text == "[" then
        wrap "list_pattern" (bracketedPatterns "[" "]" (self .casePattern)) scope tokens
      else if first.text == "(" then
        wrap "tuple_pattern" (bracketedPatterns "(" ")" (self .casePattern)) scope tokens
      else if first.text == openBrace then
        wrap "dict_pattern" (bracketedPatterns openBrace closeBrace (entryPattern self))
          scope tokens
      else splatPattern scope tokens
    | _ => none

def keywordPattern : Reader := wrap "keyword_pattern" (name ++ sign "=" ++ alternatives self)

def casePattern : Reader :=
  (wrap "case_pattern"
      (ifAhead beginsKeywordArgument (keywordPattern self) (alternatives self))).bind
    (grow fun left => (word "as" ++ name).map fun rest =>
      Phrase.wrap "case_pattern" (Phrase.wrap "as_pattern" (left ++ rest)))

end Grammar

end CodeGauge.Syntax
