import CodeGauge.Syntax.Pattern

/-!
# Statements and modules

A statement's keyword commits to its form; `print`, `exec`, `type`, `match` and `async` begin a
statement only if one can be read.  The grammar is closed by recursion on a depth that the number of
tokens bounds.  Reading is total: a text that is no module gives a tree of one error node.
-/

namespace CodeGauge.Syntax.Grammar

open Reader

variable (self : Grammar)

def augmentedSigns : List String :=
  ["+=", "-=", "*=", "/=", "@=", "//=", "%=", "**=", ">>=", "<<=", "&=", "^=", "|="]

def leftSide? (phrase : Phrase) : Option Phrase :=
  (Phrase.toTargets? phrase).map fun targets =>
    Phrase.named "left"
      (if targets.length = 1 then targets else Phrase.wrap "pattern_list" targets)

/-- The rest of an assignment after the expressions of its left side. -/
def assignmentRest (phrase : Phrase) : Reader :=
  match leftSide? phrase with
  | none => fail
  | some left =>
    joined <|
      ifNext (isSign "=")
        ((sign "=" ++ named "right" (self .rightSide)).map fun rest =>
          Phrase.wrap "assignment" (left ++ rest)) <|
        ifNext (isSign ":")
          ((sign ":" ++ named "type" (self (.typeForm true)) ++
              optional (joined (sign "=") ++ named "right" (self .rightSide))).map fun rest =>
            Phrase.wrap "assignment" (left ++ rest)) <|
          ((named "operator" (anySign augmentedSigns)) ++ named "right" (self .rightSide)).map
            fun rest => Phrase.wrap "augmented_assignment" (left ++ rest)

def beginsAssignment (token : Token) : Bool :=
  isSign "=" token || isSign ":" token ||
    (token.shape == .sign && augmentedSigns.contains token.text)

/-- Expressions with commas between them, as separate siblings. -/
def expressionRow : Reader :=
  listOf (self (.expression Strength.weakest)) (self (.expression Strength.weakest)) ","

/-- Expressions with commas, or the assignment that they begin. -/
def assignmentOr (finish : Phrase → Phrase) : Reader :=
  (expressionRow self).bind fun row => fun scope tokens =>
    if next beginsAssignment tokens && !atLineEnd scope tokens then
      assignmentRest self row scope tokens
    else some (finish row, tokens)

def rightSide : Reader :=
  yieldOr self <| assignmentOr self fun row =>
    if row.length = 1 then row else Phrase.wrap "expression_list" row

def expressionStatement : Reader :=
  wrap "expression_statement" (yieldOr self (assignmentOr self id))

def importList : Reader :=
  let imported : Reader := named "name" <| dottedName.bind fun name =>
    either
      ((joined (word "as") ++ named "alias" Reader.name).map fun rest =>
        Phrase.wrap "aliased_import" (Phrase.named "name" name ++ rest))
      (.pure name)
  listOf imported imported ","

def importNames : Reader :=
  ifNext (isSign "(") (bracketed (sign "(" ++ importList ++ sign ")")) importList

/-- The dots of a relative import; three of them may be one token. -/
def importDots : Reader :=
  let dot (token : Token) (offset : Nat) (lead : List Node) : Item :=
    let place (count : Nat) : Place :=
      ⟨token.start.byte + count, token.start.row, token.start.column + count⟩
    ⟨lead, leaf "." false (place offset) (place (offset + 1)), false⟩
  wrap "import_prefix" <| oneOrMore fun scope tokens =>
    match tokens with
    | [] => none
    | token :: rest =>
      if !admits scope token then none
      else if isSign "." token then some ([dot token 0 token.gap.extras], rest)
      else if isSign "..." token then
        some ([dot token 0 token.gap.extras, dot token 1 [], dot token 2 []], rest)
      else none

def relativeImport : Reader :=
  wrap "relative_import" (importDots ++ optional (notBefore (isWord "import") dottedName))

def importFrom : Reader :=
  ifAhead (fun tokens => secondIsWord ["__future__"] tokens)
    (wrap "future_import_statement"
      (word "from" ++ inner (word "__future__" ++ word "import") ++ importNames))
    (wrap "import_from_statement"
      (word "from" ++
        inner
          (named "module_name"
              (ifNext (fun token => isSign "." token || isSign "..." token) relativeImport
                dottedName) ++
            word "import") ++
        ifNext (isSign "*")
          (wrap "wildcard_import" (sign "*"))
          importNames))

def printStatement : Reader :=
  let argument := named "argument" (self (.expression Strength.weakest))
  let more := (joined (sign ",") ++ joined argument).many ++ optional (joined (sign ","))
  wrap "print_statement"
    (word "print" ++
      joined
        (ifNext (isSign ">>")
          (wrap "chevron" (sign ">>" ++ self (.expression Strength.weakest)) ++ more)
          (argument ++ more)))

def execStatement : Reader :=
  wrap "exec_statement"
    (word "exec" ++ joined (named "code" (either (string self) name)) ++
      optional (joined (word "in") ++ separated (self (.expression Strength.weakest)) ","))

def typeAlias : Reader :=
  wrap "type_alias_statement"
    (word "type" ++ joined (named "left" (self (.typeForm true))) ++ sign "=" ++
      named "right" (self (.typeForm true)))

def names : Reader := separated name ","

def endsStatement (scope : Scope) (tokens : List Token) : Bool :=
  next (isSign ";") tokens ||
    tokens.head?.any fun token => token.gap.turned && scope.ending == .line

/-- Reads a statement of a soft keyword, or an expression statement if it cannot be read to its
end. -/
def softly (statement : Reader) : Reader := fun scope tokens =>
  match statement scope tokens with
  | none => expressionStatement self scope tokens
  | some (phrase, rest) =>
    if endsStatement scope rest then some (phrase, rest)
    else expressionStatement self scope tokens

/-- Reads an expression statement, or a statement of a soft keyword if that cannot be read to its
end. -/
def lastly (statement : Reader) : Reader := fun scope tokens =>
  match expressionStatement self scope tokens with
  | none => statement scope tokens
  | some (phrase, rest) =>
    if endsStatement scope rest then some (phrase, rest) else statement scope tokens

def raiseStatement : Reader :=
  wrap "raise_statement"
    (word "raise" ++ optional (joined (notBefore (isWord "from") (expressions self))) ++
      optional (joined (word "from") ++ named "cause" (self (.expression Strength.weakest))))

def simpleStatement : Reader := fun scope tokens =>
  let reader : Reader :=
    match tokens with
    | [] => fail
    | first :: _ =>
      if first.shape != .word then expressionStatement self
      else
        match first.text with
        | "import" => wrap "import_statement" (word "import" ++ importList)
        | "from" => importFrom
        | "assert" =>
          wrap "assert_statement"
            (word "assert" ++ separated (self (.expression Strength.weakest)) ",")
        | "return" =>
          wrap "return_statement" (word "return" ++ optional (joined (expressions self)))
        | "del" => wrap "delete_statement" (word "del" ++ expressions self)
        | "raise" => raiseStatement self
        | "pass" => wrap "pass_statement" (word "pass")
        | "break" => wrap "break_statement" (word "break")
        | "continue" => wrap "continue_statement" (word "continue")
        | "global" => wrap "global_statement" (word "global" ++ names)
        | "nonlocal" => wrap "nonlocal_statement" (word "nonlocal" ++ names)
        | "print" =>
          ifJoined (secondIsSign ">>") (printStatement self) (lastly self (printStatement self))
        | "exec" => lastly self (execStatement self)
        | "type" => softly self (typeAlias self)
        | _ => expressionStatement self
  reader scope tokens

def simpleStatements : Reader :=
  lined
    (simpleStatement self ++ (joined (sign ";") ++ joined (simpleStatement self)).many ++
      optional (joined (sign ";")) ++ newline)

def block : Reader :=
  wrap "block" ((staying (self .statement)).many ++ dedent)

/-- What follows a colon. -/
def suite : Reader := fun scope tokens =>
  if entersBlock scope tokens then indented (block self) scope tokens
  else if next (fun token => token.gap.turned) tokens then wrap "block" newline scope tokens
  else wrap "block" (simpleStatements self) scope tokens

def header (reader : Reader) : Reader :=
  within (fun scope => { scope with ending := .header }) (reader ++ sign ":")

def elseClause : Reader :=
  wrap "else_clause" (header (word "else") ++ named "body" (suite self))

def ifStatement : Reader :=
  let condition := named "condition" (self (.expression Strength.weakest))
  wrap "if_statement"
    (header (word "if" ++ condition) ++ named "consequence" (suite self) ++
      (named "alternative" (wrap "elif_clause"
        (header (word "elif" ++ condition) ++ named "consequence" (suite self)))).many ++
      optional (named "alternative" (elseClause self)))

def forStatement : Reader :=
  wrap "for_statement"
    (header
        (optional (word "async") ++ word "for" ++ named "left" (self .target) ++ word "in" ++
          named "right" (expressions self)) ++
      named "body" (suite self) ++ optional (named "alternative" (elseClause self)))

def whileStatement : Reader :=
  wrap "while_statement"
    (header (word "while" ++ named "condition" (self (.expression Strength.weakest))) ++
      named "body" (suite self) ++ optional (named "alternative" (elseClause self)))

def finallyClause : Reader := wrap "finally_clause" (header (word "finally") ++ suite self)

/-- Whether a group handler begins here: its star directly follows the keyword. -/
def beginsGroupHandler (tokens : List Token) : Bool :=
  match tokens with
  | first :: second :: _ =>
    isWord "except" first && isSign "*" second && first.stop == second.start
  | _ => false

def groupKeyword : Reader := (word "except" ++ sign "*").map (Phrase.wrapAs false "except*")

def groupHandler : Reader :=
  wrap "except_group_clause"
    (header
        (groupKeyword ++ self (.expression Strength.weakest)) ++
      suite self)

def handler : Reader :=
  wrap "except_clause"
    (header
        (word "except" ++
          optional (notBefore (isSign ":")
            (named "value" (self (.expression Strength.weakest)) ++
              optional (sign "," ++ named "alias" (self (.expression Strength.weakest)))))) ++
      suite self)

def tryStatement : Reader :=
  let rest := optional (elseClause self) ++ optional (finallyClause self)
  wrap "try_statement"
    (header (word "try") ++ named "body" (suite self) ++
      ifNext (isWord "finally") (finallyClause self)
        (ifAhead beginsGroupHandler
          ((ifAhead beginsGroupHandler (groupHandler self) fail).oneOrMore ++ rest)
          ((ifAhead beginsGroupHandler fail (handler self)).oneOrMore ++ rest)))

def withItem : Reader := wrap "with_item" (named "value" (self (.expression Strength.weakest)))

/-- The items of a with statement, in brackets of their own or not, and its colon. -/
def withItems : Reader :=
  either
    (wrap "with_clause"
        (bracketed (sign "(" ++ listOf (withItem self) (withItem self) "," ++ sign ")")) ++
      sign ":")
    (wrap "with_clause" (listOf (withItem self) (withItem self) ",") ++ sign ":")

def withStatement : Reader :=
  wrap "with_statement"
    (within (fun scope => { scope with ending := .header })
        (optional (word "async") ++ word "with" ++ withItems self) ++
      named "body" (suite self))

def functionDefinition : Reader :=
  wrap "function_definition"
    (header
        (optional (word "async") ++ word "def" ++ named "name" name ++
          optional (named "type_parameters" (typeArguments self)) ++
          named "parameters" (parameters self) ++
          optional (sign "->" ++ named "return_type" (self (.typeForm false)))) ++
      named "body" (suite self))

def classDefinition : Reader :=
  wrap "class_definition"
    (header
        (word "class" ++ named "name" name ++
          optional (named "type_parameters" (typeArguments self)) ++
          optional (named "superclasses"
            (before (isSign "(") (wrapArguments (arguments self))))) ++
      named "body" (suite self))
where
  /-- Superclasses are plain arguments. -/
  wrapArguments (reader : Reader) : Reader :=
    reader.refine fun phrase =>
      if phrase.all fun item => item.node.kind == "argument_list" then some phrase else none

def decoratedDefinition : Reader :=
  wrap "decorated_definition"
    ((wrap "decorator"
        (lined (sign "@" ++ self (.expression Strength.weakest) ++ newline))).oneOrMore ++
      named "definition" (ifNext (isWord "class") (classDefinition self) (functionDefinition self)))

def caseClause : Reader :=
  wrap "case_clause"
    (header
        (word "case" ++
          (self .casePattern ++
            (sign "," ++ notBefore (isWord "if") (self .casePattern)).many ++
            optional (sign ",")) ++
          optional (named "guard"
            (wrap "if_clause" (word "if" ++ self (.expression Strength.weakest))))) ++
      named "consequence" (suite self))

def caseBlock : Reader := fun scope tokens =>
  let cases := (staying (named "alternative" (caseClause self))).many
  wrap "block" (if entersBlock scope tokens then indented (cases ++ dedent) else newline)
    scope tokens

def matchStatement : Reader :=
  let subject := self (.expression Strength.weakest)
  wrap "match_statement"
    (header
        (word "match" ++
          named "subject" (subject ++ (sign "," ++ subject).many) ++ optional (sign ",")) ++
      named "body" (caseBlock self))

def statement : Reader := fun scope tokens =>
  let reader : Reader :=
    match tokens with
    | [] => fail
    | first :: _ =>
      if isSign "@" first then decoratedDefinition self
      else if first.shape != .word then simpleStatements self
      else
        match first.text with
        | "if" => ifStatement self
        | "for" => forStatement self
        | "while" => whileStatement self
        | "try" => tryStatement self
        | "with" => withStatement self
        | "def" => functionDefinition self
        | "class" => classDefinition self
        | "async" =>
          ifJoined (secondIsWord ["for"]) (forStatement self) <|
            ifJoined (secondIsWord ["with"]) (withStatement self) <|
              ifJoined (secondIsWord ["def"]) (functionDefinition self) (simpleStatements self)
        | "match" =>
          ifJoined (fun _ => true) (either (matchStatement self) (simpleStatements self))
            (simpleStatements self)
        | _ => simpleStatements self
  reader scope tokens

end CodeGauge.Syntax.Grammar

namespace CodeGauge.Syntax

def Grammar.unfold (self : Grammar) : Grammar
  | .expression floor => Grammar.expression self floor
  | .primary floor => Grammar.primary self floor
  | .iterable => Grammar.iterable self
  | .typeForm constrained => Grammar.typeForm self constrained
  | .replacement kind => Grammar.replacementField self kind
  | .target => Grammar.target self
  | .parameter typed => Grammar.parameter self typed
  | .casePattern => Grammar.casePattern self
  | .closedPattern => Grammar.closedPattern self
  | .rightSide => Grammar.rightSide self
  | .statement => Grammar.statement self

/-- The grammar with its recursion unfolded a number of times. -/
def Grammar.unfolded : (depth : Nat) → Grammar
  | 0 => fun _ => Reader.fail
  | depth + 1 => Grammar.unfold (Grammar.unfolded depth)

def Grammar.moduleStatements (self : Grammar) : Reader := Reader.many (self .statement)

def moduleRoot (text : List Char) (children : List Node) : Node :=
  let start := ((children.head?).map fun node => node.label.start).getD .zero
  let stop := Place.zero.after text
  .mk ⟨"module", true, false, false, false, none, start, stop.byte, stop.row⟩ children

/-- The root of a text that is no module. -/
def errorRoot (text : List Char) : Node :=
  let stop := Place.zero.after text
  .mk ⟨"ERROR", true, true, false, true, none, .zero, stop.byte, stop.row⟩ []

def readTokens (text : List Char) (tokens : List Token) : Node :=
  let count := tokens.length
  let scope : Scope := ⟨0, .line, count⟩
  match Grammar.moduleStatements (Grammar.unfolded (4 * count + 16)) scope tokens with
  | some (phrase, [last]) =>
    if last.shape = .finish then
      let children :=
        phrase.flatMap (fun item => item.lead ++ item.visible) ++ last.gap.extras
      moduleRoot text children
    else errorRoot text
  | _ => errorRoot text

/-- The tree of a source text. -/
def read (text : List Char) : Node := readTokens text (scan text)

end CodeGauge.Syntax
