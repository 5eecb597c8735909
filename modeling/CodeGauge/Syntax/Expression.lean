import CodeGauge.Syntax.Reader

/-!
# Expressions

Operands are atoms with their trailers; operators are read by strength, a left operand growing to
the right as long as an operator of at least the asked strength follows.  Brackets are read from
the inside out: the first element decides together with the token after it which kind of display,
comprehension or group the brackets make.
-/

namespace CodeGauge.Syntax.Grammar

open Reader

variable (self : Grammar)

def contentPiece : Reader :=
  either ((shape .content "").map (List.map Item.hide))
    (either (shape .escape "escape_sequence")
      (either (shape .doubledBrace "escape_interpolation")
        (token fun token => if token.shape == .backslash then some ("\\", false) else none)))

/-- What a replacement field or a return may hold: one expression, or several with commas. -/
def expressions : Reader :=
  (self (.expression Strength.weakest)).bind fun first =>
    (joined (sign ",") ++ joined (self (.expression Strength.weakest))).many.bind fun others =>
      (optional (joined (sign ","))).bind fun comma =>
        .pure (if others.isEmpty && comma.isEmpty then first
          else Phrase.wrap "expression_list" (first ++ others ++ comma))

def yieldExpression : Reader :=
  wrap "yield"
    (word "yield" ++
      either (joined (word "from") ++ self (.expression Strength.weakest))
        (optional (joined (expressions self))))

def yieldOr (reader : Reader) : Reader :=
  ifNext (isWord "yield") (yieldExpression self) reader

def formatSpecifier : Reader :=
  wrap "format_specifier"
    (sign ":" ++
      (either ((shape .specification "").map (List.map Item.hide))
        (self (.replacement "format_expression"))).many)

def replacementField (kind : String) : Reader :=
  wrap kind
    (bracketed
      (sign openBrace ++ named "expression" (yieldOr self (expressions self)) ++
        optional (sign "=") ++
        optional (named "type_conversion" (shape .conversion "type_conversion")) ++
        optional (named "format_specifier" (formatSpecifier self)) ++ sign closeBrace))

def string : Reader :=
  wrap "string"
    (shape .stringStart "string_start" ++
      (either (self (.replacement "interpolation"))
        (wrap "string_content" contentPiece.oneOrMore)).many ++
      shape .stringEnd "string_end")

def strings : Reader :=
  (string self).bind fun first =>
    (joined (string self)).many.bind fun others =>
      .pure (if others.isEmpty then first else Phrase.wrap "concatenated_string" (first ++ others))

def starred : Reader := wrap "list_splat" (sign "*" ++ self (.expression Strength.weakest))

def doubleStarred : Reader :=
  wrap "dictionary_splat" (sign "**" ++ self (.expression Strength.weakest))

def element : Reader :=
  ifNext (isSign "*") (starred self) (yieldOr self (self (.expression Strength.weakest)))

def comprehensionLoop : Reader :=
  wrap "for_in_clause"
    (optional (word "async") ++ word "for" ++ named "left" (self .target) ++ word "in" ++
      named "right" (separated (self .iterable) ",") ++ optional (sign ","))

def comprehensionCondition : Reader :=
  wrap "if_clause" (word "if" ++ self (.expression Strength.aliased))

def beginsLoop (tokens : List Token) : Bool :=
  next (isWord "for") tokens || (next (isWord "async") tokens && secondIsWord ["for"] tokens)

def comprehensionClauses : Reader :=
  comprehensionLoop self ++
    (ifNext (isWord "if") (comprehensionCondition self) (comprehensionLoop self)).many

/-- The rest of a comprehension after its opening bracket and its body. -/
def comprehension (kind close : String) (opening body : Phrase) : Reader :=
  (comprehensionClauses self ++ sign close).map fun rest =>
    Phrase.wrap kind (opening ++ Phrase.named "body" body ++ rest)

/-- The rest of a display after its opening bracket and its first element. -/
def display (kind close : String) (item : Reader) (opening first : Phrase) : Reader :=
  ((sign "," ++ item).many ++ optional (sign ",") ++ sign close).map fun rest =>
    Phrase.wrap kind (opening ++ first ++ rest)

def emptyDisplay (kind close : String) (opening : Phrase) : Reader :=
  (sign close).map fun closing => Phrase.wrap kind (opening ++ closing)

def roundBrackets : Reader :=
  bracketed <| (sign "(").bind fun opening =>
    ifNext (isSign ")") (emptyDisplay "tuple" ")" opening) <|
      ifNext (isSign "*")
        ((starred self).bind fun first => display "tuple" ")" (element self) opening first) <|
        (yieldOr self (self (.expression Strength.weakest))).bind fun first =>
          ifAhead beginsLoop (comprehension self "generator_expression" ")" opening first) <|
            ifNext (isSign ",") (display "tuple" ")" (element self) opening first) <|
              (sign ")").map fun closing =>
                Phrase.wrap "parenthesized_expression" (opening ++ first ++ closing)

def squareBrackets : Reader :=
  bracketed <| (sign "[").bind fun opening =>
    ifNext (isSign "]") (emptyDisplay "list" "]" opening) <|
      (element self).bind fun first =>
        ifAhead beginsLoop (comprehension self "list_comprehension" "]" opening first)
          (display "list" "]" (element self) opening first)

def pairAfter (key : Phrase) : Reader :=
  (sign ":" ++ named "value" (self (.expression Strength.weakest))).map fun rest =>
    Phrase.wrap "pair" (Phrase.named "key" key ++ rest)

def entry : Reader :=
  ifNext (isSign "**") (doubleStarred self)
    ((self (.expression Strength.weakest)).bind (pairAfter self))

def curlyBrackets : Reader :=
  bracketed <| (sign openBrace).bind fun opening =>
    ifNext (isSign closeBrace) (emptyDisplay "dictionary" closeBrace opening) <|
      ifNext (isSign ",")
        ((sign "," ++ sign closeBrace).map fun rest =>
          Phrase.wrap "dictionary" (opening ++ rest)) <|
        ifNext (isSign "**")
          ((doubleStarred self).bind fun first =>
            display "dictionary" closeBrace (entry self) opening first) <|
          (element self).bind fun first =>
            ifNext (isSign ":")
              ((pairAfter self first).bind fun first =>
                ifAhead beginsLoop
                  (comprehension self "dictionary_comprehension" closeBrace opening first)
                  (display "dictionary" closeBrace (entry self) opening first)) <|
              ifAhead beginsLoop (comprehension self "set_comprehension" closeBrace opening first)
                (display "set" closeBrace (element self) opening first)

/-- A word as an operand: a constant or an identifier. -/
def wordAtom : Reader :=
  token fun token =>
    if token.shape != .word then none
    else if token.text == "True" then some ("true", true)
    else if token.text == "False" then some ("false", true)
    else if token.text == "None" then some ("none", true)
    else some ("identifier", true)

def atom : Reader := fun scope tokens =>
  match tokens with
  | [] => none
  | first :: _ =>
    match first.shape with
    | .word => wordAtom scope tokens
    | .integer => shape .integer "integer" scope tokens
    | .decimal => shape .decimal "float" scope tokens
    | .stringStart => strings self scope tokens
    | .sign =>
      if first.text == "(" then roundBrackets self scope tokens
      else if first.text == "[" then squareBrackets self scope tokens
      else if first.text == openBrace then curlyBrackets self scope tokens
      else if first.text == "..." then
        token (fun _ => some ("ellipsis", true)) scope tokens
      else none
    | _ => none

def keywordArgument : Reader :=
  wrap "keyword_argument"
    (named "name" (nameExcept ["lambda", "not", "None", "True", "False"]) ++ sign "=" ++
      named "value" (self (.expression Strength.weakest)))

def beginsKeywordArgument (tokens : List Token) : Bool :=
  next (fun token => token.shape == .word) tokens && secondIsSign "=" tokens

def argument : Reader :=
  ifNext (isSign "*") (starred self) <|
    ifNext (isSign "**") (doubleStarred self) <|
      ifAhead beginsKeywordArgument (keywordArgument self) (self (.expression Strength.weakest))

/-- The arguments of a call, or the generator that is its only argument. -/
def arguments : Reader :=
  bracketed <| (sign "(").bind fun opening =>
    ifNext (isSign ")") (emptyDisplay "argument_list" ")" opening) <|
      ifNext (isSign ",")
        ((sign "," ++ sign ")").map fun rest => Phrase.wrap "argument_list" (opening ++ rest)) <|
        (argument self).bind fun first =>
          ifAhead beginsLoop (comprehension self "generator_expression" ")" opening first)
            (display "argument_list" ")" (argument self) opening first)

def index : Reader :=
  (ifNext (isSign ":") empty (self (.expression Strength.weakest))).bind fun lower =>
    ifNext (isSign ":")
      ((sign ":" ++ optional (self (.expression Strength.weakest)) ++
          optional (sign ":" ++ optional (self (.expression Strength.weakest)))).map fun rest =>
        Phrase.wrap "slice" (lower ++ rest))
      (.pure lower)

def subscript : Reader :=
  bracketed
    (sign "[" ++ listOf (named "subscript" (index self)) (named "subscript" (index self)) "," ++
      sign "]")

/-- Extends an operand by an attribute, an index or the arguments of a call. -/
def trailer (left : Phrase) : Reader :=
  joined <|
    ifNext (isSign ".")
      ((sign "." ++ named "attribute" name).map fun rest =>
        Phrase.wrap "attribute" (Phrase.named "object" left ++ rest)) <|
      ifNext (isSign "[")
        ((subscript self).map fun rest =>
          Phrase.wrap "subscript" (Phrase.named "value" left ++ rest))
        ((named "arguments" (arguments self)).map fun rest =>
          Phrase.wrap "call" (Phrase.named "function" left ++ rest))

def trailed : Reader := (atom self).bind (grow (trailer self))

def joiningWords : List String :=
  ["and", "or", "not", "in", "is", "if", "else", "as", "for", "async", "from"]

def beginsAwaited (token : Token) : Bool :=
  match token.shape with
  | .word => !joiningWords.contains token.text
  | .integer => true
  | .decimal => true
  | .stringStart => true
  | .sign => ["(", "[", openBrace, "-", "+", "~", "*", "..."].contains token.text
  | _ => false

/-- An await, where an operand follows; otherwise the word is an identifier. -/
def awaitOr (reader : Reader) : Reader := fun scope tokens =>
  match tokens with
  | first :: rest =>
    if isWord "await" first && next beginsAwaited rest && !atLineEnd scope rest then
      wrap "await" (word "await" ++ self (.primary Strength.unary)) scope tokens
    else reader scope tokens
  | [] => none

/-- Whether a starred operand is an identifier, an attribute or an index, or begins with one. -/
def isSplattable : Node → Bool
  | .mk label children =>
    match label.kind with
    | "identifier" => true
    | "attribute" => true
    | "subscript" => true
    | "call" =>
      match children with
      | function :: _ => isSplattable function
      | [] => false
    | _ => false

def starredOperand : Reader :=
  wrap "list_splat"
    (sign "*" ++
      (trailed self).refine fun phrase =>
        if phrase.all fun item => isSplattable item.node then some phrase else none)

def operand : Reader :=
  ifNext (fun token => isSign "-" token || isSign "+" token || isSign "~" token)
    (wrap "unary_operator"
      (named "operator" (anySign ["-", "+", "~"]) ++
        named "argument" (self (.primary Strength.unary)))) <|
    ifNext (isSign "*") (starredOperand self) (awaitOr self (trailed self))

/-- A binary operator that binds at least as strongly as the floor, with its right operand. -/
def binaryRest (floor : Nat) (left : Phrase) : Reader := fun scope tokens =>
  match tokens with
  | [] => none
  | first :: _ =>
    if first.shape != .sign || atLineEnd scope tokens then none
    else
      match Strength.binary? first.text with
      | none => none
      | some strength =>
        if strength < floor then none
        else
          let right := if strength == Strength.power then strength else strength + 1
          ((named "operator" (sign first.text) ++ named "right" (self (.primary right))).map
            fun rest => Phrase.wrap "binary_operator" (Phrase.named "left" left ++ rest))
            scope tokens

def primary (floor : Nat) : Reader := (operand self).bind (grow (binaryRest self floor))

def comparingSign : Reader :=
  ifNext (isWord "not")
    ((word "not" ++ word "in").map (Phrase.wrapAs false "not in")) <|
    ifNext (isWord "is")
      ((word "is" ++ optional (word "not")).map fun phrase =>
        if phrase.length = 1 then phrase else Phrase.wrapAs false "is not" phrase) <|
      either (word "in") (anySign ["<", "<=", "==", "!=", ">=", ">", "<>"])

/-- One operand, or a chain of comparisons. -/
def comparison : Reader :=
  (self (.primary Strength.operand)).bind fun left =>
    (joined (named "operators" comparingSign) ++ self (.primary Strength.operand)).many.bind
      fun others =>
        .pure (if others.isEmpty then left
          else Phrase.wrap "comparison_operator" (left ++ others))

def lambdaWith (body : Reader) : Reader :=
  wrap "lambda"
    (word "lambda" ++
      inner
        (optional (notBefore (isSign ":")
          (named "parameters" (wrap "lambda_parameters"
            (listOf (self (.parameter false)) (self (.parameter false)) ","))))) ++
      inner (sign ":") ++ named "body" body)

def beginsNamed (tokens : List Token) : Bool :=
  next (fun token => token.shape == .word) tokens && secondIsSign ":=" tokens

def simpleExpression : Reader :=
  ifNext (isWord "not")
    (wrap "not_operator"
      (word "not" ++ named "argument" (self (.expression Strength.negation)))) <|
    ifNext (isWord "lambda") (lambdaWith self (self (.expression Strength.weakest))) <|
      ifAhead beginsNamed
        (wrap "named_expression"
          (named "name" name ++ sign ":=" ++ named "value" (self (.expression Strength.aliased))))
        (comparison self)

def booleanRest (keyword : String) (strength : Nat) (left : Phrase) : Reader :=
  (named "operator" (word keyword) ++ named "right" (self (.expression (strength + 1)))).map
    fun rest => Phrase.wrap "boolean_operator" (Phrase.named "left" left ++ rest)

def conditionalRest (left : Phrase) : Reader :=
  (word "if" ++ inner (self (.expression Strength.weakest) ++ word "else") ++
      self (.expression Strength.conditional)).map
    fun rest => Phrase.wrap "conditional_expression" (left ++ rest)

def aliasRest (left : Phrase) : Reader :=
  (word "as" ++
      named "alias" (wrap "as_pattern_target" (self (.expression Strength.disjunction)))).map
    fun rest => Phrase.wrap "as_pattern" (left ++ rest)

/-- Extends an expression by an operator that binds at least as strongly as the floor. -/
def expressionRest (floor : Nat) (left : Phrase) : Reader := fun scope tokens =>
  match tokens with
  | [] => none
  | first :: _ =>
    if first.shape != .word || atLineEnd scope tokens then none
    else if first.text == "and" && floor ≤ Strength.conjunction then
      booleanRest self "and" Strength.conjunction left scope tokens
    else if first.text == "or" && floor ≤ Strength.disjunction then
      booleanRest self "or" Strength.disjunction left scope tokens
    else if first.text == "if" && floor ≤ Strength.conditional then
      conditionalRest self left scope tokens
    else if first.text == "as" && floor ≤ Strength.aliased then
      aliasRest self left scope tokens
    else none

def expression (floor : Nat) : Reader :=
  (simpleExpression self).bind (grow (expressionRest self floor))

/-- What a comprehension runs over: a condition after it belongs to the comprehension. -/
def iterable : Reader :=
  ifNext (isWord "lambda") (lambdaWith self (self .iterable)) (self (.expression Strength.aliased))

def typeArguments : Reader :=
  wrap "type_parameter"
    (bracketed
      (sign "[" ++ listOf (self (.typeForm true)) (self (.typeForm true)) "," ++ sign "]"))

def wordsWithoutArguments : List String :=
  ["True", "False", "None", "lambda", "not", "await", "print", "exec", "async", "match"]

def beginsGeneric (tokens : List Token) : Bool :=
  next (fun token => token.shape == .word && !wordsWithoutArguments.contains token.text) tokens &&
    secondIsSign "[" tokens

/-- A starred name as a type is a node of its own kind; any other expression stays as it is. -/
def splatType (phrase : Phrase) : Phrase :=
  phrase.map fun item =>
    match item.node with
    | .mk label [star, .mk operand below] =>
      if label.kind == "list_splat" && operand.kind == "identifier" then
        { item with node := .mk { label with kind := "splat_type" } [star, .mk operand below] }
      else item
    | _ => item

def simpleType : Reader :=
  ifJoined beginsGeneric (wrap "generic_type" (name ++ joined (typeArguments self))) <|
    ifNext (isSign "**") (wrap "splat_type" (sign "**" ++ name)) <|
      ifNext (isSign "*") ((self (.expression Strength.weakest)).map splatType)
        (self (.expression Strength.weakest))

def typeRest (left : Phrase) : Reader :=
  joined <|
    ifNext (isSign "|")
      ((sign "|" ++ wrap "type" (simpleType self)).map fun rest =>
        Phrase.wrap "type" (Phrase.wrap "union_type" (left ++ rest)))
      ((sign "." ++ name).map fun rest =>
        Phrase.wrap "type" (Phrase.wrap "member_type" (left ++ rest)))

def constraintRest (left : Phrase) : Reader :=
  (joined (sign ":") ++ self (.typeForm true)).map fun rest =>
    Phrase.wrap "type" (Phrase.wrap "constrained_type" (left ++ rest))

def typeForm (constrained : Bool) : Reader :=
  ((wrap "type" (simpleType self)).bind (grow (typeRest self))).bind fun left =>
    if constrained then either (constraintRest self left) (.pure left) else .pure left

end CodeGauge.Syntax.Grammar
