import CodeGauge.Syntax.Scan

/-!
# Readers of phrases

A reader takes a phrase off the front of a token list: a run of sibling nodes, each with the
comments and joints in front of it.  Wrapping a phrase makes one node of it; what stood in front of
the phrase then stands in front of the node.  The grammar is written with open recursion: each part
is a reader that is given the readers of the recursive rules.
-/

namespace CodeGauge.Syntax

/-- A sibling with the extras in front of it. -/
structure Item where
  lead : List Node
  node : Node
  /-- Whether the node marks a line end or a change of indentation and stays out of the tree. -/
  hidden : Bool

abbrev Phrase := List Item

def Item.hide (item : Item) : Item := { item with hidden := true }

/-- The nodes of an item that stay in the tree, without what stands in front of it. -/
def Item.visible (item : Item) : List Node :=
  if item.hidden then [] else [item.node]

namespace Phrase

def nodes : Phrase → List Node
  | [] => []
  | first :: others => first.visible ++ others.flatMap fun item => item.lead ++ item.visible

def wrapAs (named : Bool) (kind : String) (phrase : Phrase) : Phrase :=
  match phrase with
  | [] => []
  | first :: others =>
    let last := (others.getLast?).getD first
    let label : Label :=
      ⟨kind, named, false, false, false, none, first.node.label.start, last.node.label.stopByte,
        last.node.label.stopRow⟩
    [⟨first.lead, .mk label (nodes phrase), false⟩]

def wrap (kind : String) (phrase : Phrase) : Phrase := wrapAs true kind phrase

/-- Puts the siblings of a phrase under a field name, unless they already have one. -/
def named (field : String) (phrase : Phrase) : Phrase :=
  phrase.map fun item =>
    match item.node with
    | .mk label children =>
      { item with node := .mk { label with field := label.field.or (some field) } children }

end Phrase

/-- What a line end means to a reader. -/
inductive Ending where
  | line
  /-- It is white space, but the next line may not be indented less than the block. -/
  | header
  | bracket
  deriving Repr, DecidableEq

/-- Where a reader stands. -/
structure Scope where
  block : Nat
  ending : Ending
  /-- A bound on the length of any repetition. -/
  allowance : Nat

/-- Takes a phrase off a token list, or fails. -/
def Reader : Type := Scope → List Token → Option (Phrase × List Token)

namespace Reader

def fail : Reader := fun _ _ => none

def empty : Reader := fun _ tokens => some ([], tokens)

def append (first second : Reader) : Reader := fun scope tokens =>
  match first scope tokens with
  | none => none
  | some (phrase, rest) =>
    match second scope rest with
    | none => none
    | some (others, rest) => some (phrase ++ others, rest)

instance instAppend : Append Reader := ⟨append⟩

/-- The second reader where the first one fails; it is not run otherwise. -/
def either (first second : Reader) : Reader := fun scope tokens =>
  match first scope tokens with
  | none => second scope tokens
  | some result => some result

def optional (reader : Reader) : Reader := either reader empty

def map (change : Phrase → Phrase) (reader : Reader) : Reader := fun scope tokens =>
  match reader scope tokens with
  | none => none
  | some (phrase, rest) => some (change phrase, rest)

/-- Changes the phrase of a reader by a function that can refuse it. -/
def refine (change : Phrase → Option Phrase) (reader : Reader) : Reader := fun scope tokens =>
  match reader scope tokens with
  | none => none
  | some (phrase, rest) => (change phrase).map fun phrase => (phrase, rest)

def wrap (kind : String) (reader : Reader) : Reader := reader.map (Phrase.wrap kind)

def named (field : String) (reader : Reader) : Reader := reader.map (Phrase.named field)

def pure (phrase : Phrase) : Reader := fun _ tokens => some (phrase, tokens)

/-- A reader whose choice hangs on the phrase of another one. -/
def bind (reader : Reader) (next : Phrase → Reader) : Reader := fun scope tokens =>
  match reader scope tokens with
  | none => none
  | some (phrase, rest) => next phrase scope rest

def times (reader : Reader) : (count : Nat) → Reader
  | 0 => empty
  | count + 1 => fun scope tokens =>
    match reader scope tokens with
    | none => some ([], tokens)
    | some (phrase, rest) =>
      match times reader count scope rest with
      | none => none
      | some (others, rest) => some (phrase ++ others, rest)

def many (reader : Reader) : Reader := fun scope tokens =>
  times reader scope.allowance scope tokens

def oneOrMore (reader : Reader) : Reader := reader ++ reader.many

def growTimes (extend : Phrase → Reader) : (count : Nat) → Phrase → Reader
  | 0, left => pure left
  | count + 1, left => fun scope tokens =>
    match extend left scope tokens with
    | none => some (left, tokens)
    | some (left, rest) => growTimes extend count left scope rest

/-- Extends a phrase to the right as long as it can be extended. -/
def grow (extend : Phrase → Reader) (left : Phrase) : Reader := fun scope tokens =>
  growTimes extend scope.allowance left scope tokens

def within (change : Scope → Scope) (reader : Reader) : Reader := fun scope tokens =>
  reader (change scope) tokens

def bracketed : Reader → Reader := within fun scope => { scope with ending := .bracket }

def inner : Reader → Reader := within fun scope =>
  match scope.ending with
  | .line => { scope with ending := .header }
  | _ => scope

def lined : Reader → Reader := within fun scope => { scope with ending := .line }

/-- Whether the first of some tokens stands behind a line end that ends the statement. -/
def atLineEnd (scope : Scope) (tokens : List Token) : Bool :=
  scope.ending == .line && tokens.head?.any fun token => token.gap.turned

/-- Reads only where the statement has not ended. -/
def joined (reader : Reader) : Reader := fun scope tokens =>
  if atLineEnd scope tokens then none else reader scope tokens

/-- Whether a token may be read without leaving its block: outside brackets its line is indented no
less than the block, unless it opens a string without letters in front. -/
def admits (scope : Scope) (token : Token) : Bool :=
  scope.ending == .bracket || !token.gap.turned || scope.block ≤ token.gap.indent ||
    (token.shape == .stringStart && !(token.text.toList.head?.any isStringLetter))

def item (kind : String) (named : Bool) (token : Token) : Item :=
  ⟨token.gap.extras, leaf kind named token.start token.stop, false⟩

def token (choose : Token → Option (String × Bool)) : Reader := fun scope tokens =>
  match tokens with
  | [] => none
  | token :: rest =>
    if admits scope token then
      (choose token).map fun (kind, named) => ([item kind named token], rest)
    else none

def isWord (word : String) (token : Token) : Bool := token.shape == .word && token.text == word

def isSign (sign : String) (token : Token) : Bool := token.shape == .sign && token.text == sign

def next (test : Token → Bool) (tokens : List Token) : Bool := tokens.head?.any test

def word (text : String) : Reader :=
  token fun token => if isWord text token then some (text, false) else none

def sign (text : String) : Reader :=
  token fun token => if isSign text token then some (text, false) else none

def anySign (texts : List String) : Reader :=
  token fun token =>
    if token.shape == .sign && texts.contains token.text then some (token.text, false)
    else none

def shape (shape : Shape) (kind : String) : Reader :=
  token fun token => if token.shape == shape then some (kind, true) else none

/-- Any word at all, as an identifier: a keyword is one only where the grammar asks for it. -/
def name : Reader := shape .word "identifier"

def nameExcept (words : List String) : Reader :=
  token fun token =>
    if token.shape == .word && !words.contains token.text then some ("identifier", true)
    else none

def before (test : Token → Bool) (reader : Reader) : Reader := fun scope tokens =>
  if next test tokens then reader scope tokens else none

def notBefore (test : Token → Bool) (reader : Reader) : Reader := fun scope tokens =>
  if next test tokens then none else reader scope tokens

/-- Items with a sign between them; the sign may also stand at the end.  After the first sign an
item is read by the second reader, and a statement may end. -/
def listOf (first later : Reader) (comma : String) : Reader :=
  first ++ (joined (sign comma) ++ joined later).many ++ optional (joined (sign comma))

def separated (reader : Reader) (comma : String) : Reader :=
  reader ++ (joined (sign comma) ++ reader).many

/-- Where the extras near the last token end. -/
def nearEnd (gap : Gap) : Place :=
  match gap.near.getLast? with
  | none => gap.origin
  | some extra =>
    let start := extra.label.start
    ⟨extra.label.stopByte, extra.label.stopRow, start.column + (extra.label.stopByte - start.byte)⟩

/-- The leaf of a line end or a deeper indentation, and the gap after it. -/
def edge (gap : Gap) : Item × Gap :=
  let place := nearEnd gap
  (⟨gap.near, leaf "" false place place, true⟩, { gap with near := [], origin := place })

def newline : Reader := fun _ tokens =>
  match tokens with
  | [] => none
  | token :: rest =>
    if token.gap.turned then
      let (item, gap) := edge token.gap
      some ([item], { token with gap } :: rest)
    else none

def leavesBlock (scope : Scope) (tokens : List Token) : Bool :=
  tokens.head?.any fun token => token.gap.turned && token.gap.indent < scope.block

def entersBlock (scope : Scope) (tokens : List Token) : Bool :=
  tokens.head?.any fun token => token.gap.turned && scope.block < token.gap.indent

/-- Reads only what still belongs to the block. -/
def staying (reader : Reader) : Reader := fun scope tokens =>
  if leavesBlock scope tokens then none else reader scope tokens

/-- Splits the extras of a gap at the first comment that is indented less than a block.  A joint
goes with the comment after it. -/
def splitExtras (block : Nat) :
    List (Option Nat × Node) → List (Option Nat × Node) × List (Option Nat × Node)
  | [] => ([], [])
  | extra :: others =>
    let indent := ((extra :: others).findSome? fun extra => extra.1).getD 0
    if block ≤ indent then
      let (kept, left) := splitExtras block others
      (extra :: kept, left)
    else ([], extra :: others)

/-- The end of a block: comments that are indented as deep as the block still belong to it. -/
def dedent : Reader := fun scope tokens =>
  match tokens with
  | [] => none
  | token :: rest =>
    if leavesBlock scope tokens then
      let (kept, left) := splitExtras scope.block token.gap.far
      let extras := token.gap.near ++ kept.map (·.2)
      let gap := token.gap
      let place : Place :=
        match extras.getLast? with
        | none => gap.origin
        | some extra => ⟨extra.label.stopByte, extra.label.stopRow, 0⟩
      let gap := { gap with origin := place, near := [], far := left }
      some ([⟨extras, leaf "" false place place, true⟩], { token with gap } :: rest)
    else none

def indented (reader : Reader) : Reader := fun scope tokens =>
  match tokens with
  | [] => none
  | token :: rest =>
    if entersBlock scope tokens then
      let (item, gap) := edge token.gap
      let deeper := { scope with block := token.gap.indent, ending := .line }
      match reader deeper ({ token with gap } :: rest) with
      | none => none
      | some (phrase, rest) => some (item :: phrase, rest)
    else none

end Reader

/-- The rules through which the grammar refers to itself. -/
inductive Rule where
  | expression (floor : Nat)
  | primary (floor : Nat)
  | iterable
  /-- A type; a constraint after a colon may belong to it. -/
  | typeForm (constrained : Bool)
  | replacement (kind : String)
  | target
  | parameter (typed : Bool)
  | casePattern
  /-- A pattern of a case without alternatives. -/
  | closedPattern
  | rightSide
  | statement

/-- Readers of the recursive rules. -/
abbrev Grammar := Rule → Reader

namespace Strength

/-- The body of a lambda takes everything. -/
def weakest : Nat := 0
/-- `a if b else c`. -/
def conditional : Nat := 1
/-- `a as b` and `a := b`. -/
def aliased : Nat := 2
/-- `a or b`. -/
def disjunction : Nat := 3
/-- `a and b`. -/
def conjunction : Nat := 4
/-- `not a`. -/
def negation : Nat := 5
/-- The operands of comparisons. -/
def operand : Nat := 7
/-- `-a` and `await a`. -/
def unary : Nat := 13
/-- `a ** b`. -/
def power : Nat := 14

def binary? (sign : String) : Option Nat :=
  if sign == "|" then some 7
  else if sign == "&" then some 8
  else if sign == "^" then some 9
  else if sign == "<<" || sign == ">>" then some 10
  else if sign == "+" || sign == "-" then some 11
  else if ["*", "@", "/", "%", "//"].contains sign then some 12
  else if sign == "**" then some power
  else none

end Strength

namespace Reader

def secondIsSign (sign : String) (tokens : List Token) : Bool :=
  match tokens with
  | _ :: second :: _ => isSign sign second
  | _ => false

def secondIsWord (words : List String) (tokens : List Token) : Bool :=
  match tokens with
  | _ :: second :: _ => second.shape == .word && words.contains second.text
  | _ => false

def ifAhead (test : List Token → Bool) (yes no : Reader) : Reader := fun scope tokens =>
  if test tokens then yes scope tokens else no scope tokens

/-- Chooses between two readers by the tokens ahead, of which the second one has to belong to the
same statement as the first. -/
def ifJoined (test : List Token → Bool) (yes no : Reader) : Reader := fun scope tokens =>
  if test tokens && !atLineEnd scope (tokens.drop 1) then yes scope tokens else no scope tokens

def ifNext (test : Token → Bool) (yes no : Reader) : Reader := ifAhead (next test) yes no

end Reader

end CodeGauge.Syntax
