import CodeGauge.Command.Option
import CodeGauge.Inspection

/-!
# The command line

The options common to all commands come first, then the name of a command and its own options.  The
arguments make an invocation or are refused.
-/

namespace CodeGauge.Command

/-- The commands that run. -/
inductive CommandName where
  | inspect
  | print
  deriving Repr, DecidableEq

/-- A command that an argument names. -/
inductive Named where
  | run (name : CommandName)
  | help
  deriving Repr, DecidableEq

def named? (argument : List Char) : Option Named :=
  if argument = "inspect".toList then some (.run .inspect)
  else if argument = "show".toList then some (.run .print)
  else if argument = "help".toList then some .help
  else none

def helpSwitch : Switch := ⟨.help, "help".toList, some 'h', .stop .help⟩

def commonSwitches : List Switch :=
  [⟨.repository, "repo".toList, none, .path⟩, ⟨.universalTime, "utc".toList, none, .once⟩,
    ⟨.noProgress, "no-progress".toList, none, .once⟩,
    ⟨.verbose, "verbose".toList, some 'v', .often⟩, helpSwitch,
    ⟨.version, "version".toList, some 'V', .stop .version⟩]

def historySwitches : List Switch :=
  [⟨.history, "history".toList, none, .once⟩,
    ⟨.mostCommits, "max-history".toList, none, .integer⟩]

def CommandName.switches : CommandName → List Switch
  | .inspect =>
    ⟨.output, "output".toList, some 'o', .path⟩ :: ⟨.json, "json".toList, none, .once⟩ ::
      helpSwitch :: historySwitches
  | .print =>
    ⟨.json, "json".toList, none, .once⟩ :: ⟨.jsonLines, "ndjson".toList, none, .once⟩ ::
      helpSwitch :: historySwitches

/-- Reads an argument as an option or as an awaited value, and nothing if it is neither. -/
def readArgument (switches : List Switch) (reading : Reading) (argument : List Char) :
    Except Refusal (Option Reading) :=
  let otherwise : Except Refusal (Option Reading) :=
    .ok (if reading.awaits then some (reading.supply argument) else none)
  match argument with
  | '-' :: '-' :: rest =>
    let (word, attached) := rest.span (· != '=')
    let text := if attached.isEmpty then none else some attached.tail
    (reading.takeWord switches word text).map some
  | '-' :: letter :: rest =>
    if reading.awaitsInteger && isNegativeNumber (letter :: rest) then otherwise
    else (reading.takeLetters switches (letter :: rest)).map some
  | _ => otherwise

def separator : List Char := ['-', '-']

/-- What a plain argument is refused for, where no plain argument is wanted but a command. -/
def refusalOfPlain (separated : Bool) (argument : List Char) : Refusal :=
  if separated && (named? argument).isSome then .unknownArgument else .unknownCommand

def readOptions (switches : List Switch) : Reading → List (List Char) →
    Except Refusal (List (Topic × Value))
  | reading, [] => reading.settle
  | reading, argument :: others =>
    if argument = separator then
      match others with
      | [] => reading.settle
      | _ => .error .unknownArgument
    else
      match readArgument switches reading argument with
      | .error refusal => .error refusal
      | .ok none => .error .unknownArgument
      | .ok (some reading) => readOptions switches reading others

/-- What help is asked on: the name of a command at most. -/
def readHelp : List (List Char) → Refusal
  | [] => .help
  | [argument] => if (named? argument).isSome then .help else .unknownCommand
  | _ => .unknownCommand

/-- The settled common options, the command and its settled options. -/
structure Matches where
  common : List (Topic × Value)
  command : CommandName
  own : List (Topic × Value)

/-- What no command at all is refused for, after some options. -/
def refusalOfNone (settled : List (Topic × Value)) : Refusal :=
  if settled.isEmpty then .nothingGiven else .missingCommand

/-- Reads common options up to the name of a command, and the command behind it.  A common option
that is not settled by then is settled after the command is read. -/
def readCommand : Reading → List (List Char) → Except Refusal Matches
  | reading, [] => do
    let settled ← reading.settle
    .error (refusalOfNone settled)
  | reading, argument :: others =>
    match (if reading.awaits then none else named? argument) with
    | some .help => .error (readHelp others)
    | some (.run command) => do
      let own ← readOptions command.switches .start others
      let common ← reading.settle
      return ⟨common, command, own⟩
    | none =>
      if argument = separator then
        match others with
        | [] => do
          let settled ← reading.settle
          .error (refusalOfNone settled)
        | plain :: _ => .error (refusalOfPlain true plain)
      else
        match readArgument commonSwitches reading argument with
        | .error refusal => .error refusal
        | .ok none => .error (refusalOfPlain false argument)
        | .ok (some reading) => readCommand reading others

/-- How a report is printed. -/
inductive Format where
  | json
  | jsonLines
  | summary
  deriving Repr, DecidableEq

/-- What is to be run. -/
structure Invocation where
  repository : Option (List Char)
  settings : Settings
  output : Option (List Char)
  format : Format
  deriving Repr, DecidableEq

def pathOf (settled : List (Topic × Value)) (topic : Topic) : Option (List Char) :=
  match settled.lookup topic with
  | some (.path text) => some text
  | _ => none

/-- The number that an option gives, and zero if it is not given. -/
def integerOf (settled : List (Topic × Value)) (topic : Topic) : Int :=
  match settled.lookup topic with
  | some (.integer n) => n
  | _ => 0

def isGiven (settled : List (Topic × Value)) (topic : Topic) : Bool :=
  (settled.lookup topic).isSome

def defaultOutput : List Char := "metrics".toList

def Matches.invocation (found : Matches) : Invocation :=
  { repository := pathOf found.common .repository
    settings :=
      { wholeLog := isGiven found.own .history
        mostCommits := integerOf found.own .mostCommits
        universalTime := isGiven found.common .universalTime }
    output :=
      match found.command with
      | .inspect => some ((pathOf found.own .output).getD defaultOutput)
      | .print => none
    format :=
      if isGiven found.own .json then .json
      else if isGiven found.own .jsonLines then .jsonLines
      else .summary }

/-- The invocation that some arguments make, or why they are refused. -/
def parseArguments (arguments : List String) : Except Refusal Invocation :=
  (readCommand .start (arguments.map String.toList)).map Matches.invocation

end CodeGauge.Command
