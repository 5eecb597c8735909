import CodeGauge.Command.Run
import CodeGauge.Json.Parser

/-!
# The program

The program reads a session from its standard input and runs its arguments as a command line in it.
It prints the text of the command and then, on a line of its own, the file tree that is left.
-/

open CodeGauge

/-- Runs the arguments in the session that stands on the standard input. -/
def main (arguments : List String) : IO UInt32 := do
  let input ← (← IO.getStdin).readToEnd
  match (Json.parse? input).bind Command.Surroundings.ofJson? with
  | none =>
    IO.eprintln "malformed session"
    return 2
  | some surroundings =>
    let outcome := Command.run surroundings arguments
    IO.print outcome.text
    match outcome.problem with
    | some problem =>
      IO.eprintln problem.message
      return 1
    | none =>
      IO.println ((Command.filesJson outcome.files).render .compact)
      return 0
