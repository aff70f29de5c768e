import ColumnFormula.CommandLine

/-!
The command line program: reads standard input if the command needs it, writes the two texts and
returns the exit code.
-/

set_option autoImplicit false
set_option relaxedAutoImplicit false

open ColumnFormula

/-- Whether the arguments lead to a command that reads standard input. -/
def needsInput (args : List String) : Bool :=
  match Command.ofArguments args with
  | .ok command => command.readsInput
  | .error _ => false

def main (args : List String) : IO UInt32 := do
  let input ← if needsInput args then (← IO.getStdin).readToEnd else pure ""
  let outcome := runArguments args input
  (← IO.getStdout).putStr outcome.stdout
  (← IO.getStderr).putStr outcome.stderr
  return outcome.exit.toUInt32
