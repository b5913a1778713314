import StackCalculator.CommandLine.Outcome

/-! # The program

Reads the file that is asked for, if one is, and writes the outcome.
-/

namespace StackCalculator

def readFile? (path : String) : IO (Option String) := do
  try return some (← IO.FS.readFile path)
  catch _ => return none

end StackCalculator

def main (arguments : List String) : IO UInt32 := do
  let request := StackCalculator.Request.ofArguments arguments
  let file ← match request.path? with
    | some path => StackCalculator.readFile? path
    | none => pure none
  let outcome := request.outcome file
  for message in outcome.transcript do
    IO.eprintln message.line
  if let some line := outcome.complaint then IO.eprintln line
  IO.print outcome.output
  return outcome.status.toUInt32
