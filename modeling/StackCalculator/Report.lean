import StackCalculator.Assignment
import StackCalculator.Script.Replay

/-! # Reports

A report is what a run of a script shows: the value left on the display, and in front of it, if
asked for, the description of the program.
-/

namespace StackCalculator

structure Settings where
  -- whether the description is shown
  describe : Bool := false
  style : OperandStyle := .truncated
  assignments : List Assignment := []

namespace Settings

def machine (settings : Settings) : Machine :=
  { style := settings.style : Machine }.assign settings.assignments

def keypad (settings : Settings) : Keypad :=
  { machine := settings.machine }

/-- What is shown of a keypad after a run, as a line. Without a description there is no line for an
empty display. -/
def render (settings : Settings) (k : Keypad) : String :=
  let value := k.display.map Layout.plain.write
  if settings.describe then k.machine.describe ++ " = " ++ value.getD "?" ++ "\n"
  else match value with
    | some text => text ++ "\n"
    | none => ""

def report (settings : Settings) (source : String) : Except InputError String :=
  match settings.keypad.replay source with
  | (k, .ok _) => .ok (settings.render k)
  | (_, .error error) => .error error

def transcript (settings : Settings) (source : String) : List Message :=
  settings.keypad.replayTranscript source

end Settings

end StackCalculator
