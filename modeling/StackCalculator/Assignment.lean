import StackCalculator.InputError
import StackCalculator.Machine

/-! # Assignments

A text `NAME=VALUE` binds a name before a script runs. The first equals sign ends the name, blanks
around both parts are dropped, and the value has to be a finite number.
-/

namespace StackCalculator

structure Assignment where
  name : String
  value : Float

namespace Assignment

def split? (cs : List Char) : Option (List Char × List Char) :=
  match cs.dropWhile (· ≠ '=') with
  | [] => none
  | _ :: value => some (cs.takeWhile (· ≠ '='), value)

def ofChars? (cs : List Char) : Option Assignment := do
  let (name, value) ← split? cs
  let name := Text.trim name
  if name = [] then none
  else return ⟨String.ofList name, ← readFinite? (Text.trim value)⟩

def ofString (setting : String) : Except InputError Assignment :=
  match ofChars? setting.toList with
  | some assignment => .ok assignment
  | none => .error (.invalidAssignment setting)

/-- Reads assignments; the first that is none is the error. -/
def ofStrings (settings : List String) : Except InputError (List Assignment) :=
  settings.mapM ofString

end Assignment

/-- Carries out assignments in their order, so that the last one of a name counts. -/
def Machine.assign (m : Machine) (assignments : List Assignment) : Machine :=
  assignments.foldl (fun m assignment => m.bind assignment.name assignment.value) m

end StackCalculator
