/-! # Errors in the input

What can be wrong with a script or with the assignments given to it. What the machine does not know
is no error.
-/

namespace StackCalculator

/-- Why some input is refused. Lines are counted from one. -/
inductive InputError where
  -- a text that is no word of a script
  | unexpectedText (text : String) (line : Nat)
  -- a number that is too large for a double
  | invalidNumber (literal : String) (line : Nat)
  -- an arrow without a name
  | missingName (line : Nat)
  -- a text that is no assignment
  | invalidAssignment (setting : String)
deriving DecidableEq

def InputError.message : InputError → String
  | unexpectedText text line =>
    "Error on line " ++ toString line ++ ": Unexpected token: " ++ text ++ "."
  | invalidNumber literal line =>
    "Error on line " ++ toString line ++ ": Invalid number: " ++ literal ++ "."
  | missingName line =>
    "Error on line " ++ toString line ++
      ": Expected a variable name after the store arrow. Example: 7 →M"
  | invalidAssignment setting =>
    "Invalid variable setting '" ++ setting ++ "'. Expected NAME=VALUE, for example M=7."

end StackCalculator
