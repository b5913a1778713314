import StackCalculator.Decimal.Layout
import StackCalculator.Operator

/-! # Tokens

A token is one entry of a program: a number, the name of a variable, or an operator.
-/

namespace StackCalculator

inductive Token where
  | operand (value : Float)
  -- a variable, whose value is looked up when the program is evaluated
  | reference (name : String)
  | operator (op : Operator)

namespace Token

/-- The name of a variable or the symbol of an operator; a number has none. -/
def symbol? : Token → Option String
  | operand _ => none
  | reference name => some name
  | operator op => some op.symbol

/-- A token as text; a number is written in full. -/
def write : Token → String
  | operand value => Layout.plain.write value
  | reference name => name
  | operator op => op.symbol

end Token

end StackCalculator
