import StackCalculator.Binary64.Truncation
import StackCalculator.Decimal.Layout
import StackCalculator.Decimal.Numeral
import StackCalculator.Text.Blank

/-! # Operands as text

How operands are keyed in, and how they are written in a description. An entry is a finite number
with blanks around it. In a description an operand is cut to its whole part when the style says so
and the whole part is a signed 64-bit integer; otherwise it is written in full.
-/

namespace StackCalculator

inductive OperandStyle where
  -- the whole part alone
  | truncated
  -- the shortest digits that read back
  | exact
deriving DecidableEq

/-- The whole part of a double as a signed 64-bit integer: nothing for an infinity, for what is no
number, and outside the range of these integers. -/
def wholePart? (x : Float) : Option Int :=
  if Binary64.isFinite x then
    let whole := Binary64.trunc x
    -- the limits are compared as doubles; the greatest of the integers is none, and is rounded up
    if whole < Float.ofInt Int64.minValue.toInt ∨ Float.ofInt Int64.maxValue.toInt ≤ whole then none
    else some whole.toModel.toInt64.toInt
  else none

def OperandStyle.chars (style : OperandStyle) (x : Float) : List Char :=
  match style with
  | .truncated =>
    match wholePart? x with
    | some n => Layout.ofInt n
    | none => Layout.plain.chars x
  | .exact => Layout.plain.chars x

def OperandStyle.write (style : OperandStyle) (x : Float) : String :=
  String.ofList (style.chars x)

def isNumeric (text : String) : Bool :=
  (readFinite? text.toList).isSome

def entryValue? (text : String) : Option Float :=
  readFinite? (Text.trim text.toList)

end StackCalculator
