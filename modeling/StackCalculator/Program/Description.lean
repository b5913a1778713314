import StackCalculator.Operand
import StackCalculator.Program.Walk

/-! # The description of a program

A program is described in ordinary notation, every expression for itself, oldest first. All binary
operators bind alike and from the left, so an operand on the left stands bare. An operand on the
right is put in parentheses unless it is a number or shows a parenthesis already. Nothing is written
for an operand that is missing, except that `?` marks the place on the left.
-/

namespace StackCalculator

namespace Description

/-- Whether an operand on the right is written without parentheses around it. -/
def isBare (text : String) : Bool :=
  text.toList.contains '(' || isNumeric text

def rightOperand (text : String) : String :=
  if isBare text then text else "(" ++ text ++ ")"

def leftOperand (text : String) : String :=
  if text = "" then "?" else text

theorem toList_rightOperand (text : String) :
    (rightOperand text).toList =
      if isBare text then text.toList else '(' :: (text.toList ++ [')']) := by
  rw [rightOperand]
  split
  · rfl
  · simp only [String.toList_append, List.append_assoc]
    rfl

end Description

def Meaning.description (style : OperandStyle) : Meaning String where
  operand := style.write
  reference name := name
  unary op operand := op.symbol ++ "(" ++ operand ++ ")"
  binary op first second :=
    Description.leftOperand second ++ op.symbol ++ Description.rightOperand first
  missing := ""

namespace Meaning

theorem toList_description_unary (style : OperandStyle) (op : UnaryOperator) (operand : String) :
    ((description style).unary op operand).toList =
      op.symbol.toList ++ '(' :: (operand.toList ++ [')']) := by
  show (op.symbol ++ "(" ++ operand ++ ")").toList = _
  simp only [String.toList_append, List.append_assoc]
  rfl

theorem toList_description_binary (style : OperandStyle) (op : BinaryOperator)
    (first second : String) :
    ((description style).binary op first second).toList =
      (Description.leftOperand second).toList ++
        (op.symbol.toList ++ (Description.rightOperand first).toList) := by
  show (Description.leftOperand second ++ op.symbol ++ Description.rightOperand first).toList = _
  simp only [String.toList_append, List.append_assoc]

end Meaning

structure Rendering where
  text : String
  -- how many of the tokens lie below the described expression
  remainder : Nat

namespace Program

/-- Describes the topmost expression of the oldest `stop` tokens: nothing, if there are not so many.
-/
def renderUpTo (p : Program) (style : OperandStyle) (stop : Nat) : Rendering :=
  if p.size < stop then ⟨"", stop⟩
  else
    let (text, below) := (Meaning.description style).walk (p.oldest stop) []
    ⟨text, below.length⟩

def describe (p : Program) (style : OperandStyle) : String :=
  String.intercalate ", " ((Meaning.description style).expressions p)

end Program

end StackCalculator
