import StackCalculator.Program.Walk
import StackCalculator.Variables

/-! # The value of a program

The value of a program is the value of the expression on top. There is none if the program is empty,
an operand is missing, or a variable is not bound; only this expression counts, whatever lies below
it.
-/

namespace StackCalculator

def Meaning.value (vars : Variables) : Meaning (Option Float) where
  operand := some
  reference := vars.get?
  unary op operand := operand.map op.apply
  binary op first second :=
    match first, second with
    | some first, some second => some (op.apply first second)
    | _, _ => none
  missing := none

structure Evaluation where
  value : Option Float
  -- how many of the tokens lie below the evaluated expression: all, if it has no value
  remainder : Nat

namespace Program

/-- The value of the oldest `stop` tokens. There is none if there are not so many. -/
def evaluateUpTo (p : Program) (vars : Variables) (stop : Nat) : Evaluation :=
  if p.size < stop then ⟨none, stop⟩
  else
    match (Meaning.value vars).walk (p.oldest stop) [] with
    | (some value, below) => ⟨some value, below.length⟩
    | (none, _) => ⟨none, stop⟩

def evaluate (p : Program) (vars : Variables) : Option Float :=
  ((Meaning.value vars).walk p.newestFirst []).1

theorem value_evaluateUpTo_size (p : Program) (vars : Variables) :
    (p.evaluateUpTo vars p.size).value = p.evaluate vars := by
  rw [evaluateUpTo, if_neg (Nat.lt_irrefl _), oldest_size, evaluate]
  split <;> simp_all

end Program

end StackCalculator
