import StackCalculator.Program.Basic

/-! # Walking a program from the top

The newest token decides what a program says: an operand or a reference is complete by itself, and
an operator waits for its operands, which the tokens below it make up. `Meaning.walk` reads tokens
from the top down, keeps the operators that still wait, and stops as soon as the newest expression
is complete. What it makes of the tokens on the way is the `Meaning`: numbers for the value of a
program, text for its description. A program that ends too early lacks operands; each of them is the
meaning's `missing`.

Every step is a recursion on the tokens left or on the operators waiting, so a walk ends however
deep the operators are nested.
-/

namespace StackCalculator

structure Meaning (α : Type) where
  operand : Float → α
  reference : String → α
  unary : UnaryOperator → α → α
  -- the newer operand comes first
  binary : BinaryOperator → α → α → α
  -- stands for an operand that the program does not have
  missing : α

inductive Pending (α : Type) where
  -- waits for its only operand
  | unary (op : UnaryOperator)
  -- waits for both operands; the newer one comes first
  | first (op : BinaryOperator)
  -- has its first operand and waits for the second
  | second (op : BinaryOperator) (first : α)

inductive Settled (α : Type) where
  -- no operator waits any more
  | complete (value : α)
  -- these operators wait, the topmost for its second operand
  | waiting (pending : List (Pending α))

namespace Meaning

variable {α : Type} (m : Meaning α)

/-- Hands a complete operand to the operator that waits for it, and so on with the operands that
this completes, until an operator needs another one. -/
def settle : α → List (Pending α) → Settled α
  | value, [] => .complete value
  | value, .unary op :: rest => settle (m.unary op value) rest
  | value, .first op :: rest => .waiting (.second op value :: rest)
  | value, .second op first :: rest => settle (m.binary op first value) rest

/-- Hands an operand to the operators that wait when no token is left, so that every operand still
needed is missing. -/
def exhaust : α → List (Pending α) → α
  | value, [] => value
  | value, .unary op :: rest => exhaust (m.unary op value) rest
  | value, .first op :: rest => exhaust (m.binary op value m.missing) rest
  | value, .second op first :: rest => exhaust (m.binary op first value) rest

/-- Reads tokens, newest first, until the expression on top is complete. The answer is what the
meaning makes of it and the tokens below it. -/
def walk : List Token → List (Pending α) → α × List Token
  | [], pending => (m.exhaust m.missing pending, [])
  | .operator (.unary op) :: rest, pending => walk rest (.unary op :: pending)
  | .operator (.binary op) :: rest, pending => walk rest (.first op :: pending)
  | .operand value :: rest, pending =>
    match m.settle (m.operand value) pending with
    | .complete value => (value, rest)
    | .waiting pending => walk rest pending
  | .reference name :: rest, pending =>
    match m.settle (m.reference name) pending with
    | .complete value => (value, rest)
    | .waiting pending => walk rest pending

theorem length_walk_lt (tokens : List Token) (pending : List (Pending α)) (h : tokens ≠ []) :
    (m.walk tokens pending).2.length < tokens.length := by
  induction tokens generalizing pending with
  | nil => exact absurd rfl h
  | cons token rest ih =>
    have further (pending : List (Pending α)) :
        (m.walk rest pending).2.length < (token :: rest).length := by
      cases rest with
      | nil => simp [walk]
      | cons next rest => exact Nat.lt_succ_of_lt (ih pending (by simp))
    match token with
    | .operator (.unary op) => exact further _
    | .operator (.binary op) => exact further _
    | .operand value =>
      rw [walk]
      split
      · simp
      · exact further _
    | .reference name =>
      rw [walk]
      split
      · simp
      · exact further _

/-- Everything a program says, in front of `later`: what the meaning makes of each expression,
oldest first. -/
def expressionsBefore (later : List α) (tokens : List Token) : List α :=
  if _ : tokens = [] then later
  else
    let walked := m.walk tokens []
    expressionsBefore (walked.1 :: later) walked.2
termination_by tokens.length
decreasing_by exact m.length_walk_lt tokens [] ‹_›

def expressions (p : Program) : List α :=
  m.expressionsBefore [] p.newestFirst

end Meaning

end StackCalculator
