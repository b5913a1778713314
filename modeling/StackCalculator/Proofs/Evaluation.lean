import StackCalculator.Machine
import StackCalculator.Proofs.StackMachine

/-! # The value of a program on a stack machine

`ValueStack.run` is the textbook machine for postfix programs: it reads every token, oldest first,
over a stack of values that may have failed. `evaluate_eq_result_run` says that the value of a
program is the top of its stack, although the walk neither reads all tokens nor keeps a failure.
-/

namespace StackCalculator

namespace ValueStack

/-- The stack after one more token. A result fails when an operand has failed or is not there. -/
def push (vars : Variables) (stack : List (Option Float)) : Token → List (Option Float)
  | .operand value => some value :: stack
  | .reference name => vars.get? name :: stack
  | .operator (.unary op) =>
    let (operand, stack) := Meaning.pop none stack
    (do return op.apply (← operand)) :: stack
  | .operator (.binary op) =>
    let (first, stack) := Meaning.pop none stack
    let (second, stack) := Meaning.pop none stack
    (do return op.apply (← first) (← second)) :: stack

def run (vars : Variables) (tokens : List Token) : List (Option Float) :=
  tokens.foldl (push vars) []

def result : List (Option Float) → Option Float
  | [] => none
  | entry :: _ => entry

theorem push_eq_step (vars : Variables) (stack : List (Option Float)) (token : Token) :
    push vars stack token = (Meaning.value vars).step stack token := by
  have pop (stack : List (Option Float)) :
      Meaning.pop none stack = ((Meaning.value vars).top stack, stack.tail) :=
    (Meaning.value vars).pop_missing stack
  match token with
  | .operand value => rfl
  | .reference name => rfl
  | .operator (.unary op) =>
    simp only [push, pop, Meaning.step]
    cases (Meaning.value vars).top stack <;> rfl
  | .operator (.binary op) =>
    simp only [push, pop, Meaning.step]
    cases (Meaning.value vars).top stack with
    | none => rfl
    | some first => cases (Meaning.value vars).top stack.tail <;> rfl

theorem run_eq_run (vars : Variables) (tokens : List Token) :
    run vars tokens = (Meaning.value vars).run tokens := by
  have same : push vars = (Meaning.value vars).step := by
    funext stack token
    exact push_eq_step vars stack token
  rw [run, same, Meaning.run]

theorem result_eq_top (vars : Variables) (stack : List (Option Float)) :
    result stack = (Meaning.value vars).top stack := by
  cases stack <;> rfl

end ValueStack

/-- A machine evaluates its program to the top of the stack that the plain machine leaves. The same
holds with anything else in place of the numbers and of the operators' functions: the walk makes of
a program what the plain machine puts on top, from the same arguments in the same order. -/
theorem evaluate_eq_result_run (m : Machine) :
    m.evaluate = ValueStack.result (ValueStack.run m.variables m.program.toList) ∧
      ∀ (α : Type) (meaning : Meaning α),
        (meaning.walk m.program.newestFirst []).1 = meaning.top (meaning.run m.program.toList) := by
  refine ⟨?_, fun α meaning => meaning.walk_newestFirst_fst m.program⟩
  calc m.evaluate
      = (Meaning.value m.variables).top ((Meaning.value m.variables).run m.program.toList) :=
        (Meaning.value m.variables).walk_newestFirst_fst m.program
    _ = ValueStack.result (ValueStack.run m.variables m.program.toList) := by
        rw [ValueStack.run_eq_run, ValueStack.result_eq_top]

end StackCalculator
