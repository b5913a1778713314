import StackCalculator.Program.Value
import StackCalculator.Proofs.StackMachine

/-! # Evaluating a program by positions

`Program.scan` evaluates the oldest tokens of a program with an index: it reads one position after
another, gives up at the first variable that is not bound, and reports an index at which there is no
token. `scanUpTo_ne_outside` says that it never reads such an index, and `evaluateUpTo_eq_scan` that
it is the evaluation of these tokens.
-/

namespace StackCalculator

inductive Scan where
  -- there is no token at this position
  | outside (position : Nat)
  -- an operand is missing, or a variable is not bound
  | failed
  | complete (value : Float) (remainder : Nat)

def Scan.evaluation (stop : Nat) : Scan → Evaluation
  | complete value remainder => ⟨some value, remainder⟩
  | outside _ | failed => ⟨none, stop⟩

namespace Pending

def feed : Float → List (Pending Float) → Settled Float
  | value, [] => .complete value
  | value, .unary op :: rest => feed (op.apply value) rest
  | value, .first op :: rest => .waiting (.second op value :: rest)
  | value, .second op newer :: rest => feed (op.apply newer value) rest

/-- An operator whose first operand has not failed. -/
def succeeding : Pending Float → Pending (Option Float)
  | .unary op => .unary op
  | .first op => .first op
  | .second op newer => .second op (some newer)

theorem settle_succeeding (vars : Variables) (value : Float) (pending : List (Pending Float)) :
    (Meaning.value vars).settle (some value) (pending.map succeeding) =
      match feed value pending with
      | .complete result => .complete (some result)
      | .waiting later => .waiting (later.map succeeding) := by
  induction pending generalizing value with
  | nil => rfl
  | cons frame rest ih =>
    cases frame with
    | unary op => exact ih (op.apply value)
    | first op => rfl
    | second op newer => exact ih (op.apply newer value)

end Pending

namespace Program

/-- Evaluates the tokens below a position, for operators that wait. -/
def scan (p : Program) (vars : Variables) : Nat → List (Pending Float) → Scan
  | 0, _ => .failed
  | position + 1, pending =>
    let complete (value : Float) : Scan :=
      match Pending.feed value pending with
      | .complete result => .complete result position
      | .waiting pending => scan p vars position pending
    match p.toList[position]? with
    | none => .outside position
    | some (.operator (.unary op)) => scan p vars position (.unary op :: pending)
    | some (.operator (.binary op)) => scan p vars position (.first op :: pending)
    | some (.operand value) => complete value
    | some (.reference name) =>
      match vars.get? name with
      | some value => complete value
      | none => .failed

def scanUpTo (p : Program) (vars : Variables) (stop : Nat) : Scan :=
  if p.size < stop then .failed else p.scan vars stop []

theorem oldest_zero (p : Program) : p.oldest 0 = [] := by
  simp [oldest_eq_reverse_take]

theorem oldest_succ (p : Program) {position : Nat} (inside : position < p.size) :
    ∃ token, p.toList[position]? = some token ∧
      p.oldest (position + 1) = token :: p.oldest position := by
  have bound : position < p.toList.length := by rwa [length_toList]
  refine ⟨p.toList[position], List.getElem?_eq_getElem bound, ?_⟩
  rw [oldest_eq_reverse_take, oldest_eq_reverse_take, List.take_add_one,
    List.getElem?_eq_getElem bound]
  simp

theorem length_oldest (p : Program) {stop : Nat} (within : stop ≤ p.size) :
    (p.oldest stop).length = stop := by
  simp [oldest_eq_reverse_take, within]

end Program

/-! ## Failures stay failures -/

namespace Meaning

theorem top_supply_failed (vars : Variables) (pending : List (Pending (Option Float)))
    (stack : List (Option Float)) :
    (value vars).top ((value vars).supply pending (none :: stack)) = none := by
  induction pending generalizing stack with
  | nil => rfl
  | cons frame rest ih =>
    cases frame with
    | unary op => exact ih stack
    | first op => exact ih stack.tail
    | second op first => cases first <;> exact ih stack

theorem walk_unbound {vars : Variables} {name : String} (unbound : vars.get? name = none)
    (older : List Token) (pending : List (Pending (Option Float))) :
    ((value vars).walk (.reference name :: older) pending).1 = none := by
  rw [← (walk_simulates_supply _ _ _).1, run_reverse_cons, step]
  simp only [value, unbound]
  exact top_supply_failed vars pending _

theorem walk_nothing (vars : Variables) (pending : List (Pending (Option Float))) :
    ((value vars).walk [] pending).1 = none := by
  rw [walk, ← top_cons (value vars) ((value vars).exhaust (value vars).missing pending) [],
    ← supply_singleton]
  exact top_supply_failed vars pending []

end Meaning

/-! ## The scan is the walk -/

namespace Program

/-- What a scan must end with when a walk of the same tokens has an answer. -/
def Agrees (p : Program) (walked : Option Float × List Token) : Scan → Prop
  | .outside _ => False
  | .failed => walked.1 = none
  | .complete value remainder =>
    walked = (some value, p.oldest remainder) ∧ remainder ≤ p.size

theorem scan_agrees (p : Program) (vars : Variables) (position : Nat)
    (pending : List (Pending Float)) (within : position ≤ p.size) :
    p.Agrees ((Meaning.value vars).walk (p.oldest position) (pending.map Pending.succeeding))
      (p.scan vars position pending) := by
  induction position generalizing pending with
  | zero =>
    rw [oldest_zero]
    exact Meaning.walk_nothing vars _
  | succ position ih =>
    obtain ⟨token, read, older⟩ := p.oldest_succ within
    have further (later : List (Pending Float)) := ih later (Nat.le_of_succ_le within)
    -- an operand completes the expression or settles some of the operators, on both sides alike
    have complete (value : Float) :
        p.Agrees ((Meaning.value vars).resume (some value) (pending.map Pending.succeeding)
            (p.oldest position))
          (match Pending.feed value pending with
            | .complete result => .complete result position
            | .waiting later => p.scan vars position later) := by
      rw [Meaning.resume, Pending.settle_succeeding]
      cases Pending.feed value pending with
      | complete result => exact ⟨rfl, Nat.le_of_succ_le within⟩
      | waiting later => exact further later
    rw [older]
    simp only [scan, read]
    match token with
    | .operator (.unary op) => exact further (.unary op :: pending)
    | .operator (.binary op) => exact further (.first op :: pending)
    | .operand value => exact complete value
    | .reference name =>
      cases bound : vars.get? name with
      | none =>
        simp only [bound]
        exact Meaning.walk_unbound bound _ _
      | some value =>
        simp only [bound]
        rw [Meaning.walk_reference, show (Meaning.value vars).reference name = some value from bound]
        exact complete value

theorem scanUpTo_ne_outside (p : Program) (vars : Variables) (stop position : Nat) :
    p.scanUpTo vars stop ≠ .outside position := by
  intro outside
  rw [scanUpTo] at outside
  split at outside
  · cases outside
  · next within =>
    have agrees := p.scan_agrees vars stop [] (Nat.le_of_not_lt within)
    rw [outside] at agrees
    exact agrees

theorem evaluateUpTo_eq_scan (p : Program) (vars : Variables) (stop : Nat) :
    p.evaluateUpTo vars stop = (p.scanUpTo vars stop).evaluation stop := by
  rw [evaluateUpTo, scanUpTo]
  split
  · rfl
  · next within =>
    have agrees := p.scan_agrees vars stop [] (Nat.le_of_not_lt within)
    rw [List.map_nil] at agrees
    cases scanned : p.scan vars stop [] with
    | outside position =>
      rw [scanned] at agrees
      exact agrees.elim
    | failed =>
      rw [scanned] at agrees
      generalize (Meaning.value vars).walk (p.oldest stop) [] = walked at agrees
      obtain ⟨value, below⟩ := walked
      obtain rfl : value = none := agrees
      rfl
    | complete value remainder =>
      rw [scanned] at agrees
      obtain ⟨walked, bound⟩ := agrees
      simp only [walked, Scan.evaluation, p.length_oldest bound]

end Program

end StackCalculator
