import StackCalculator.Program.Walk

/-! # Programs on a stack machine

A plain stack machine reads a program from the oldest token on. `Meaning.run` is its stack, newest
entry first, when the entries are what a meaning makes of the tokens. The walk goes the other way,
keeps the operators that wait, and stops early; `walk_simulates_run` says that it still finds the
top of the stack, and `expressions_eq_reverse_run` that restarting it below each expression finds
the whole stack.

The invariant is `supply`: the operators that wait take their operands from the stack of the tokens
that the walk has not read.
-/

namespace StackCalculator.Meaning

variable {α : Type} (m : Meaning α)

/-! ## The machine -/

/-- What is popped; an empty stack has nothing but missing entries. -/
def top (stack : List α) : α :=
  stack.headD m.missing

def step (stack : List α) : Token → List α
  | .operand value => m.operand value :: stack
  | .reference name => m.reference name :: stack
  | .operator (.unary op) => m.unary op (m.top stack) :: stack.tail
  | .operator (.binary op) =>
    m.binary op (m.top stack) (m.top stack.tail) :: stack.tail.tail

def run (tokens : List Token) : List α :=
  tokens.foldl m.step []

@[simp] theorem top_cons (entry : α) (stack : List α) : m.top (entry :: stack) = entry := rfl

theorem run_concat (tokens : List Token) (token : Token) :
    m.run (tokens ++ [token]) = m.step (m.run tokens) token := by
  simp [run]

theorem run_reverse_cons (token : Token) (older : List Token) :
    m.run (token :: older).reverse = m.step (m.run older.reverse) token := by
  rw [List.reverse_cons, run_concat]

/-- What the empty stack has and each of some tokens keeps, the stack of these tokens has. -/
theorem run_keeps {P : List α → Prop} (empty : P []) {tokens : List Token}
    (kept : ∀ stack, ∀ token ∈ tokens, P stack → P (m.step stack token)) : P (m.run tokens) := by
  have onFold (newer : List Token) (among : ∀ token ∈ newer, token ∈ tokens) (stack : List α)
      (holds : P stack) : P (newer.foldl m.step stack) := by
    induction newer generalizing stack with
    | nil => exact holds
    | cons token newer ih =>
      obtain ⟨first, later⟩ := List.forall_mem_cons.1 among
      exact ih later _ (kept stack token first holds)
  exact onFold tokens (fun _ found => found) [] empty

theorem forall_top {P : α → Prop} (missing : P m.missing) {stack : List α}
    (holds : ∀ entry ∈ stack, P entry) : P (m.top stack) := by
  cases stack with
  | nil => exact missing
  | cons entry stack => exact holds entry List.mem_cons_self

/-- What a missing entry has and the meaning of each of some tokens keeps, all entries have. -/
theorem run_forall {P : α → Prop} {tokens : List Token} (missing : P m.missing)
    (operand : ∀ value, .operand value ∈ tokens → P (m.operand value))
    (reference : ∀ name, .reference name ∈ tokens → P (m.reference name))
    (unary : ∀ op, .operator (.unary op) ∈ tokens → ∀ inner, P inner → P (m.unary op inner))
    (binary : ∀ op, .operator (.binary op) ∈ tokens →
      ∀ first second, P first → P second → P (m.binary op first second)) :
    ∀ entry ∈ m.run tokens, P entry := by
  refine m.run_keeps (P := fun stack => ∀ entry ∈ stack, P entry) (List.forall_mem_nil _) ?_
  intro stack token found holds
  have below {stack : List α} (holds : ∀ entry ∈ stack, P entry) : ∀ entry ∈ stack.tail, P entry :=
    fun entry inTail => holds entry (List.mem_of_mem_tail inTail)
  match token with
  | .operand value => exact List.forall_mem_cons.2 ⟨operand value found, holds⟩
  | .reference name => exact List.forall_mem_cons.2 ⟨reference name found, holds⟩
  | .operator (.unary op) =>
    have made := unary op found _ (m.forall_top missing holds)
    exact List.forall_mem_cons.2 ⟨made, below holds⟩
  | .operator (.binary op) =>
    have made := binary op found _ _ (m.forall_top missing holds) (m.forall_top missing (below holds))
    exact List.forall_mem_cons.2 ⟨made, below (below holds)⟩

theorem step_ne_nil (stack : List α) (token : Token) : m.step stack token ≠ [] := by
  match token with
  | .operand _ | .reference _ | .operator (.unary _) | .operator (.binary _) => simp [step]

theorem run_reverse_ne_nil {tokens : List Token} (nonempty : tokens ≠ []) :
    m.run tokens.reverse ≠ [] := by
  cases tokens with
  | nil => exact absurd rfl nonempty
  | cons token older =>
    rw [run_reverse_cons]
    exact m.step_ne_nil _ token

theorem top_cons_tail {stack : List α} (nonempty : stack ≠ []) :
    m.top stack :: stack.tail = stack := by
  cases stack with
  | nil => exact absurd rfl nonempty
  | cons entry stack => rfl

/-- Takes the newest entry off a stack, or a missing one if there is none. -/
def pop (missing : α) : List α → α × List α
  | [] => (missing, [])
  | entry :: stack => (entry, stack)

theorem pop_missing (stack : List α) : pop m.missing stack = (m.top stack, stack.tail) := by
  cases stack <;> rfl

/-! ## Waiting operators -/

def resume (value : α) (pending : List (Pending α)) (older : List Token) : α × List Token :=
  match m.settle value pending with
  | .complete value => (value, older)
  | .waiting pending => m.walk older pending

theorem walk_reference (name : String) (older : List Token) (pending : List (Pending α)) :
    m.walk (.reference name :: older) pending = m.resume (m.reference name) pending older := rfl

/-- The stack after the waiting operators have taken their operands from it. -/
def supply : List (Pending α) → List α → List α
  | [], stack => stack
  | .unary op :: rest, stack => supply rest (m.unary op (m.top stack) :: stack.tail)
  | .first op :: rest, stack =>
    supply rest (m.binary op (m.top stack) (m.top stack.tail) :: stack.tail.tail)
  | .second op first :: rest, stack =>
    supply rest (m.binary op first (m.top stack) :: stack.tail)

theorem supply_of_settle_complete {value result : α} {pending : List (Pending α)}
    (settled : m.settle value pending = .complete result) (stack : List α) :
    m.supply pending (value :: stack) = result :: stack := by
  induction pending generalizing value with
  | nil =>
    cases settled
    rfl
  | cons frame rest ih =>
    cases frame with
    | unary op => exact ih settled
    | first op => cases settled
    | second op first => exact ih settled

theorem supply_of_settle_waiting {value : α} {pending later : List (Pending α)}
    (settled : m.settle value pending = .waiting later) (stack : List α) :
    m.supply pending (value :: stack) = m.supply later stack := by
  induction pending generalizing value with
  | nil => cases settled
  | cons frame rest ih =>
    cases frame with
    | unary op => exact ih settled
    | first op =>
      cases settled
      rfl
    | second op first => exact ih settled

theorem supply_singleton (value : α) (pending : List (Pending α)) :
    m.supply pending [value] = [m.exhaust value pending] := by
  induction pending generalizing value with
  | nil => rfl
  | cons frame rest ih => cases frame <;> exact ih _

/-- An empty stack supplies missing operands, except that nothing is on it when nothing waits. -/
theorem supply_empty (pending : List (Pending α)) :
    m.top (m.supply pending []) = m.exhaust m.missing pending ∧ (m.supply pending []).tail = [] := by
  cases pending with
  | nil => exact ⟨rfl, rfl⟩
  | cons frame rest =>
    -- the first operator takes a missing operand, whether that is on the stack or nothing is
    have same : m.supply (frame :: rest) [] = m.supply (frame :: rest) [m.missing] := by
      cases frame <;> rfl
    rw [same, supply_singleton]
    exact ⟨rfl, rfl⟩

/-! ## The walk finds the top of the stack -/

/-- A walk that starts with waiting operators ends with what these make of the machine's stack, and
leaves the tokens that account for the rest of it. -/
theorem walk_simulates_supply (tokens : List Token) (pending : List (Pending α)) :
    m.top (m.supply pending (m.run tokens.reverse)) = (m.walk tokens pending).1 ∧
      (m.supply pending (m.run tokens.reverse)).tail = m.run (m.walk tokens pending).2.reverse := by
  induction tokens generalizing pending with
  | nil => exact m.supply_empty pending
  | cons token older ih =>
    rw [run_reverse_cons]
    -- an operand may complete the expression, and otherwise settles some of the operators
    have complete_operand (value : α) :
        m.top (m.supply pending (value :: m.run older.reverse)) =
            (m.resume value pending older).1 ∧
          (m.supply pending (value :: m.run older.reverse)).tail =
            m.run (m.resume value pending older).2.reverse := by
      unfold resume
      cases settled : m.settle value pending with
      | complete result =>
        rw [m.supply_of_settle_complete settled]
        exact ⟨rfl, rfl⟩
      | waiting later =>
        rw [m.supply_of_settle_waiting settled]
        exact ih later
    match token with
    | .operand value => exact complete_operand (m.operand value)
    | .reference name => exact complete_operand (m.reference name)
    | .operator (.unary op) => exact ih (.unary op :: pending)
    | .operator (.binary op) => exact ih (.first op :: pending)

theorem walk_simulates_run (tokens : List Token) :
    m.top (m.run tokens.reverse) = (m.walk tokens []).1 ∧
      (m.run tokens.reverse).tail = m.run (m.walk tokens []).2.reverse :=
  m.walk_simulates_supply tokens []

theorem walk_newestFirst_fst (p : Program) :
    (m.walk p.newestFirst []).1 = m.top (m.run p.toList) :=
  (m.walk_simulates_run p.newestFirst).1.symm

/-! ## Restarting the walk finds the whole stack -/

theorem expressionsBefore_eq (later : List α) (tokens : List Token) :
    m.expressionsBefore later tokens = (m.run tokens.reverse).reverse ++ later := by
  -- every walk reads a token, but how many is known only when it ends
  induction size : tokens.length using Nat.strongRecOn generalizing later tokens with
  | ind size ih =>
    rw [expressionsBefore]
    by_cases done : tokens = []
    · subst done
      rfl
    · obtain ⟨top, rest⟩ := m.walk_simulates_run tokens
      have shorter := m.length_walk_lt tokens [] done
      rw [dif_neg done, ih _ (size ▸ shorter) _ _ rfl, ← rest, ← top,
        ← m.top_cons_tail (m.run_reverse_ne_nil done)]
      simp

theorem expressions_eq_reverse_run (p : Program) : m.expressions p = (m.run p.toList).reverse := by
  rw [expressions, expressionsBefore_eq, List.append_nil, Program.toList]

/-! ## Maps between meanings -/

/-- A map that takes what one meaning makes of tokens to what another makes of them. -/
structure Carries {α β : Type} (m : Meaning α) (other : Meaning β) (f : α → β) : Prop where
  operand : ∀ value, f (m.operand value) = other.operand value
  reference : ∀ name, f (m.reference name) = other.reference name
  unary : ∀ op operand, f (m.unary op operand) = other.unary op (f operand)
  binary : ∀ op first second, f (m.binary op first second) = other.binary op (f first) (f second)
  missing : f m.missing = other.missing

theorem Carries.top_map {β : Type} {m : Meaning α} {other : Meaning β} {f : α → β}
    (carries : Carries m other f) (stack : List α) : other.top (stack.map f) = f (m.top stack) := by
  cases stack with
  | nil => exact carries.missing.symm
  | cons entry stack => rfl

theorem Carries.run_eq_map {β : Type} {m : Meaning α} {other : Meaning β} {f : α → β}
    (carries : Carries m other f) (tokens : List Token) :
    other.run tokens = (m.run tokens).map f := by
  have onStep (stack : List α) (token : Token) :
      other.step (stack.map f) token = (m.step stack token).map f := by
    match token with
    | .operand value => simp [step, carries.operand]
    | .reference name => simp [step, carries.reference]
    | .operator (.unary op) => simp [step, carries.unary, carries.top_map]
    | .operator (.binary op) => simp [step, carries.binary, ← List.map_tail, carries.top_map]
  have onFold (stack : List α) :
      tokens.foldl other.step (stack.map f) = (tokens.foldl m.step stack).map f := by
    induction tokens generalizing stack with
    | nil => rfl
    | cons token newer ih => rw [List.foldl_cons, List.foldl_cons, onStep, ih]
  exact onFold []

/-- What one meaning makes of an expression, together with what another makes of it. -/
def both {β : Type} (m : Meaning α) (other : Meaning β) : Meaning (α × β) where
  operand value := (m.operand value, other.operand value)
  reference name := (m.reference name, other.reference name)
  unary op operand := (m.unary op operand.1, other.unary op operand.2)
  binary op first second := (m.binary op first.1 second.1, other.binary op first.2 second.2)
  missing := (m.missing, other.missing)

theorem both_carries_fst {β : Type} (m : Meaning α) (other : Meaning β) :
    Carries (m.both other) m Prod.fst :=
  ⟨fun _ => rfl, fun _ => rfl, fun _ _ => rfl, fun _ _ _ => rfl, rfl⟩

theorem both_carries_snd {β : Type} (m : Meaning α) (other : Meaning β) :
    Carries (m.both other) other Prod.snd :=
  ⟨fun _ => rfl, fun _ => rfl, fun _ _ => rfl, fun _ _ _ => rfl, rfl⟩

end StackCalculator.Meaning
