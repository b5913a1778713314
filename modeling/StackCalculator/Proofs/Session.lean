import StackCalculator.Proofs.Keypad.Operation
import StackCalculator.Proofs.PostfixGrammar

/-! # What a machine can come to hold

A machine is worked directly, by its commands, or by way of a keypad. Whatever is done to it binds
names and adds tokens that it knows, or empties its program; so a property that survives these
changes survives a whole session (`Machine.Lasting`). `session_sound` says what follows: a program
that began empty holds only bound variables and the operators of the machine, bound names stay
bound, and a program is only ever extended, until it is cleared. Such a program has a value if and
only if it ends with a complete expression.
-/

namespace StackCalculator

open Script

/-! ## The changes to a machine -/

namespace Machine

/-- The tokens that a machine may add to its program. -/
def Knows (m : Machine) : Token → Prop
  | .operand _ => True
  | .reference name => m.variables.contains name
  | .operator op => m.operators.get? op.symbol = some op

theorem knows_push (m : Machine) (token : Token) : (m.push token).Knows = m.Knows := rfl

theorem contains_bind (m : Machine) (name : String) (value : Float) (other : String) :
    (m.bind name value).variables.contains other = (other == name || m.variables.contains other) :=
  m.variables.contains_set name value other

theorem Knows.bind {m : Machine} {token : Token} (known : m.Knows token) (name : String)
    (value : Float) : (m.bind name value).Knows token := by
  cases token with
  | operand _ => trivial
  | reference other =>
    rw [Knows, contains_bind, Bool.or_eq_true]
    exact .inr known
  | operator op => exact known

/-- A property that lasts while names are bound and known tokens are added. -/
structure Lasting (P : Machine → Prop) : Prop where
  bind : ∀ m name value, P m → P (m.bind name value)
  push : ∀ m token, m.Knows token → P m → P (m.push token)

variable {P : Machine → Prop}

theorem perform_lasting (lasting : Lasting P) {command : Command}
    (cleared : command = .clear → ∀ m : Machine, P m → P (m.perform .clear)) {m : Machine}
    (holds : P m) : P (m.perform command) := by
  cases command with
  | operand value => exact lasting.push m _ trivial holds
  | reference name =>
    rw [perform]
    split
    · next bound => exact lasting.push m _ bound holds
    · exact holds
  | set name value =>
    apply lasting.push _ _ _ (lasting.bind m name value holds)
    rw [Knows, contains_bind, beq_self_eq_true, Bool.true_or]
  | operator symbol =>
    rw [perform]
    split
    · next op found =>
      apply lasting.push m _ _ holds
      rw [Knows, Operators.symbol_of_get? found]
      exact found
    · exact holds
  | clear => exact cleared rfl m holds

end Machine

namespace Keypad

open Machine

variable {P : Machine → Prop}

theorem send_lasting (lasting : Lasting P) {command : Command} (kept : command ≠ .clear)
    {k : Keypad} (holds : P k.machine) : P (k.send command).machine :=
  perform_lasting lasting (fun same => absurd same kept) holds

theorem enter_lasting (lasting : Lasting P) {k : Keypad} (holds : P k.machine) :
    P k.enter.machine := by
  cases k.machine_enter_cases with
  | inl same => exact same ▸ holds
  | inr entered =>
    obtain ⟨value, entered⟩ := entered
    exact entered ▸ lasting.push _ _ trivial holds

theorem endTyping_lasting (lasting : Lasting P) {k : Keypad} (holds : P k.machine) :
    P k.endTyping.machine := by
  rw [endTyping]
  split
  · exact enter_lasting lasting holds
  · exact holds

theorem press_lasting (lasting : Lasting P) {key : Key}
    (cleared : key = .clear → ∀ m : Machine, P m → P (m.perform .clear)) {k : Keypad}
    (holds : P k.machine) : P (k.press key).machine := by
  match key with
  | .typed text => exact holds
  | .enter => exact enter_lasting lasting holds
  | .operate symbol => exact send_lasting lasting (by simp) (endTyping_lasting lasting holds)
  | .recall name => exact send_lasting lasting (by simp) (endTyping_lasting lasting holds)
  | .store name =>
    rw [press, store]
    split
    · apply send_lasting lasting (by simp)
      exact holds
    · exact holds
  | .clear => exact cleared rfl _ holds

end Keypad

/-! ## Sessions -/

/-- What can be done to a machine that is wired to a keypad. -/
inductive Step where
  -- gives a command to the machine itself
  | give (command : Command)
  -- binds a name, and leaves the program alone
  | bind (name : String) (value : Float)
  -- wires the machine to a new keypad
  | rewire
  | work (operation : Operation)

/-- Whether a step may empty the program. -/
def Step.Clears : Step → Prop
  | give command => command = .clear
  | bind _ _ | rewire => False
  | work operation => operation.Clears

namespace Keypad

open Machine

def take (k : Keypad) : Step → Keypad
  | .give command => { k with machine := k.machine.perform command }
  | .bind name value => { k with machine := k.machine.bind name value }
  | .rewire => { machine := k.machine }
  | .work operation => k.carryOut operation

def takeAll (k : Keypad) (steps : List Step) : Keypad :=
  steps.foldl take k

variable {P : Machine → Prop}

theorem take_lasting (lasting : Lasting P) {step : Step}
    (cleared : step.Clears → ∀ m : Machine, P m → P (m.perform .clear)) {k : Keypad}
    (holds : P k.machine) : P (k.take step).machine := by
  cases step with
  | give command => exact perform_lasting lasting cleared holds
  | bind name value => exact lasting.bind _ name value holds
  | rewire => exact holds
  | work operation =>
    have kept (k : Keypad) (key : Key) (clears : key = .clear → operation.Clears)
        (holds : P k.machine) : P (k.press key).machine :=
      press_lasting lasting (fun same => cleared (clears same)) holds
    exact carryOut_keeps kept holds

theorem takeAll_lasting (lasting : Lasting P)
    (cleared : ∀ m : Machine, P m → P (m.perform .clear)) {k : Keypad} (holds : P k.machine)
    (steps : List Step) : P (k.takeAll steps).machine := by
  induction steps generalizing k with
  | nil => exact holds
  | cons step later ih => exact ih (take_lasting lasting (fun _ => cleared) holds)

end Keypad

/-! ## What lasts -/

namespace Machine

/-- A machine over some operators whose program holds only tokens that it knows. -/
structure Sound (operators : Operators) (m : Machine) : Prop where
  operators : m.operators = operators
  known : ∀ token ∈ m.program.toList, m.Knows token

theorem lasting_sound (operators : Operators) : Lasting (Sound operators) where
  bind m name value sound := by
    refine ⟨sound.operators, ?_⟩
    intro token found
    exact (sound.known token found).bind name value
  push m token known sound := by
    refine ⟨sound.operators, ?_⟩
    intro other found
    rw [push, Program.toList_push, List.mem_append, List.mem_singleton] at found
    rw [knows_push]
    cases found with
    | inl older => exact sound.known other older
    | inr newest => exact newest ▸ known

theorem Sound.clear {operators : Operators} {m : Machine} (sound : Sound operators m) :
    Sound operators (m.perform .clear) :=
  ⟨sound.operators, fun token found => by cases found⟩

theorem lasting_contains (name : String) :
    Lasting fun m => m.variables.contains name where
  bind m other value bound := by
    rw [contains_bind, bound, Bool.or_true]
  push _ _ _ bound := bound

theorem lasting_prefix (older : List Token) :
    Lasting fun m => older <+: m.program.toList where
  bind _ _ _ extends_older := extends_older
  push m token _ extends_older := by
    rw [push, Program.toList_push]
    exact extends_older.trans (List.prefix_append _ _)

end Machine

/-- A session begins with an empty program, on a machine whose operators were learned one after
another. At any time every variable in the program is bound; every operator in it is the one of the
machine under its symbol, which is the one learned last; a bound name stays bound; and each step
extends the program, unless it clears. So the program lacks a value only when no complete expression
ends it. -/
theorem session_sound (base : Operators) (learned : List Operator) (vars : Variables)
    (style : OperandStyle) (steps : List Step) :
    let operators := learned.foldl .learn base
    let m : Machine := { program := .empty, operators, «variables» := vars, style }
    let k := ({ machine := m } : Keypad).takeAll steps
    (∀ name, .reference name ∈ k.machine.program.toList → k.machine.variables.contains name) ∧
      (∀ op, .operator op ∈ k.machine.program.toList →
        operators.get? op.symbol = some op ∧
          (learned.reverse.find? fun known => known.symbol = op.symbol).or (base.get? op.symbol) =
            some op) ∧
      (∀ further name, k.machine.variables.contains name →
        (k.takeAll further).machine.variables.contains name) ∧
      (∀ step : Step, ¬step.Clears →
        k.machine.program.toList <+: (k.take step).machine.program.toList) ∧
      (k.machine.evaluate = none ↔ ¬∃ e : Expression, e.tokens <:+ k.machine.program.toList) := by
  intro operators m k
  have empty : Machine.Sound operators m := ⟨rfl, fun token found => by cases found⟩
  have sound : Machine.Sound operators k.machine :=
    Keypad.takeAll_lasting (Machine.lasting_sound operators) (fun _ => .clear) empty steps
  have bound : ∀ name, .reference name ∈ k.machine.program.toList →
      k.machine.variables.contains name := fun name found => sound.known (.reference name) found
  refine ⟨bound, ?_, ?_, ?_, Program.evaluate_eq_none_iff bound⟩
  · intro op found
    have own : operators.get? op.symbol = some op :=
      sound.operators ▸ sound.known (.operator op) found
    exact ⟨own, (base.get?_foldl_learn learned op.symbol).symm.trans own⟩
  · intro further name contained
    exact Keypad.takeAll_lasting (Machine.lasting_contains name) (fun _ kept => kept) contained
      further
  · intro step keeps
    exact Keypad.take_lasting (Machine.lasting_prefix _) (fun clears => absurd clears keeps)
      (List.prefix_refl _)

end StackCalculator
