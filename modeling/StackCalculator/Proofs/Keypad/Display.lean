import StackCalculator.Proofs.Keypad.Operation

/-! # The display

A keypad keeps the last answer on its display and does not work it out again. `display_current` says
that this is the value of the program all the same, if anything is displayed, after any operations.
-/

namespace StackCalculator

theorem Machine.answer_cases (m : Machine) (command : Command) :
    m.answer command = none ∨ m.answer command = (m.perform command).evaluate := by
  cases command with
  | reference name =>
    rw [answer]
    split
    · exact .inr rfl
    · exact .inl rfl
  | clear => exact .inl rfl
  | operand value => exact .inr rfl
  | set name value => exact .inr rfl
  | operator symbol => exact .inr rfl

namespace Keypad

/-- What is displayed, if anything is, is the value of the program. -/
def Current (k : Keypad) : Prop :=
  k.display = none ∨ k.display = k.machine.evaluate

theorem current_send (k : Keypad) (command : Command) : (k.send command).Current :=
  k.machine.answer_cases command

theorem press_current (k : Keypad) (key : Key) (current : k.Current) : (k.press key).Current := by
  match key with
  | .typed text => exact current
  | .enter =>
    rw [press, enter]
    split
    · exact current_send _ _
    · exact .inl rfl
  | .operate symbol => exact current_send _ _
  | .recall name => exact current_send _ _
  | .store name =>
    rw [press, store]
    split
    · exact current_send _ _
    · -- nothing to store: neither the display nor the program changes
      exact current
  | .clear => exact .inl rfl

/-- After any operations on a fresh keypad, what is displayed is nothing or the value of the
program. What a script gives back without an error is what is displayed then. -/
theorem display_current (m : Machine) (operations : List Operation) :
    let k := ({ machine := m } : Keypad).carryOutAll operations
    (k.display = none ∨ k.display = k.machine.evaluate) ∧
      ∀ source after result, k.replay source = (after, .ok result) →
        result = after.display ∧ (result = none ∨ result = after.machine.evaluate) := by
  intro k
  have current : k.Current := carryOutAll_keeps press_current (.inl rfl) operations
  refine ⟨current, ?_⟩
  intro source after result replayed
  have currentAfter : (k.carryOut (.replay source)).Current :=
    carryOut_keeps (fun k key _ => press_current k key) current
  rw [carryOut, replayed] at currentAfter
  have shown : result = after.display := by
    rw [replay] at replayed
    split at replayed
    · cases replayed
      rfl
    · cases replayed
  exact ⟨shown, shown ▸ currentAfter⟩

end Keypad

end StackCalculator
