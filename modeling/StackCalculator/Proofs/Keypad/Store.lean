import StackCalculator.Keypad

/-! # Storing

A store that has a value at hand binds the name to it and refers to it, and gives it back, whatever
the program lacks below the reference. A store that has none leaves the machine and the display
alone, but not the entry: text that is no number is gone then (`store_binds_or_drops`).
-/

namespace StackCalculator

/-- What a name has just been bound to is the value of the program that ends with a reference to it.
-/
theorem Machine.answer_set (m : Machine) (name : String) (value : Float) :
    m.answer (.set name value) = some value := by
  show (m.variables.set name value).get? name = some value
  rw [Variables.get?_set, if_pos rfl]

namespace Keypad

theorem store_of_current {k : Keypad} {value : Float} (atHand : k.current? = some value)
    (name : String) : k.store name = k.dropEntry.send (.set name value) := by
  rw [store, atHand]

theorem store_of_nothing {k : Keypad} (nothing : k.current? = none) (name : String) :
    k.store name = k.dropEntry := by
  rw [store, nothing]

/-- A store gives back what is at hand. -/
theorem reply_store (k : Keypad) (name : String) : k.reply (.store name) = k.current? := by
  rw [reply]
  cases atHand : k.current? with
  | none => rfl
  | some value =>
    rw [store_of_current atHand]
    exact k.machine.answer_set name value

/-- A store that gives nothing back had nothing at hand: nothing was displayed, or the text that was
being typed is no number. Then it changes nothing but that this text is gone. A store that gives a
value back binds the name to this value, adds a reference to it to the program instead of what was
typed, ends the typing and displays the value. -/
theorem store_binds_or_drops (k : Keypad) (name : String) :
    let after := k.press (.store name)
    (k.reply (.store name) = none →
      after = { k with entry := none } ∧ (after = k ↔ k.entry = none) ∧
        ∀ text, k.entry = some text → entryValue? text = none) ∧
    ∀ value, k.reply (.store name) = some value →
      (∀ text, k.entry = some text → entryValue? text = some value) ∧
      (k.entry = none → k.display = some value) ∧
      (∀ other, after.machine.variables.get? other =
        if other = name then some value else k.machine.variables.get? other) ∧
      after.machine.program.toList = k.machine.program.toList ++ [.reference name] ∧
      after.machine.operators = k.machine.operators ∧ after.machine.style = k.machine.style ∧
      after.entry = none ∧ after.display = some value := by
  intro after
  rw [reply_store]
  constructor
  · intro nothing
    have dropped : after = k.dropEntry := store_of_nothing nothing name
    refine ⟨dropped, ?_, ?_⟩
    · rw [dropped]
      constructor
      · intro same
        rw [← same]
        rfl
      · intro idle
        rw [dropEntry, ← idle]
    · intro text typed
      rwa [current?, typed] at nothing
  · intro value atHand
    have sent : after = k.dropEntry.send (.set name value) := store_of_current atHand name
    rw [sent]
    refine ⟨?_, ?_, ?_, ?_, rfl, rfl, rfl, k.machine.answer_set name value⟩
    · intro text typed
      rwa [current?, typed] at atHand
    · intro idle
      rwa [current?, idle] at atHand
    · exact k.machine.variables.get?_set name value
    · exact k.machine.program.toList_push _

/-- A store loses what is typed before it, if that is no number. -/
theorem store_drops_malformed_entry :
    let k : Keypad := { entry := some "1.2.3" }
    k.reply (.store "M") = none ∧ (k.press (.store "M")).displayText = "" ∧
      k.displayText = "1.2.3" := by
  decide +kernel

end Keypad

end StackCalculator
