import StackCalculator.Script.Replay

/-! # Working a keypad

A keypad is worked by pressing its keys and by running scripts on it. A script presses keys too, so
what every key keeps is kept by whatever is done with a keypad (`carryOutAll_keeps`), also by a
script that ends in an error halfway.
-/

namespace StackCalculator

open Script

/-- What can be done with a keypad. -/
inductive Operation where
  | press (key : Key)
  | replay (source : String)

namespace Operation

/-- Whether an operation may empty the program. -/
def Clears : Operation → Prop
  | press key => key = .clear
  | replay source => .clear ∈ (words source).map PlacedWord.word

end Operation

namespace Keypad

def carryOut (k : Keypad) : Operation → Keypad
  | .press key => k.press key
  | .replay source => (k.replay source).1

def carryOutAll (k : Keypad) (operations : List Operation) : Keypad :=
  operations.foldl carryOut k

/-! ## Entering -/

theorem machine_enter_cases (k : Keypad) :
    k.enter.machine = k.machine ∨ ∃ value, k.enter.machine = k.machine.push (.operand value) := by
  rw [enter]
  split
  · exact .inr ⟨_, rfl⟩
  · exact .inl rfl

theorem machine_endTyping_cases (k : Keypad) :
    k.endTyping.machine = k.machine ∨
      ∃ value, k.endTyping.machine = k.machine.push (.operand value) := by
  rw [endTyping]
  split
  · exact k.machine_enter_cases
  · exact .inl rfl

/-- What an operand leaves as it is in a machine, the end of the typing leaves as it is. -/
theorem endTyping_leaves {α : Type} (part : Machine → α)
    (left : ∀ m value, part (m.push (.operand value)) = part m) (k : Keypad) :
    part k.endTyping.machine = part k.machine := by
  cases k.machine_endTyping_cases with
  | inl same => rw [same]
  | inr entered =>
    obtain ⟨value, entered⟩ := entered
    rw [entered, left]

/-! ## What keys keep -/

variable {P : Keypad → Prop}

theorem pressAll_keeps {keys : List Key} (kept : ∀ k, ∀ key ∈ keys, P k → P (k.press key))
    {k : Keypad} (holds : P k) : P (k.pressAll keys) := by
  induction keys generalizing k with
  | nil => exact holds
  | cons key keys ih =>
    have first := kept k key List.mem_cons_self holds
    exact ih (fun k later found => kept k later (List.mem_cons_of_mem key found)) first

theorem eq_clear_of_mem_keys {k : Keypad} {word : Word} (pressed : .clear ∈ word.keys k) :
    word = .clear := by
  cases word with
  | clear => rfl
  | number literal =>
    rw [Word.keys] at pressed
    split at pressed <;> simp at pressed
  | name name =>
    rw [Word.keys] at pressed
    split at pressed <;> simp at pressed
  | operator symbol | store name | arrow | lineBreak | unknown c => simp [Word.keys] at pressed

/-- A script keeps what is kept by every key that its words press. -/
theorem replayWords_keeps {words : List PlacedWord}
    (kept : ∀ k key, (key = .clear → .clear ∈ words.map PlacedWord.word) → P k → P (k.press key))
    {k : Keypad} (holds : P k) : P (replayWords k words).1 := by
  induction words generalizing k with
  | nil =>
    rw [replayWords, endTyping]
    split
    · exact kept k .enter nofun holds
    · exact holds
  | cons placed rest ih =>
    rw [replayWords]
    split
    · exact holds
    · apply ih
      · intro k key clears
        exact kept k key fun same => List.mem_cons_of_mem _ (clears same)
      · apply pressAll_keeps _ holds
        intro other key pressed
        apply kept other key
        rintro rfl
        rw [List.map_cons, eq_clear_of_mem_keys pressed]
        exact List.mem_cons_self

theorem carryOut_keeps {operation : Operation}
    (kept : ∀ k key, (key = .clear → operation.Clears) → P k → P (k.press key))
    {k : Keypad} (holds : P k) : P (k.carryOut operation) := by
  cases operation with
  | press key => exact kept k key id holds
  | replay source =>
    have replayed := replayWords_keeps kept holds
    rw [carryOut, replay]
    split <;> next same => rwa [same] at replayed

theorem carryOutAll_keeps (kept : ∀ k key, P k → P (k.press key)) {k : Keypad} (holds : P k)
    (operations : List Operation) : P (k.carryOutAll operations) := by
  induction operations generalizing k with
  | nil => exact holds
  | cons operation later ih => exact ih (carryOut_keeps (fun k key _ => kept k key) holds)

end Keypad

end StackCalculator
