import StackCalculator.Proofs.Keypad.Operation

/-! # Scripts without a keypad

`Driver.interpret?` carries out the words of a script on a machine itself. It has no entry: a number
is an operand at once, unless a store word follows, which then takes it. `interpret?_eq_replay` says
that a fresh keypad leaves the same machine behind and gives back the same value.

The keypad is late by one number, the one that is being typed. So the invariant compares what the
keypad makes of the words to come with what is made of them with this number in front
(`Keypad.ahead`).
-/

namespace StackCalculator

open Script

/-- A machine and the value it gave back last. -/
structure Driver where
  machine : Machine
  last : Option Float := none

namespace Driver

def send (d : Driver) (command : Command) : Driver :=
  ⟨d.machine.perform command, d.machine.answer command⟩

/-- Binds a name to the last value; nothing happens if there is none. -/
def storeLast (d : Driver) (name : String) : Driver :=
  match d.last with
  | some value => d.send (.set name value)
  | none => d

/-- Applies the operator of a name, or refers to the variable if the machine knows no such operator.
-/
def call (d : Driver) (name : String) : Driver :=
  if d.machine.operators.contains name then d.send (.operator name) else d.send (.reference name)

/-- The driver after the words of a script, unless one of them is wrong. A number that a store word
follows at once is only bound. -/
def interpret? (d : Driver) : List Word → Option Driver
  | [] => some d
  | .number literal :: .store name :: rest =>
    match entryValue? literal with
    | some value => interpret? (d.send (.set name value)) rest
    | none => none
  | .number literal :: rest =>
    match entryValue? literal with
    | some value => interpret? (d.send (.operand value)) rest
    | none => none
  | .operator symbol :: rest => interpret? (d.send (.operator symbol)) rest
  | .name name :: rest => interpret? (d.call name) rest
  | .store name :: rest => interpret? (d.storeLast name) rest
  | .clear :: rest => interpret? (d.send .clear) rest
  | .lineBreak :: rest => interpret? d rest
  | .arrow :: _ | .unknown _ :: _ => none

theorem interpret?_number_of_none (d : Driver) {literal : String}
    (unread : entryValue? literal = none) (rest : List Word) :
    d.interpret? (.number literal :: rest) = none := by
  match rest with
  | [] => simp [interpret?, unread]
  | word :: rest => cases word <;> simp [interpret?, unread]

theorem interpret?_number (d : Driver) {literal : String} {value : Float}
    (read : entryValue? literal = some value) {rest : List Word}
    (kept : ∀ name later, rest ≠ .store name :: later) :
    d.interpret? (.number literal :: rest) = (d.send (.operand value)).interpret? rest := by
  match rest with
  | [] => simp [interpret?, read]
  | word :: rest =>
    cases word with
    | store name => exact absurd rfl (kept name rest)
    | _ => simp [interpret?, read]

end Driver

namespace Script

/-- The words of a script without its line breaks. -/
def withoutBreaks (words : List PlacedWord) : List Word :=
  (words.map PlacedWord.word).filter (· ≠ .lineBreak)

theorem withoutBreaks_of_break {placed : PlacedWord} (dropped : placed.word = .lineBreak)
    (rest : List PlacedWord) : withoutBreaks (placed :: rest) = withoutBreaks rest := by
  simp [withoutBreaks, dropped]

theorem withoutBreaks_of_spoken {placed : PlacedWord} (spoken : placed.word ≠ .lineBreak)
    (rest : List PlacedWord) :
    withoutBreaks (placed :: rest) = placed.word :: withoutBreaks rest := by
  simp [withoutBreaks, spoken]

/-- A line break presses nothing. -/
theorem replayWords_of_break {placed : PlacedWord} (dropped : placed.word = .lineBreak)
    (k : Keypad) (rest : List PlacedWord) :
    replayWords k (placed :: rest) = replayWords k rest := by
  rw [replayWords, PlacedWord.error?, dropped]
  rfl

end Script

namespace Keypad

def driver (k : Keypad) : Driver :=
  ⟨k.machine, k.display⟩

/-- The number that is being typed, as a word still to be carried out. -/
def ahead (k : Keypad) : List Word :=
  match k.entry with
  | some text => [.number text]
  | none => []

theorem ahead_of_not_typing {k : Keypad} (idle : k.entry = none) : k.ahead = [] := by
  rw [ahead, idle]

/-- What is being typed is a number. -/
def Readable (k : Keypad) : Prop :=
  ∀ text, k.entry = some text → ∃ value, entryValue? text = some value

theorem Readable.of_not_typing {k : Keypad} (idle : k.entry = none) : k.Readable := by
  intro text typed
  rw [idle] at typed
  cases typed

/-! ## Ending the typing -/

theorem operators_endTyping (k : Keypad) :
    k.endTyping.machine.operators = k.machine.operators :=
  endTyping_leaves Machine.operators (fun _ _ => rfl) k

/-- What is typed is entered as its value. -/
theorem endTyping_of_read {k : Keypad} {text : String} {value : Float} (typed : k.entry = some text)
    (read : entryValue? text = some value) : k.endTyping = k.dropEntry.send (.operand value) := by
  simp only [endTyping, isTyping, typed, Option.isSome_some, if_true, enter, current?, read]

/-- What is typed is stored as its value. -/
theorem store_of_read {k : Keypad} {text : String} {value : Float} (typed : k.entry = some text)
    (read : entryValue? text = some value) (name : String) :
    k.store name = k.dropEntry.send (.set name value) := by
  simp only [store, current?, typed, read]

theorem perform_clear_endTyping (k : Keypad) :
    k.endTyping.machine.perform .clear = k.machine.perform .clear :=
  endTyping_leaves (fun m => m.perform .clear) (fun _ _ => rfl) k

/-- Unless a store takes it, the number in front is entered before the words that follow. -/
theorem interpret?_ahead {k : Keypad} (readable : k.Readable) {words : List Word}
    (kept : ∀ name later, words ≠ .store name :: later) :
    k.driver.interpret? (k.ahead ++ words) = k.endTyping.driver.interpret? words := by
  cases typed : k.entry with
  | none => simp [ahead, endTyping, isTyping, typed]
  | some text =>
    obtain ⟨value, read⟩ := readable text typed
    rw [endTyping_of_read typed read, ahead, typed]
    exact k.driver.interpret?_number read kept

theorem interpret?_ahead_store {k : Keypad} (readable : k.Readable) (name : String)
    (words : List Word) :
    k.driver.interpret? (k.ahead ++ .store name :: words) =
      (k.store name).driver.interpret? words := by
  cases typed : k.entry with
  | none =>
    simp only [ahead, typed, List.nil_append, Driver.interpret?, Driver.storeLast, store, current?]
    cases shown : k.display with
    | none => simp [driver, dropEntry, shown]
    | some value => simp [driver, shown]; rfl
  | some text =>
    obtain ⟨value, read⟩ := readable text typed
    rw [store_of_read typed read]
    simp only [ahead, typed, List.cons_append, List.nil_append, Driver.interpret?, read]
    rfl

/-! ## One word -/

theorem pressAll_number (k : Keypad) (literal : String) :
    k.pressAll ((Word.number literal).keys k) = { k.endTyping with entry := some literal } := by
  cases typed : k.entry with
  | none => simp [Word.keys, pressAll, press, endTyping, isTyping, typed]
  | some text => simp [Word.keys, pressAll, press, endTyping, isTyping, typed]

theorem pressAll_name (k : Keypad) (name : String) :
    (k.pressAll ((Word.name name).keys k)).driver = k.endTyping.driver.call name := by
  rw [Driver.call, show k.endTyping.driver.machine.operators = k.machine.operators from
    k.operators_endTyping, Word.keys]
  split <;> rfl

/-- Only a number is still being typed after it. -/
theorem entry_pressAll_keys (k : Keypad) {placed : PlacedWord} (right : placed.error? = none)
    (spoken : placed.word ≠ .lineBreak) :
    (k.pressAll (placed.word.keys k)).entry =
      match placed.word with
      | .number literal => some literal
      | _ => none := by
  obtain ⟨word, line, start, stop⟩ := placed
  cases word with
  | number literal => rw [pressAll_number]
  | operator symbol => exact k.entry_endTyping
  | name name =>
    rw [Word.keys]
    split <;> exact k.entry_endTyping
  | store name => exact k.entry_store name
  | clear => rfl
  | lineBreak => exact absurd rfl spoken
  | arrow | unknown c => cases right

theorem exists_value_of_right {placed : PlacedWord} (right : placed.error? = none) {literal : String}
    (number : placed.word = .number literal) : ∃ value, entryValue? literal = some value := by
  apply Option.isSome_iff_exists.1
  simpa [PlacedWord.error?, number, Option.isSome_iff_ne_none] using right

theorem readable_pressAll_keys (k : Keypad) {placed : PlacedWord} (right : placed.error? = none)
    (spoken : placed.word ≠ .lineBreak) : (k.pressAll (placed.word.keys k)).Readable := by
  intro text typed
  rw [k.entry_pressAll_keys right spoken] at typed
  split at typed
  · next literal number =>
    cases typed
    exact exists_value_of_right right number
  · cases typed

/-- A right word does the same to the keypad as to the driver. -/
theorem interpret?_ahead_word {k : Keypad} (readable : k.Readable) {placed : PlacedWord}
    (right : placed.error? = none) (spoken : placed.word ≠ .lineBreak) (later : List Word) :
    k.driver.interpret? (k.ahead ++ placed.word :: later) =
      (k.pressAll (placed.word.keys k)).driver.interpret?
        ((k.pressAll (placed.word.keys k)).ahead ++ later) := by
  have entry := k.entry_pressAll_keys right spoken
  obtain ⟨word, line, start, stop⟩ := placed
  cases word with
  | number literal =>
    rw [interpret?_ahead readable (by simp), pressAll_number]
    rfl
  | operator symbol =>
    rw [interpret?_ahead readable (by simp), ahead_of_not_typing entry]
    rfl
  | name name =>
    rw [interpret?_ahead readable (by simp), ahead_of_not_typing entry, pressAll_name]
    rfl
  | store name =>
    rw [interpret?_ahead_store readable, ahead_of_not_typing entry]
    rfl
  | clear =>
    rw [interpret?_ahead readable (by simp)]
    -- what is typed is entered first on the one side and lost on the other
    simp only [Driver.interpret?, Driver.send, driver, k.perform_clear_endTyping]
    rfl
  | lineBreak => exact absurd rfl spoken
  | arrow => cases right
  | unknown c => cases right

theorem interpret?_ahead_wrong {k : Keypad} (readable : k.Readable) {placed : PlacedWord}
    {error : InputError} (wrong : placed.error? = some error) (later : List Word) :
    k.driver.interpret? (k.ahead ++ placed.word :: later) = none := by
  obtain ⟨word, line, start, stop⟩ := placed
  cases word with
  | number literal =>
    have unread : entryValue? literal = none := by
      cases read : entryValue? literal with
      | none => rfl
      | some value => simp [PlacedWord.error?, read] at wrong
    rw [interpret?_ahead readable (by simp)]
    exact Driver.interpret?_number_of_none _ unread later
  | arrow =>
    rw [interpret?_ahead readable (by simp)]
    rfl
  | unknown c =>
    rw [interpret?_ahead readable (by simp)]
    rfl
  | _ => cases wrong

/-! ## A whole script -/

theorem interpret?_ahead_eq_replayWords (words : List PlacedWord) {k : Keypad}
    (readable : k.Readable) :
    k.driver.interpret? (k.ahead ++ withoutBreaks words) =
      match replayWords k words with
      | (k, none) => some k.driver
      | (_, some _) => none := by
  induction words generalizing k with
  | nil => exact interpret?_ahead readable (by simp [withoutBreaks])
  | cons placed rest ih =>
    by_cases dropped : placed.word = .lineBreak
    · rw [replayWords_of_break dropped, withoutBreaks_of_break dropped]
      exact ih readable
    · rw [replayWords, withoutBreaks_of_spoken dropped]
      cases checked : placed.error? with
      | some error => exact interpret?_ahead_wrong readable checked _
      | none =>
        rw [interpret?_ahead_word readable checked dropped]
        exact ih (k.readable_pressAll_keys checked dropped)

end Keypad

/-- A fresh keypad that runs a script without an error leaves the machine, and gives back the value,
that the script's words leave and give back when they are carried out on the machine itself. A
script with an error has a word that cannot be carried out. -/
theorem interpret?_eq_replay (m : Machine) (source : String) :
    ({ machine := m } : Driver).interpret? (withoutBreaks (words source)) =
      match ({ machine := m } : Keypad).replay source with
      | (k, .ok result) => some ⟨k.machine, result⟩
      | (_, .error _) => none := by
  have fresh : ({ machine := m } : Keypad).Readable := .of_not_typing rfl
  have replayed := Keypad.interpret?_ahead_eq_replayWords (words source) fresh
  rw [Keypad.replay]
  refine Eq.trans replayed ?_
  cases replayWords { machine := m } (words source) with
  | mk k error => cases error <;> rfl

end StackCalculator
