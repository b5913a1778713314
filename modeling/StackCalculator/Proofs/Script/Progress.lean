import StackCalculator.Proofs.Script.Driving

/-! # How far a script gets

`Keypad.pressWords` is a keypad after some words, before anything ends the typing. A replay presses
the words of its script up to the first wrong one. If there is none it ends the typing too
(`replay_of_right`), and otherwise it does nothing more (`replay_of_wrong`).
-/

namespace StackCalculator

open Script

namespace Keypad

/-- Presses words one after another. What is typed last is still being typed then. -/
def pressWords (k : Keypad) (words : List Word) : Keypad :=
  words.foldl (fun k word => k.pressAll (word.keys k)) k

@[simp] theorem pressWords_nil (k : Keypad) : k.pressWords [] = k := rfl

@[simp] theorem pressWords_cons (k : Keypad) (word : Word) (words : List Word) :
    k.pressWords (word :: words) = (k.pressAll (word.keys k)).pressWords words := rfl

@[simp] theorem pressWords_append (k : Keypad) (words later : List Word) :
    k.pressWords (words ++ later) = (k.pressWords words).pressWords later :=
  List.foldl_append

theorem pressWords_withoutBreaks (k : Keypad) (words : List PlacedWord) :
    k.pressWords (withoutBreaks words) = k.pressWords (words.map PlacedWord.word) := by
  induction words generalizing k with
  | nil => rfl
  | cons placed rest ih =>
    by_cases dropped : placed.word = .lineBreak
    · rw [withoutBreaks_of_break dropped, ih, List.map_cons, dropped]
      rfl
    · rw [withoutBreaks_of_spoken dropped, pressWords_cons, ih]
      rfl

end Keypad

namespace Script

/-- None of some words is wrong. -/
def Right (words : List PlacedWord) : Prop :=
  ∀ placed ∈ words, placed.error? = none

/-- Either no word is wrong, or one is the first. -/
theorem right_or_exists_wrong (words : List PlacedWord) :
    Right words ∨ ∃ before wrong later error,
      words = before ++ wrong :: later ∧ Right before ∧ wrong.error? = some error := by
  induction words with
  | nil => exact .inl (List.forall_mem_nil _)
  | cons placed rest ih =>
    cases checked : placed.error? with
    | some error => exact .inr ⟨[], placed, rest, error, rfl, List.forall_mem_nil _, checked⟩
    | none =>
      obtain right | ⟨before, wrong, later, error, rfl, right, failed⟩ := ih
      · exact .inl (List.forall_mem_cons.2 ⟨checked, right⟩)
      · exact .inr ⟨placed :: before, wrong, later, error, rfl,
          List.forall_mem_cons.2 ⟨checked, right⟩, failed⟩

theorem replayWords_append {words : List PlacedWord} (right : Right words) (k : Keypad)
    (later : List PlacedWord) :
    replayWords k (words ++ later) =
      replayWords (k.pressWords (words.map PlacedWord.word)) later := by
  induction words generalizing k with
  | nil => rfl
  | cons placed rest ih =>
    obtain ⟨here, further⟩ := List.forall_mem_cons.1 right
    rw [List.cons_append, replayWords, here]
    exact ih further _

theorem replayWords_of_right {words : List PlacedWord} (right : Right words) (k : Keypad) :
    replayWords k words = ((k.pressWords (withoutBreaks words)).endTyping, none) := by
  rw [k.pressWords_withoutBreaks]
  simpa [replayWords] using replayWords_append right k []

theorem replayWords_of_wrong {before : List PlacedWord} (right : Right before) {wrong : PlacedWord}
    {error : InputError} (failed : wrong.error? = some error) (later : List PlacedWord)
    (k : Keypad) :
    replayWords k (before ++ wrong :: later) =
      (k.pressWords (withoutBreaks before), some error) := by
  rw [replayWords_append right, k.pressWords_withoutBreaks, replayWords, failed]

end Script

namespace Keypad

/-- What a replay gives back: what is displayed, unless a word is wrong. -/
def outcome (k : Keypad) : Option InputError → Except InputError (Option Float)
  | none => .ok k.display
  | some error => .error error

theorem replay_eq (k : Keypad) (source : String) :
    k.replay source =
      ((replayWords k (words source)).1,
        (replayWords k (words source)).1.outcome (replayWords k (words source)).2) := by
  rw [replay]
  cases replayWords k (words source) with
  | mk left error => cases error <;> rfl

theorem replay_of_right {source : String} (right : Right (words source)) (k : Keypad) :
    k.replay source = ((k.pressWords (withoutBreaks (words source))).endTyping,
      .ok (k.pressWords (withoutBreaks (words source))).endTyping.display) := by
  rw [replay_eq, replayWords_of_right right]
  rfl

theorem replay_of_wrong {source : String} {before later : List PlacedWord} {wrong : PlacedWord}
    {error : InputError} (split : words source = before ++ wrong :: later) (right : Right before)
    (failed : wrong.error? = some error) (k : Keypad) :
    k.replay source = (k.pressWords (withoutBreaks before), .error error) := by
  rw [replay_eq, split, replayWords_of_wrong right failed]
  rfl

theorem right_of_replay {k left : Keypad} {source : String} {result : Option Float}
    (ran : k.replay source = (left, .ok result)) : Right (words source) := by
  obtain right | ⟨before, wrong, later, error, split, right, failed⟩ :=
    right_or_exists_wrong (words source)
  · exact right
  · rw [replay_of_wrong split right failed] at ran
    cases ran

/-! ## Ending the typing early -/

theorem endTyping_of_idle {k : Keypad} (idle : k.entry = none) : k.endTyping = k := by
  simp [endTyping, isTyping, idle]

theorem endTyping_endTyping (k : Keypad) : k.endTyping.endTyping = k.endTyping :=
  endTyping_of_idle k.entry_endTyping

/-- A number that can be entered is entered and displayed when the typing ends behind it. -/
theorem endTyping_pressAll_number {literal : String} {value : Float}
    (read : entryValue? literal = some value) (k : Keypad) :
    (k.pressAll ((Word.number literal).keys k)).endTyping =
      { machine := k.endTyping.machine.push (.operand value), display := some value } := by
  rw [pressAll_number, endTyping_of_read rfl read]
  rfl

end Keypad

namespace Script

/-- Whether a word ends the typing of what is typed before it, and changes nothing else by that. A
store takes what is typed, and a wrong word leaves it. -/
def Word.endsTyping : Word → Bool
  | .number literal => (entryValue? literal).isSome
  | .operator _ | .name _ | .clear => true
  | .store _ | .arrow | .lineBreak | .unknown _ => false

theorem error?_of_endsTyping {placed : PlacedWord} (ends : placed.word.endsTyping) :
    placed.error? = none := by
  obtain ⟨word, line, start, stop⟩ := placed
  cases word with
  | number literal =>
    rw [PlacedWord.error?]
    exact if_pos ends
  | operator _ | name _ | clear => rfl
  | store _ | arrow | lineBreak | unknown _ => cases ends

theorem right_of_endsTyping {words : List PlacedWord}
    (ends : ∀ word ∈ withoutBreaks words, word.endsTyping) : Right words := by
  intro placed found
  by_cases broken : placed.word = .lineBreak
  · rw [PlacedWord.error?, broken]
  · apply error?_of_endsTyping
    apply ends
    exact List.mem_filter.2 ⟨List.mem_map_of_mem found, by simpa using broken⟩

theorem pressAll_keys_endTyping {word : Word} (ends : word.endsTyping) (k : Keypad) :
    k.endTyping.pressAll (word.keys k.endTyping) = k.pressAll (word.keys k) := by
  cases word with
  | number literal => rw [k.pressAll_number, k.endTyping.pressAll_number, k.endTyping_endTyping]
  | operator symbol =>
    show k.endTyping.endTyping.send (.operator symbol) = k.endTyping.send (.operator symbol)
    rw [k.endTyping_endTyping]
  | name name =>
    have call : k.endTyping.pressAll [.operate name] = k.pressAll [.operate name] ∧
        k.endTyping.pressAll [.recall name] = k.pressAll [.recall name] := by
      constructor
      · show k.endTyping.endTyping.send (.operator name) = k.endTyping.send (.operator name)
        rw [k.endTyping_endTyping]
      · show k.endTyping.endTyping.send (.reference name) = k.endTyping.send (.reference name)
        rw [k.endTyping_endTyping]
    rw [Word.keys, Word.keys, k.operators_endTyping]
    split
    · exact call.1
    · exact call.2
  | clear =>
    show ({ machine := k.endTyping.machine.perform .clear } : Keypad) =
      { machine := k.machine.perform .clear }
    rw [k.perform_clear_endTyping]
  | store _ | arrow | lineBreak | unknown _ => cases ends

/-- The typing may be ended before some words, if the first of them would do so. -/
theorem replayWords_endTyping {words : List PlacedWord} {k : Keypad}
    (ends : k.entry = none ∨ ∀ word ∈ (withoutBreaks words).head?, word.endsTyping) :
    replayWords k.endTyping words = replayWords k words := by
  cases ends with
  | inl idle => rw [Keypad.endTyping_of_idle idle]
  | inr ends =>
    induction words with
    | nil => rw [replayWords, replayWords, k.endTyping_endTyping]
    | cons placed rest ih =>
      by_cases dropped : placed.word = .lineBreak
      · rw [withoutBreaks_of_break dropped] at ends
        rw [replayWords_of_break dropped, replayWords_of_break dropped]
        exact ih ends
      · have first : placed.word.endsTyping := by
          apply ends
          rw [withoutBreaks_of_spoken dropped, List.head?_cons, Option.mem_def]
        simp only [replayWords, error?_of_endsTyping first, pressAll_keys_endTyping first]

end Script

end StackCalculator
