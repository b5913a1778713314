import Mathlib.Data.List.Basic
import Mathlib.Data.List.Induction
import StackCalculator.Proofs.Script.Progress

/-! # What a script gives back

A script gives back what is displayed at its end, and that is the value of the program then, with
one exception (`replay_result`): a name that is neither that of an operator nor bound leaves the
program alone and displays nothing, and so does every store behind it. An operator that is unknown
leaves the program alone too, but displays its value.
-/

namespace StackCalculator

open Script

/-- The answer to a command is the value of the program after it, unless it asks for a name that is
not bound. -/
theorem Machine.answer_eq_evaluate {m : Machine} {command : Command}
    (bound : ∀ name, command = .reference name → m.variables.contains name) :
    m.answer command = (m.perform command).evaluate := by
  cases command with
  | reference name => exact if_pos (bound name rfl)
  | clear => rfl
  | operand value => rfl
  | set name value => rfl
  | operator symbol => rfl

namespace Keypad

/-- A name is neither that of an operator nor bound. -/
def Lacks (k : Keypad) (name : String) : Prop :=
  k.machine.operators.contains name = false ∧ k.machine.variables.contains name = false

/-- But for stores, the last of some words is a name that the keypad lacks when it comes to it. -/
def EndsUnknown (k : Keypad) (words : List Word) : Prop :=
  ∃ earlier name stores, words = earlier ++ .name name :: stores ∧
    (∀ word ∈ stores, ∃ target, word = .store target) ∧ (k.pressWords earlier).Lacks name

theorem not_endsUnknown_nil (k : Keypad) : ¬k.EndsUnknown [] := by
  rintro ⟨earlier, name, stores, split, -⟩
  simp at split

theorem endsUnknown_append_singleton (k : Keypad) (words : List Word) (word : Word) :
    k.EndsUnknown (words ++ [word]) ↔
      (∃ name, word = .name name ∧ (k.pressWords words).Lacks name) ∨
        (∃ target, word = .store target) ∧ k.EndsUnknown words := by
  constructor
  · rintro ⟨earlier, name, stores, split, storing, lacks⟩
    obtain rfl | ⟨stores, last, rfl⟩ := stores.eq_nil_or_concat'
    · obtain ⟨rfl, same⟩ := List.append_inj' split rfl
      cases same
      exact .inl ⟨name, rfl, lacks⟩
    · rw [← List.cons_append, ← List.append_assoc] at split
      obtain ⟨rfl, same⟩ := List.append_inj' split rfl
      cases same
      obtain ⟨before, only⟩ := List.forall_mem_append.1 storing
      have store := only word (List.mem_singleton_self word)
      exact .inr ⟨store, earlier, name, stores, rfl, before, lacks⟩
  · rintro (⟨name, rfl, lacks⟩ | ⟨store, earlier, name, stores, rfl, storing, lacks⟩)
    · exact ⟨words, name, [], rfl, List.forall_mem_nil _, lacks⟩
    · refine ⟨earlier, name, stores ++ [word], by simp, ?_, lacks⟩
      exact List.forall_mem_append.2 ⟨storing, List.forall_mem_singleton.2 store⟩

/-! ## One word -/

/-- Nothing is at hand. -/
def Blank (k : Keypad) : Prop :=
  k.entry = none ∧ k.display = none

/-- What is at hand is a number that can be entered, or the value of the program. -/
def Telling (k : Keypad) : Prop :=
  k.Readable ∧ (k.entry = none → k.display = k.machine.evaluate)

theorem telling_of_idle {k : Keypad} (idle : k.entry = none)
    (shown : k.display = k.machine.evaluate) : k.Telling :=
  ⟨.of_not_typing idle, fun _ => shown⟩

theorem Telling.endTyping {k : Keypad} (telling : k.Telling) :
    k.endTyping.display = k.endTyping.machine.evaluate := by
  cases typed : k.entry with
  | none =>
    rw [endTyping_of_idle typed]
    exact telling.2 typed
  | some text =>
    obtain ⟨value, read⟩ := telling.1 text typed
    rw [endTyping_of_read typed read]
    rfl

theorem telling_send_endTyping (k : Keypad) {command : Command}
    (bound : ∀ name, command = .reference name → k.endTyping.machine.variables.contains name) :
    (k.endTyping.send command).Telling :=
  telling_of_idle k.entry_endTyping (Machine.answer_eq_evaluate bound)

theorem store_of_blank {k : Keypad} (blank : k.Blank) (name : String) : k.store name = k := by
  obtain ⟨machine, entry, display⟩ := k
  obtain ⟨idle, dark⟩ := blank
  cases idle
  cases dark
  rfl

theorem Telling.store {k : Keypad} (telling : k.Telling) (name : String) :
    (k.store name).Telling := by
  refine telling_of_idle (k.entry_store name) ?_
  rw [Keypad.store]
  cases atHand : k.current? with
  | some value => rfl
  | none =>
    cases typed : k.entry with
    | none => exact telling.2 typed
    | some text =>
      obtain ⟨value, read⟩ := telling.1 text typed
      simp [current?, typed, read] at atHand

theorem variables_endTyping (k : Keypad) :
    k.endTyping.machine.variables = k.machine.variables :=
  endTyping_leaves Machine.variables (fun _ _ => rfl) k

theorem blank_of_lacks {k : Keypad} {name : String} (lacks : k.Lacks name) :
    (k.pressAll ((Word.name name).keys k)).Blank := by
  rw [Word.keys, lacks.1]
  refine ⟨k.entry_endTyping, ?_⟩
  show k.endTyping.machine.answer (.reference name) = none
  rw [Machine.answer, k.variables_endTyping, lacks.2]
  rfl

/-- After a right word, whatever was at hand before, the value of the program is at hand or a number
that can be entered, unless the word is a name that is lacking. A store only keeps this. -/
theorem telling_pressAll {k : Keypad} {placed : PlacedWord} (right : placed.error? = none)
    (spoken : placed.word ≠ .lineBreak) (known : ∀ name, placed.word = .name name → ¬k.Lacks name)
    (stored : ∀ target, placed.word = .store target → k.Telling) :
    (k.pressAll (placed.word.keys k)).Telling := by
  obtain ⟨word, line, start, stop⟩ := placed
  cases word with
  | number literal =>
    rw [pressAll_number]
    refine ⟨?_, by simp⟩
    rintro _ ⟨⟩
    exact exists_value_of_right right rfl
  | operator symbol => exact k.telling_send_endTyping (by simp)
  | store target => exact (stored target rfl).store target
  | clear => exact telling_of_idle rfl rfl
  | name name =>
    rw [Word.keys]
    cases operator : k.machine.operators.contains name with
    | true => exact k.telling_send_endTyping (by simp)
    | false =>
      refine k.telling_send_endTyping fun other same => ?_
      cases same
      rw [k.variables_endTyping]
      simpa [Lacks, operator] using known name rfl
  | lineBreak => exact absurd rfl spoken
  | arrow => cases right
  | unknown c => cases right

/-! ## A whole script -/

theorem pressWords_result {k : Keypad} (fresh : k.Telling) {words : List PlacedWord}
    (right : Right words) :
    let left := k.pressWords (withoutBreaks words)
    (k.EndsUnknown (withoutBreaks words) → left.Blank) ∧
      (¬k.EndsUnknown (withoutBreaks words) → left.Telling) := by
  induction words using List.reverseRecOn with
  | nil => exact ⟨fun ends => absurd ends k.not_endsUnknown_nil, fun _ => fresh⟩
  | append_singleton words placed ih =>
    obtain ⟨rightBefore, last⟩ := List.forall_mem_append.1 right
    have checked : placed.error? = none := last placed (List.mem_singleton_self placed)
    obtain ⟨blank, telling⟩ := ih rightBefore
    by_cases dropped : placed.word = .lineBreak
    · have same : withoutBreaks (words ++ [placed]) = withoutBreaks words := by
        simp [withoutBreaks, dropped]
      rw [same]
      exact ⟨blank, telling⟩
    · have longer : withoutBreaks (words ++ [placed]) = withoutBreaks words ++ [placed.word] := by
        simp [withoutBreaks, dropped]
      simp only [longer, pressWords_append, pressWords_cons, pressWords_nil,
        endsUnknown_append_singleton]
      constructor
      · rintro (⟨name, same, lacks⟩ | ⟨⟨target, same⟩, ends⟩)
        · rw [same]
          exact blank_of_lacks lacks
        · rw [same]
          show ((k.pressWords (withoutBreaks words)).store target).Blank
          rw [store_of_blank (blank ends)]
          exact blank ends
      · intro ends
        rw [not_or] at ends
        refine telling_pressAll checked dropped ?_ ?_
        · exact fun name same lacks => ends.1 ⟨name, same, lacks⟩
        · exact fun target same => telling fun before => ends.2 ⟨⟨target, same⟩, before⟩

/-- A script that runs without an error on a fresh keypad, over a machine with an empty program,
gives back nothing if its last word, but for stores, is a name that is unknown when it is reached.
In any other case it gives back the value of the program that it leaves. -/
theorem replay_result {m : Machine} (empty : m.program = .empty) {source : String}
    {after : Keypad} {result : Option Float}
    (ran : ({ machine := m } : Keypad).replay source = (after, .ok result)) :
    let k : Keypad := { machine := m }
    (k.EndsUnknown (withoutBreaks (words source)) → result = none) ∧
      (¬k.EndsUnknown (withoutBreaks (words source)) → result = after.machine.evaluate) := by
  intro k
  have fresh : k.Telling := by
    refine telling_of_idle rfl ?_
    show none = m.program.evaluate m.variables
    rw [empty]
    rfl
  have right := right_of_replay ran
  rw [replay_of_right right] at ran
  cases ran
  obtain ⟨blank, telling⟩ := pressWords_result fresh right
  constructor
  · intro ends
    obtain ⟨idle, dark⟩ := blank ends
    rw [endTyping_of_idle idle, dark]
  · exact fun ends => (telling ends).endTyping

/-- The number in front of the unknown name is entered, but neither displayed nor stored. -/
theorem replay_result_of_unknown_name :
    let k : Keypad := {}
    (k.replay "3 foo →M").2 = .ok none ∧
      ((k.replay "3 foo →M").1.machine.evaluate).isSome := by
  intro k
  have right : Right (words "3 foo →M") := by
    unfold Right
    decide +kernel
  have spoken : withoutBreaks (words "3 foo →M") =
      [.number "3"] ++ .name "foo" :: [.store "M"] := by
    decide +kernel
  have ends : k.EndsUnknown (withoutBreaks (words "3 foo →M")) := by
    refine ⟨_, _, _, spoken, ?_, by decide +kernel, by decide +kernel⟩
    exact List.forall_mem_singleton.2 ⟨"M", rfl⟩
  have ran := replay_of_right right k
  refine ⟨?_, by decide +kernel⟩
  rw [ran]
  exact congrArg Except.ok ((replay_result rfl ran).1 ends)

end Keypad

end StackCalculator
