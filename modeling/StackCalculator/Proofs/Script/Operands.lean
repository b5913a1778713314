import StackCalculator.Report
import StackCalculator.Proofs.Kinds
import StackCalculator.Proofs.Script.Progress
import StackCalculator.Proofs.Script.Shape

/-! # The operands of a script

A script enters nothing but what it types, and it types nothing but number literals. So the numbers
of its program are finite and have no sign, and the variables have names as scripts spell them
(`Keypad.Orderly`). A description of the program tells them apart (`replay_operands`): numbers stand
bare on the right of an operator, and variables in parentheses.

What is displayed may be an infinity, or no number. It can be stored, which binds a variable to it,
but a script presses no key that enters it.
-/

namespace StackCalculator

open Script
open Literal (Denotes)

theorem readable_entryValue? {text : String} {d : Decimal} {value : Float}
    (denotes : Denotes text.toList d) (read : entryValue? text = some value) :
    (Token.operand value).Readable := by
  rw [entryValue?_of_denotes denotes, Option.ite_none_right_eq_some] at read
  obtain ⟨finite, same⟩ := read
  cases same
  refine ⟨Binary64.isFinite_iff.2 ?_, Binary64.isNegative_ofRank false finite⟩
  rwa [Binary64.rank_ofRank false finite]

/-- What a command adds to a program is readable. -/
def Command.Readable : Command → Prop
  | operand value => (Token.operand value).Readable
  | reference name | set name _ => (Token.reference name).Readable
  | operator _ | clear => True

theorem Machine.readable_perform {m : Machine} {command : Command}
    (tokens : ∀ token ∈ m.program.toList, token.Readable) (readable : command.Readable) :
    ∀ token ∈ (m.perform command).program.toList, token.Readable := by
  have pushed {token : Token} (readable : token.Readable) :
      ∀ other ∈ (m.program.push token).toList, other.Readable := by
    rw [Program.toList_push]
    exact List.forall_mem_append.2 ⟨tokens, List.forall_mem_singleton.2 readable⟩
  cases command with
  | operand value => exact pushed readable
  | set name value => exact pushed (show (Token.reference name).Readable from readable)
  | clear => exact List.forall_mem_nil _
  | reference name =>
    rw [perform]
    split
    · exact pushed readable
    · exact tokens
  | operator symbol =>
    rw [perform]
    split
    · exact pushed trivial
    · exact tokens

namespace Keypad

/-- A number literal is being typed, if anything is, and the program is readable. -/
structure Orderly (k : Keypad) : Prop where
  entry : ∀ text, k.entry = some text → ∃ d, Denotes text.toList d
  tokens : ∀ token ∈ k.machine.program.toList, token.Readable

namespace Orderly

variable {k : Keypad}

theorem send (orderly : k.Orderly) {command : Command} (readable : command.Readable) :
    (k.send command).Orderly :=
  ⟨orderly.entry, Machine.readable_perform orderly.tokens readable⟩

theorem dropEntry (orderly : k.Orderly) : k.dropEntry.Orderly :=
  ⟨nofun, orderly.tokens⟩

theorem endTyping (orderly : k.Orderly) : k.endTyping.Orderly := by
  cases typed : k.entry with
  | none => rwa [endTyping_of_idle typed]
  | some text =>
    obtain ⟨d, denotes⟩ := orderly.entry text typed
    cases read : entryValue? text with
    | some value =>
      rw [endTyping_of_read typed read]
      exact orderly.dropEntry.send (readable_entryValue? denotes read)
    | none =>
      have same : k.endTyping.machine = k.machine := by
        simp [Keypad.endTyping, isTyping, enter, current?, typed, read]
      exact ⟨by simp, same ▸ orderly.tokens⟩

theorem store (orderly : k.Orderly) {name : String} (spelled : isName name.toList) :
    (k.store name).Orderly := by
  rw [Keypad.store]
  split
  · exact orderly.dropEntry.send spelled
  · exact orderly.dropEntry

theorem pressAll_keys (orderly : k.Orderly) {word : Word} (shaped : word.Shaped) :
    (k.pressAll (word.keys k)).Orderly := by
  cases word with
  | number literal =>
    rw [pressAll_number]
    refine ⟨?_, orderly.endTyping.tokens⟩
    rintro text ⟨⟩
    exact shaped
  | operator symbol => exact orderly.endTyping.send trivial
  | name text =>
    rw [Word.keys]
    split
    · exact orderly.endTyping.send trivial
    · exact orderly.endTyping.send shaped
  | store text => exact orderly.store shaped
  | clear => exact ⟨by rintro _ ⟨⟩, List.forall_mem_nil _⟩
  | arrow | lineBreak | unknown c => exact orderly

theorem replayWords {words : List PlacedWord} (shaped : ∀ placed ∈ words, placed.word.Shaped)
    (orderly : k.Orderly) : (replayWords k words).1.Orderly := by
  induction words generalizing k with
  | nil => exact orderly.endTyping
  | cons placed rest ih =>
    obtain ⟨first, later⟩ := List.forall_mem_cons.1 shaped
    rw [Script.replayWords]
    split
    · exact orderly
    · exact ih later (orderly.pressAll_keys first)

theorem replay (orderly : k.Orderly) (source : String) : (k.replay source).1.Orderly := by
  rw [replay_eq]
  exact orderly.replayWords fun _ => shaped_of_mem_words

end Orderly

end Keypad

theorem Machine.program_assign (m : Machine) (assignments : List Assignment) :
    (m.assign assignments).program = m.program := by
  rw [assign]
  induction assignments generalizing m with
  | nil => rfl
  | cons assignment later ih => exact ih _

theorem Settings.orderly_keypad (settings : Settings) : settings.keypad.Orderly := by
  refine ⟨nofun, ?_⟩
  have empty : settings.keypad.machine.program = .empty := Machine.program_assign _ _
  rw [empty]
  exact List.forall_mem_nil _

/-- However a script ends, its program has only finite numbers without a sign, and variables with
names as scripts spell them. In either style the text of such a number is a number and stands bare
on the right, and no such name is a number and each stands in parentheses there. So the description
is the one that tells numbers from variables by what they are. -/
theorem replay_operands (settings : Settings) (source : String) :
    let p := (settings.keypad.replay source).1.machine.program
    (∀ value, .operand value ∈ p.toList →
      Binary64.isFinite value ∧ Binary64.isNegative value = false ∧
        ∀ style : OperandStyle, isNumeric (style.write value) ∧
          Description.rightOperand (style.write value) = style.write value) ∧
    (∀ name, .reference name ∈ p.toList → isName name.toList) ∧
    (∀ name : String, isName name.toList →
      isNumeric name = false ∧ Description.rightOperand name = "(" ++ name ++ ")") ∧
    ∀ style, p.describe style =
      ", ".intercalate (((Meaning.labelled style).expressions p).map Labelled.text) := by
  intro p
  have readable : ∀ token ∈ p.toList, token.Readable :=
    (settings.orderly_keypad.replay source).tokens
  refine ⟨fun value found => ?_, fun name found => readable _ found, fun name spelled => ?_,
    describe_eq_labelled readable⟩
  · obtain ⟨finite, unsigned⟩ := readable _ found
    refine ⟨finite, unsigned, fun style => ?_⟩
    have numeric := isNumeric_write style finite
    exact ⟨numeric, rightOperand_of_isNumeric numeric⟩
  · exact ⟨isNumeric_of_isName spelled, rightOperand_of_isName spelled⟩

end StackCalculator
