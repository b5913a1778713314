import StackCalculator.Proofs.Script.Progress
import StackCalculator.Proofs.Script.Shape

/-! # The numbers of a script

A number among the words of a script is a literal, so it can be entered unless the decimal that it
stands for is too large (`Overflows`). A replay refuses it then and only then. What is typed of it
is entered or stored as the double nearest to this decimal, and it is never lost
(`replay_numbers`).
-/

namespace StackCalculator

open Script
open Literal (Denotes)

/-! ## Large numbers -/

theorem Literal.Denotes.unique {cs : List Char} {d other : Decimal} (denotes : Denotes cs d)
    (also : Denotes cs other) : d = other :=
  Option.some.inj ((Numeral.decimal?_of_denotes denotes).symm.trans
    (Numeral.decimal?_of_denotes also))

theorem entryValue?_eq_some {literal : String} {d : Decimal} (denotes : Denotes literal.toList d)
    (small : d.value < 2 ^ 1024 - 2 ^ 970) :
    entryValue? literal = some (Binary64.ofRank false d.rank) := by
  rw [entryValue?_of_denotes denotes, if_pos (d.rank_lt_infinityRank_iff.2 small)]

namespace Script

/-- A number that stands for a decimal half a step or more past the largest finite double. -/
def Overflows (literal : String) : Prop :=
  ∃ d, Denotes literal.toList d ∧ 2 ^ 1024 - 2 ^ 970 ≤ d.value

theorem overflows_iff {literal : String} {d : Decimal} (denotes : Denotes literal.toList d) :
    Overflows literal ↔ entryValue? literal = none := by
  rw [entryValue?_of_denotes denotes]
  constructor
  · rintro ⟨other, also, large⟩
    rw [denotes.unique also, if_neg (mt other.rank_lt_infinityRank_iff.1 (not_lt.2 large))]
  · intro unread
    refine ⟨d, denotes, not_lt.1 fun small => ?_⟩
    rw [if_pos (d.rank_lt_infinityRank_iff.2 small)] at unread
    cases unread

example :
    (entryValue? "1.797693134862315807e308").isSome ∧
      entryValue? "1.797693134862315808e308" = none := by
  decide +kernel

/-- What a script is refused for. -/
def Word.Offends : Word → Prop
  | .number literal => Overflows literal
  | .arrow | .unknown _ => True
  | .operator _ | .store _ | .name _ | .clear | .lineBreak => False

theorem error?_eq_none_iff {source : String} {placed : PlacedWord} (found : placed ∈ words source) :
    placed.error? = none ↔ ¬placed.word.Offends := by
  have shaped := shaped_of_mem_words found
  obtain ⟨word, line, start, stop⟩ := placed
  cases word with
  | number literal =>
    obtain ⟨d, denotes⟩ := shaped
    rw [Word.Offends, overflows_iff denotes, PlacedWord.error?]
    simp [Option.isSome_iff_ne_none]
  | arrow | unknown c => exact iff_of_false (by rintro ⟨⟩) (not_not.2 trivial)
  | operator symbol | store target | name text | clear | lineBreak => exact iff_of_true rfl id

theorem right_iff {source : String} {before later : List PlacedWord}
    (split : words source = before ++ later) :
    Right before ↔ ∀ placed ∈ before, ¬placed.word.Offends :=
  forall₂_congr fun _ found => error?_eq_none_iff (split ▸ List.mem_append_left _ found)

theorem error?_eq_invalidNumber_iff {placed : PlacedWord} {literal : String} {line : Nat} :
    placed.error? = some (.invalidNumber literal line) ↔
      placed.word = .number literal ∧ placed.line = line ∧ entryValue? literal = none := by
  obtain ⟨word, here, start, stop⟩ := placed
  cases word with
  | number text =>
    simp only [PlacedWord.error?, Word.number.injEq]
    split
    · next read =>
      refine iff_of_false (by rintro ⟨⟩) ?_
      rintro ⟨rfl, -, unread⟩
      rw [unread] at read
      cases read
    · next unread =>
      simp only [Option.some.injEq, InputError.invalidNumber.injEq]
      refine and_congr_right ?_
      rintro rfl
      exact (and_iff_left (Option.not_isSome_iff_eq_none.1 unread)).symm
  | _ => exact iff_of_false (by rintro ⟨⟩) (by rintro ⟨⟨⟩, -⟩)

end Script

/-! ## Lost entries -/

theorem malformedEntry_not_mem_transcript (m : Machine) (command : Command) (text : String) :
    .malformedEntry text ∉ m.transcript command := by
  cases command with
  | operand value => simp [Machine.transcript, Machine.pushTranscript, Machine.evaluateTranscript]
  | set name value => simp [Machine.transcript, Machine.pushTranscript, Machine.evaluateTranscript]
  | clear => simp [Machine.transcript]
  | reference name | operator symbol =>
    rw [Machine.transcript]
    split <;> simp [Machine.pushTranscript, Machine.evaluateTranscript]

namespace Keypad

/-- A text is typed that is no number. -/
def Mistyped (k : Keypad) (text : String) : Prop :=
  k.entry = some text ∧ entryValue? text = none

theorem Readable.not_mistyped {k : Keypad} (readable : k.Readable) (text : String) :
    ¬k.Mistyped text := by
  rintro ⟨typed, unread⟩
  obtain ⟨value, read⟩ := readable text typed
  rw [read] at unread
  cases unread

theorem mistyped_of_mem_enterTranscript {k : Keypad} {text : String}
    (found : .malformedEntry text ∈ k.enterTranscript) : k.Mistyped text := by
  rw [enterTranscript] at found
  split at found
  · exact absurd found (malformedEntry_not_mem_transcript _ _ _)
  · next other unread typed =>
    cases List.mem_singleton.1 found
    rw [current?, typed] at unread
    exact ⟨typed, unread⟩
  · cases found

theorem mistyped_of_mem_endTypingTranscript {k : Keypad} {text : String}
    (found : .malformedEntry text ∈ k.endTypingTranscript) : k.Mistyped text := by
  rw [endTypingTranscript] at found
  split at found
  · exact mistyped_of_mem_enterTranscript found
  · cases found

theorem mistyped_of_mem_transcript {k : Keypad} {key : Key} {text : String}
    (found : .malformedEntry text ∈ k.transcript key) : k.Mistyped text := by
  cases key with
  | typed _ => cases found
  | enter => exact mistyped_of_mem_enterTranscript found
  | operate symbol | «recall» name =>
    obtain ended | sent := List.mem_append.1 found
    · exact mistyped_of_mem_endTypingTranscript ended
    · exact absurd sent (malformedEntry_not_mem_transcript _ _ _)
  | store name =>
    rw [transcript] at found
    split at found
    · exact absurd found (malformedEntry_not_mem_transcript _ _ _)
    · simp at found
  | clear => exact absurd found (malformedEntry_not_mem_transcript k.machine .clear text)

theorem mistyped_of_mem_transcriptAll_keys {k : Keypad} {word : Word} {text : String}
    (found : .malformedEntry text ∈ k.transcriptAll (word.keys k)) : k.Mistyped text := by
  have first {key : Key} (found : .malformedEntry text ∈ k.transcriptAll [key]) :
      k.Mistyped text := by
    rw [transcriptAll, transcriptAll, List.append_nil] at found
    exact mistyped_of_mem_transcript found
  cases word with
  | number literal =>
    rw [Word.keys] at found
    split at found
    · exact first found
    · exact first found
  | name text =>
    rw [Word.keys] at found
    split at found <;> exact first found
  | operator _ | store _ | clear => exact first found
  | arrow | lineBreak | unknown _ => cases found

/-- Only what is typed before the first word can be lost. -/
theorem mistyped_of_mem_transcriptWords {k : Keypad} {words : List PlacedWord} {text : String}
    (found : .malformedEntry text ∈ transcriptWords k words) : k.Mistyped text := by
  induction words generalizing k with
  | nil => exact mistyped_of_mem_endTypingTranscript found
  | cons placed rest ih =>
    rw [transcriptWords] at found
    cases right : placed.error? with
    | some error =>
      rw [right] at found
      cases found
    | none =>
      rw [right] at found
      obtain here | later := List.mem_append.1 found
      · exact mistyped_of_mem_transcriptAll_keys here
      · by_cases dropped : placed.word = .lineBreak
        · rw [dropped] at later
          exact ih later
        · exact absurd (ih later) ((k.readable_pressAll_keys right dropped).not_mistyped text)

/-! ## Typed numbers -/

/-- A literal is being typed, and whatever key uses it takes the double nearest to the decimal that
it stands for. -/
structure Types (k : Keypad) (literal : String) (d : Decimal) (value : Float) : Prop where
  entry : k.entry = some literal
  denotes : Denotes literal.toList d
  nearest : Binary64.rank value = Binary64.nearest d.ratio.1 d.ratio.2
  finite : Binary64.rank value < Binary64.infinityRank
  unsigned : Binary64.isNegative value = false
  read : entryValue? literal = some value
  entered : k.endTyping = k.dropEntry.send (.operand value)
  stored : ∀ name, k.store name = k.dropEntry.send (.set name value)

theorem types_of_entry {k : Keypad} {literal : String} {d : Decimal} (entry : k.entry = some literal)
    (denotes : Denotes literal.toList d) (fits : ¬Overflows literal) :
    k.Types literal d (Binary64.ofRank false d.rank) := by
  have small : d.value < 2 ^ 1024 - 2 ^ 970 := not_le.1 fun large => fits ⟨d, denotes, large⟩
  have finite := d.rank_lt_infinityRank_iff.2 small
  have read := entryValue?_eq_some denotes small
  have rank := Binary64.rank_ofRank false finite
  exact ⟨entry, denotes, rank.trans d.rank_eq_nearest, rank.symm ▸ finite,
    Binary64.isNegative_ofRank false finite, read, endTyping_of_read entry read,
    store_of_read entry read⟩

theorem exists_of_mem_withoutBreaks {words : List PlacedWord} {word : Word}
    (found : word ∈ withoutBreaks words) :
    ∃ placed ∈ words, placed.word = word ∧ placed.word ≠ .lineBreak := by
  obtain ⟨among, spoken⟩ := List.mem_filter.1 found
  obtain ⟨placed, member, rfl⟩ := List.mem_map.1 among
  exact ⟨placed, member, rfl, by simpa using spoken⟩

/-- What is being typed after some words is the last of them, and only if that is a number. -/
theorem entry_pressWords (k : Keypad) {words : List PlacedWord} (right : Right words) :
    (k.pressWords (withoutBreaks words)).entry =
      match (withoutBreaks words).getLast? with
      | some (.number literal) => some literal
      | some _ => none
      | none => k.entry := by
  obtain none | ⟨earlier, word, last⟩ := (withoutBreaks words).eq_nil_or_concat'
  · rw [none]
    rfl
  · obtain ⟨placed, found, rfl, spoken⟩ : ∃ placed ∈ words, placed.word = word ∧ _ :=
      exists_of_mem_withoutBreaks (last ▸ List.mem_append_right _ (List.mem_singleton_self word))
    rw [last, List.getLast?_concat, pressWords_append, pressWords_cons, pressWords_nil,
      entry_pressAll_keys _ (right placed found) spoken]
    cases placed.word <;> rfl

/-! ## A whole script -/

/-- The numbers of a script are literals. One is refused if it is the first word to be refused and
overflows. Any other is typed as it is written, and then used as the double nearest to the decimal
it stands for. Nothing that a script types is lost. -/
theorem replay_numbers (k : Keypad) (source : String) :
    (∀ placed ∈ words source, ∀ literal, placed.word = .number literal →
      ∃ d, Denotes literal.toList d ∧
        Numeral.ofChars? (Text.trim literal.toList) = some (.decimal false d)) ∧
    (∀ literal line, (k.replay source).2 = .error (.invalidNumber literal line) ↔
      ∃ before wrong later, words source = before ++ wrong :: later ∧
        (∀ placed ∈ before, ¬placed.word.Offends) ∧
        wrong.word = .number literal ∧ wrong.line = line ∧ Overflows literal) ∧
    (∀ before later, words source = before ++ later →
      (∀ placed ∈ before, ¬placed.word.Offends) → withoutBreaks before ≠ [] → ∀ literal,
        let typing := k.pressWords (withoutBreaks before)
        (typing.entry = some literal ↔ (withoutBreaks before).getLast? = some (.number literal)) ∧
          (typing.entry = some literal → ∃ d value, typing.Types literal d value)) ∧
    ∀ text, .malformedEntry text ∈ k.replayTranscript source →
      k.entry = some text ∧ entryValue? text = none := by
  have denotes {placed : PlacedWord} (found : placed ∈ words source) {literal : String}
      (number : placed.word = .number literal) : ∃ d, Denotes literal.toList d := by
    have shaped := shaped_of_mem_words found
    rwa [number] at shaped
  refine ⟨?_, ?_, ?_, fun text => mistyped_of_mem_transcriptWords⟩
  · intro placed found literal number
    obtain ⟨d, denotes⟩ := denotes found number
    exact ⟨d, denotes, by rw [denotes.trim, Numeral.ofChars?_of_denotes denotes]⟩
  · intro literal line
    constructor
    · intro failed
      obtain right | ⟨before, wrong, later, error, split, right, checked⟩ :=
        right_or_exists_wrong (words source)
      · rw [replay_of_right right] at failed
        cases failed
      · rw [replay_of_wrong split right checked] at failed
        cases failed
        obtain ⟨number, here, unread⟩ := error?_eq_invalidNumber_iff.1 checked
        have found : wrong ∈ words source := split ▸ List.mem_append_right _ List.mem_cons_self
        obtain ⟨d, denotes⟩ := denotes found number
        exact ⟨before, wrong, later, split, (right_iff split).1 right, number, here,
          (overflows_iff denotes).2 unread⟩
    · rintro ⟨before, wrong, later, split, plain, number, here, overflows⟩
      obtain ⟨d, denotes, -⟩ := id overflows
      have unread := (overflows_iff denotes).1 overflows
      have checked := error?_eq_invalidNumber_iff.2 ⟨number, here, unread⟩
      rw [replay_of_wrong split ((right_iff split).2 plain) checked]
  · intro before later split plain spoken literal
    have entry := k.entry_pressWords ((right_iff split).2 plain)
    have last : (k.pressWords (withoutBreaks before)).entry = some literal ↔
        (withoutBreaks before).getLast? = some (.number literal) := by
      rw [entry]
      cases final : (withoutBreaks before).getLast? with
      | none => exact absurd (List.getLast?_eq_none_iff.1 final) spoken
      | some word => cases word <;> simp
    refine ⟨last, fun typed => ?_⟩
    obtain ⟨placed, found, number, -⟩ :=
      exists_of_mem_withoutBreaks (List.mem_of_getLast? (last.1 typed))
    obtain ⟨d, denotes⟩ := denotes (split ▸ List.mem_append_left _ found) number
    have fits := plain placed found
    rw [number] at fits
    exact ⟨d, _, types_of_entry typed denotes fits⟩

end Keypad

end StackCalculator
