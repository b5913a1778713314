import StackCalculator.Proofs.Script.Cut
import StackCalculator.Proofs.Script.Progress

/-! # Scripts in sequence

Two scripts that are run one after the other do what one script does that has the first above the
second (`replay_append_line`). Only the end of the first one makes a difference: there the typing
ends, and a number that is being typed is entered, before the words of the second. A store would
have taken the number, and a wrong word would have left it.
-/

namespace StackCalculator

open Script

/-- The same error further down. -/
def InputError.moved (lines : Nat) : InputError → InputError
  | unexpectedText text line => unexpectedText text (line + lines)
  | invalidNumber literal line => invalidNumber literal (line + lines)
  | missingName line => missingName (line + lines)
  | invalidAssignment setting => invalidAssignment setting

namespace Script

theorem error?_moved (placed : PlacedWord) (lines bytes : Nat) :
    (placed.moved lines bytes).error? = placed.error?.map (.moved lines) := by
  obtain ⟨word, line, start, stop⟩ := placed
  cases word with
  | number literal =>
    simp only [PlacedWord.moved, PlacedWord.error?]
    split <;> rfl
  | _ => rfl

theorem replayWords_moved (k : Keypad) (words : List PlacedWord) (lines bytes : Nat) :
    replayWords k (words.map (.moved lines bytes)) =
      ((replayWords k words).1, (replayWords k words).2.map (.moved lines)) := by
  induction words generalizing k with
  | nil => rfl
  | cons placed rest ih =>
    rw [List.map_cons, replayWords, replayWords, error?_moved]
    cases placed.error? with
    | none => exact ih _
    | some error => rfl

/-- The words of a source below another one. -/
theorem words_append_line (a b : String) :
    ∃ (broken : PlacedWord) (bytes : Nat), broken.word = .lineBreak ∧
      words (a ++ "\n" ++ b) =
        words a ++ broken :: (words b).map (.moved (1 + a.toList.count '\n') bytes) := by
  have text : (a ++ "\n" ++ b).toList = a.toList ++ '\n' :: b.toList := by
    simp only [String.toList_append, List.append_assoc]
    rfl
  let lines := 1 + a.toList.count '\n'
  let bytes := byteCount a.toList
  have below : wordsFrom lines bytes ('\n' :: b.toList) =
      ⟨.lineBreak, 1 + lines, bytes, 1 + bytes⟩ :: (words b).map (.moved lines (1 + bytes)) := by
    have read : piece '\n' b.toList = ⟨some .lineBreak, 0⟩ := rfl
    have size : '\n'.utf8Size = 1 := rfl
    rw [wordsFrom_cons, words, ← wordsFrom_moved]
    simp [read, size, byteCount, Nat.add_comm]
  refine ⟨⟨.lineBreak, 1 + lines, bytes, 1 + bytes⟩, 1 + bytes, rfl, ?_⟩
  rw [words, text, wordsFrom_append (cuts_lineBreak _ _), Nat.zero_add, below]
  rfl

end Script

namespace Keypad

/-- A script that begins below another one, and finds the keypad as the words above it leave it. -/
theorem replay_append_line_of_right {a : String} (right : Right (words a)) (k : Keypad)
    (b : String) :
    k.replay (a ++ "\n" ++ b) =
      (((k.pressWords (withoutBreaks (words a))).replay b).1,
        ((k.pressWords (withoutBreaks (words a))).replay b).2.mapError
          (.moved (1 + a.toList.count '\n'))) := by
  obtain ⟨broken, bytes, lineBreak, joined⟩ := words_append_line a b
  rw [replay_eq, replay_eq, joined, replayWords_append right, ← k.pressWords_withoutBreaks,
    replayWords_of_break lineBreak, replayWords_moved]
  cases replayWords (k.pressWords (withoutBreaks (words a))) (words b) with
  | mk left error => cases error <;> rfl

/-- A script above another one. If it ends in an error, nothing of the other is run. If it does not,
the two are run as if one after the other, unless a number is being typed at its end and the other
begins with a word that would have found it so. Errors in the other are as many lines further down
as there are above it. -/
theorem replay_append_line (k : Keypad) (a b : String) :
    (∀ left error, k.replay a = (left, .error error) →
      k.replay (a ++ "\n" ++ b) = (left, .error error)) ∧
    ∀ left result, k.replay a = (left, .ok result) →
      (k.pressWords (withoutBreaks (words a))).isTyping = false ∨
        (∀ word ∈ (withoutBreaks (words b)).head?, word.endsTyping) →
      k.replay (a ++ "\n" ++ b) =
        ((left.replay b).1, (left.replay b).2.mapError (.moved (1 + a.toList.count '\n'))) := by
  constructor
  · intro left error failed
    obtain right | ⟨before, wrong, later, found, split, right, checked⟩ :=
      right_or_exists_wrong (words a)
    · rw [replay_of_right right] at failed
      cases failed
    · obtain ⟨broken, bytes, -, joined⟩ := words_append_line a b
      rw [split, List.append_assoc, List.cons_append] at joined
      rw [replay_of_wrong split right checked] at failed
      rw [replay_of_wrong joined right checked, failed]
  · intro left result ran ends
    have right := right_of_replay ran
    rw [replay_of_right right] at ran
    obtain ⟨rfl, -⟩ := Prod.mk.inj ran
    have idle : (k.pressWords (withoutBreaks (words a))).entry = none ∨
        ∀ word ∈ (withoutBreaks (words b)).head?, word.endsTyping := by
      simpa [isTyping] using ends
    have early : (k.pressWords (withoutBreaks (words a))).endTyping.replay b =
        (k.pressWords (withoutBreaks (words a))).replay b := by
      rw [replay_eq, replay_eq, replayWords_endTyping idle]
    rw [replay_append_line_of_right right, early]

/-- A store takes a number on the line above, but not one that an earlier script has entered. -/
example :
    (({} : Keypad).replay "3\n→M").1.machine.program.size = 1 ∧
      ((({} : Keypad).replay "3").1.replay "→M").1.machine.program.size = 2 := by
  decide +kernel

end Keypad

end StackCalculator
