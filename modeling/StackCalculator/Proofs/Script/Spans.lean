import StackCalculator.Script.Source
import StackCalculator.Proofs.Script.Form

/-! # Where words stand

The words of a text are the word of its first piece, if it has one, and the words behind this piece
(`wordsFrom_cons`). Each takes up some bytes of the text (`span_of_mem_wordsFrom`), in front of those
of the words behind it.
-/

namespace StackCalculator.Script

@[simp] theorem byteCount_cons (c : Char) (cs : List Char) :
    byteCount (c :: cs) = c.utf8Size + byteCount cs := rfl

@[simp] theorem byteCount_append (cs rest : List Char) :
    byteCount (cs ++ rest) = byteCount cs + byteCount rest := by
  induction cs with
  | nil => simp [byteCount]
  | cons c cs ih => rw [List.cons_append, byteCount_cons, byteCount_cons, ih, Nat.add_assoc]

/-- The bytes of the front and of the back of a text. -/
theorem byteCount_take_drop (c : Char) (rest : List Char) (n : Nat) :
    byteCount (c :: rest.take n) + byteCount (rest.drop n) = byteCount (c :: rest) := by
  rw [← byteCount_append, List.cons_append, List.take_append_drop]

def PlacedWord.moved (lines bytes : Nat) (placed : PlacedWord) : PlacedWord :=
  ⟨placed.word, placed.line + lines, placed.start + bytes, placed.stop + bytes⟩

/-- The first piece of a text, and the words behind it. -/
theorem wordsFrom_cons (line start : Nat) (c : Char) (rest : List Char) :
    wordsFrom line start (c :: rest) =
      let read := c :: rest.take (piece c rest).further
      let after := line + read.count '\n'
      let stop := start + byteCount read
      ((piece c rest).word?.map fun word => (⟨word, after, start, stop⟩ : PlacedWord)).toList ++
        wordsFrom after stop (rest.drop (piece c rest).further) := by
  have lines : line + (c :: rest.take (piece c rest).further).count '\n' =
      if (piece c rest).word? = some .lineBreak then line + 1 else line := by
    rw [count_lineBreak_piece]
    split <;> rfl
  rw [wordsFrom]
  simp only [lines]
  cases (piece c rest).word? <;> rfl

theorem wordsFrom_moved (line start lines bytes : Nat) (cs : List Char) :
    wordsFrom (line + lines) (start + bytes) cs =
      (wordsFrom line start cs).map (.moved lines bytes) := by
  induction cs using drop_induction generalizing line start with
  | nil => simp [wordsFrom]
  | cons c rest ih =>
    rw [wordsFrom_cons, wordsFrom_cons]
    simp only [List.map_append, Nat.add_right_comm _ lines, Nat.add_right_comm _ bytes, ih]
    cases (piece c rest).word? <;> rfl

theorem mem_wordsFrom_cons {line start : Nat} {c : Char} {rest : List Char} {placed : PlacedWord} :
    placed ∈ wordsFrom line start (c :: rest) ↔
      let read := c :: rest.take (piece c rest).further
      let after := line + read.count '\n'
      let stop := start + byteCount read
      (∃ word, (piece c rest).word? = some word ∧ placed = ⟨word, after, start, stop⟩) ∨
        placed ∈ wordsFrom after stop (rest.drop (piece c rest).further) := by
  rw [wordsFrom_cons]
  cases (piece c rest).word? <;> simp

theorem byteCount_cons_pos (c : Char) (cs : List Char) : 0 < byteCount (c :: cs) := by
  have size := c.utf8Size_pos
  rw [byteCount_cons]
  omega

/-- Every word takes up some bytes of the text. -/
theorem span_of_mem_wordsFrom {line start : Nat} {cs : List Char} {placed : PlacedWord}
    (found : placed ∈ wordsFrom line start cs) :
    start ≤ placed.start ∧ placed.start < placed.stop ∧ placed.stop ≤ start + byteCount cs := by
  induction cs using drop_induction generalizing line start with
  | nil => simp [wordsFrom] at found
  | cons c rest ih =>
    have some_byte := byteCount_cons_pos c (rest.take (piece c rest).further)
    rw [← byteCount_take_drop c rest (piece c rest).further]
    obtain first | later := mem_wordsFrom_cons.1 found
    · obtain ⟨word, -, rfl⟩ := first
      exact ⟨Nat.le_refl _, Nat.lt_add_of_pos_right some_byte, by simp only; omega⟩
    · have span := ih _ later
      omega

/-- Words follow one another. -/
theorem pairwise_wordsFrom (line start : Nat) (cs : List Char) :
    (wordsFrom line start cs).Pairwise fun a b => a.stop ≤ b.start := by
  induction cs using drop_induction generalizing line start with
  | nil => simp [wordsFrom]
  | cons c rest ih =>
    rw [wordsFrom_cons]
    cases (piece c rest).word? with
    | none => exact ih _ _ _
    | some word =>
      refine List.pairwise_cons.2 ⟨fun other found => ?_, ih _ _ _⟩
      exact (span_of_mem_wordsFrom found).1

end StackCalculator.Script
