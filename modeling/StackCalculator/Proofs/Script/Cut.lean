import StackCalculator.Proofs.Script.Spans

/-! # Cutting a source text

A source text may be cut where one of its pieces ends: the words of the whole are then those of the
part in front and those of the part behind (`wordsFrom_append`). A text can always be cut before a
line break (`cuts_lineBreak`), and where a word begins (`cuts_of_mem`), unless the word in front of
the cut is another one by itself. For `clear` and an arrow in ASCII are taken for other words when
the wrong character stands right behind them (`Distorted`).
-/

namespace StackCalculator.Script

/-! ## A piece and what is behind it -/

/-- A command that is read as another word because of the character right behind it. -/
def Distorted (text rest : List Char) : Prop :=
  text = ['c', 'l', 'e', 'a', 'r'] ∧ rest.head?.any resemblesNamePart ∨
    text = ['-', '>'] ∧ rest.head?.any resemblesNameStart

theorem arrowPiece_append {drawn : Nat} {cs rest : List Char}
    (within : (arrowPiece drawn (cs ++ rest)).further ≤ drawn + cs.length) :
    arrowPiece drawn (cs ++ rest) = arrowPiece drawn cs := by
  cases cs with
  | nil =>
    cases rest with
    | nil => rfl
    | cons d more =>
      rw [List.nil_append, arrowPiece] at within ⊢
      split at within
      · simp only [List.length_nil] at within
        omega
      · next other => rw [if_neg other, arrowPiece]
  | cons c cs =>
    rw [List.cons_append, arrowPiece] at within ⊢
    rw [arrowPiece]
    split at within
    · next start =>
      simp only [List.length_cons] at within
      have inside : namePartLength (cs ++ rest) ≤ cs.length := by omega
      simp only [start, reads_namePartLength.behind cs rest inside]
      rw [reads_namePartLength.behind cs rest inside] at inside
      rw [List.take_append_of_le_length inside]
    · next other => rw [if_neg other, if_neg other]

theorem namePiece_append {c : Char} {cs rest : List Char}
    (within : (namePiece c (cs ++ rest)).further ≤ cs.length)
    (plain : ¬Distorted (c :: cs) rest) : namePiece c (cs ++ rest) = namePiece c cs := by
  have inside : namePartLength (cs ++ rest) ≤ cs.length := by
    rw [namePiece] at within
    split at within <;> exact within
  have same := reads_namePartLength.behind cs rest inside
  rw [same] at inside
  simp only [namePiece, same, List.take_append_of_le_length inside,
    List.drop_append_of_le_length inside]
  cases left : cs.drop (namePartLength cs) with
  | cons d more => rfl
  | nil =>
    have whole : cs.take (namePartLength cs) = cs :=
      List.take_of_length_le (List.drop_eq_nil_iff.1 left)
    rw [whole, List.nil_append]
    by_cases resembled : rest.head?.any resemblesNamePart
    · have other : c :: cs ≠ ['c', 'l', 'e', 'a', 'r'] := fun clear =>
        plain (.inl ⟨clear, resembled⟩)
      simp [other]
    · simp [resembled]

theorem dashPiece_append {cs rest : List Char}
    (within : (dashPiece (cs ++ rest)).further ≤ cs.length + 1)
    (plain : ¬Distorted ('-' :: '>' :: cs) rest) : dashPiece (cs ++ rest) = dashPiece cs := by
  cases cs with
  | cons d cs =>
    simp only [dashPiece, List.cons_append, List.head?_cons] at within ⊢
    split
    · rfl
    · next arrow =>
      rw [if_neg arrow, ← List.cons_append, Nat.add_comm] at within
      rw [← List.cons_append, arrowPiece_append within]
  | nil =>
    cases rest with
    | nil => rfl
    | cons d more =>
      have unlike : resemblesNameStart d = false := by
        simpa [Distorted] using plain
      simp only [dashPiece, List.nil_append, List.head?_cons, unlike, Bool.false_and,
        Bool.false_eq_true, if_false] at within ⊢
      rw [Nat.add_comm] at within
      rw [← List.nil_append (d :: more), arrowPiece_append within]
      rfl

theorem reading_append {length : List Char → Nat} (reads : Reads length)
    (word? : List Char → Option Word) {cs rest : List Char}
    (within : (reading length word? (cs ++ rest)).further ≤ cs.length) :
    reading length word? (cs ++ rest) = reading length word? cs := by
  have same := reads.behind cs rest within
  have inside : length cs ≤ cs.length := same ▸ within
  rw [reading, reading, same, List.take_append_of_le_length inside]

theorem piece_append {c : Char} {cs rest : List Char}
    (within : (piece c (cs ++ rest)).further ≤ cs.length) (plain : ¬Distorted (c :: cs) rest) :
    piece c (cs ++ rest) = piece c cs := by
  by_cases comment : c = '#'
  · subst comment
    rw [piece_comment] at within ⊢
    rw [reading_append reads_commentLength _ within, piece_comment]
  by_cases digit : c.isDigit
  · rw [piece_digit digit] at within ⊢
    rw [reading_append reads_wholeLength _ within, piece_digit digit]
  by_cases point : c = '.'
  · subst point
    have digits := reads_digitCount.behind cs rest
    by_cases some_digit : 0 < digitCount (cs ++ rest)
    · rw [piece_point some_digit] at within ⊢
      have read := reads_digitCount.behind cs rest (Nat.le_trans (Nat.le_add_right _ _) within)
      rw [reading_append reads_pointedLength _ within, piece_point (read ▸ some_digit)]
    · have none := Nat.eq_zero_of_not_pos some_digit
      rw [piece_lone_point none, piece_lone_point]
      rw [← reads_digitCount.behind cs rest (by omega), none]
  by_cases arrow : c = '→'
  · subst arrow
    exact arrowPiece_append (by simpa [piece_arrow] using within)
  by_cases name : isNameStart c
  · rw [piece_name name digit] at within ⊢
    rw [namePiece_append within plain, piece_name name digit]
  by_cases dash : c = '-'
  · subst dash
    cases cs with
    | cons d cs =>
      by_cases tip : d = '>'
      · subst tip
        exact dashPiece_append within plain
      · rw [piece_minus (by simpa using tip), piece_minus (by simpa using tip)]
    | nil =>
      rw [List.nil_append] at within ⊢
      have noTip : rest.head? ≠ some '>' := by
        intro tip
        obtain ⟨more, rfl⟩ := List.head?_eq_some_iff.1 tip
        rw [piece_dash] at within
        exact absurd (further_dashPiece_pos more) (Nat.not_lt.2 within)
      rw [piece_minus noTip, piece_minus (by simp)]
  · simp [piece, comment, digit, point, arrow, dash, name]

/-! ## Cuts -/

/-- A text in front of another is cut off from it by the end of a piece. -/
inductive Cuts (rest : List Char) : List Char → Prop where
  | nil : Cuts rest []
  | piece {c : Char} {cs : List Char} (within : (piece c (cs ++ rest)).further ≤ cs.length)
    (plain : ¬Distorted (c :: cs) rest)
    (later : Cuts rest (cs.drop (piece c (cs ++ rest)).further)) : Cuts rest (c :: cs)

theorem wordsFrom_append {cs rest : List Char} (cuts : Cuts rest cs) (line start : Nat) :
    wordsFrom line start (cs ++ rest) = wordsFrom line start cs ++
      wordsFrom (line + cs.count '\n') (start + byteCount cs) rest := by
  induction cuts generalizing line start with
  | nil => simp [wordsFrom, byteCount]
  | @piece c cs within plain later ih =>
    have same := piece_append within plain
    rw [same] at within ih
    have lines : cs.count '\n' = (cs.take (piece c cs).further).count '\n' +
        (cs.drop (piece c cs).further).count '\n' := by
      rw [← List.count_append, List.take_append_drop]
    have bytes := byteCount_take_drop c cs (piece c cs).further
    rw [List.cons_append, wordsFrom_cons, wordsFrom_cons, same]
    simp only [List.take_append_of_le_length within, List.drop_append_of_le_length within]
    rw [ih, List.append_assoc]
    simp only [List.count_cons, ← bytes, lines, Nat.add_assoc]
    congr 4
    omega

/-- A text can be cut before a line break. -/
theorem cuts_lineBreak (cs more : List Char) : Cuts ('\n' :: more) cs := by
  induction cs using drop_induction with
  | nil => exact .nil
  | cons c cs ih =>
    have within : (piece c (cs ++ '\n' :: more)).further ≤ cs.length :=
      le_length_of_not_mem_take (piece_unbroken c _)
    have plain : ¬Distorted (c :: cs) ('\n' :: more) := by
      have noPart : resemblesNamePart '\n' = false := by decide +kernel
      have noStart : resemblesNameStart '\n' = false := by decide +kernel
      simp [Distorted, noPart, noStart]
    exact .piece within plain (ih _)

/-! ## Where words begin -/

/-- A word that is another one by itself: the name `clear`, or a minus written as an arrow. -/
def PlacedWord.Misread (placed : PlacedWord) : Prop :=
  placed.word = .name "clear" ∨ placed.word = .operator "−" ∧ placed.stop = placed.start + 2

theorem namePiece_clear {rest : List Char} (resembled : rest.head?.any resemblesNamePart)
    (within : (namePiece 'c' (['l', 'e', 'a', 'r'] ++ rest)).further ≤ 4) :
    namePiece 'c' (['l', 'e', 'a', 'r'] ++ rest) = ⟨some (.name "clear"), 4⟩ := by
  have allParts : ['l', 'e', 'a', 'r'].all isNamePart := by decide +kernel
  have parts : ∀ c ∈ ['l', 'e', 'a', 'r'], isNamePart c := List.all_eq_true.1 allParts
  have length : namePartLength (['l', 'e', 'a', 'r'] ++ rest) = 4 + namePartLength rest := by
    rw [namePartLength, List.takeWhile_append_of_pos parts, List.length_append]
    rfl
  have further : (namePiece 'c' (['l', 'e', 'a', 'r'] ++ rest)).further =
      4 + namePartLength rest := by
    rw [← length, namePiece]
    split <;> rfl
  have none : namePartLength rest = 0 := by omega
  simp only [namePiece, length, none]
  simp [resembled]

theorem misread_of_distorted {c : Char} {cs rest : List Char}
    (within : (piece c (cs ++ rest)).further ≤ cs.length) (distorted : Distorted (c :: cs) rest) :
    (piece c (cs ++ rest)).further = cs.length ∧
      ((piece c (cs ++ rest)).word? = some (.name "clear") ∨
        (piece c (cs ++ rest)).word? = some (.operator "−") ∧ byteCount (c :: cs) = 2) := by
  obtain ⟨clear, resembled⟩ | ⟨arrow, resembled⟩ := distorted
  · cases clear
    rw [piece_name (by decide +kernel) (by decide)] at within ⊢
    rw [namePiece_clear resembled within]
    exact ⟨rfl, .inl rfl⟩
  · cases arrow
    cases rest with
    | nil => cases resembled
    | cons d more =>
      have resembled : resemblesNameStart d = true := resembled
      rw [List.singleton_append, piece_dash, dashPiece] at within ⊢
      simp only [List.head?_cons, resembled, Bool.true_and] at within ⊢
      cases start : isNameStart d with
      | false => exact ⟨rfl, .inr ⟨rfl, rfl⟩⟩
      | true =>
        have longer : (arrowPiece 1 (d :: more)).further = 2 + namePartLength more := by
          rw [arrowPiece, if_pos start]
        simp only [start] at within
        rw [if_neg (by simp), longer, List.length_singleton] at within
        omega

example : (words "clear→M").map (·.word) = [.name "clear", .store "M"] := by decide +kernel

/-- A piece ends where a later word begins. -/
theorem further_le_of_begins {c : Char} {cs rest : List Char} {line start : Nat}
    {placed : PlacedWord} (found : placed ∈ wordsFrom line start (c :: (cs ++ rest)))
    (begins : placed.start = start + byteCount (c :: cs)) :
    (piece c (cs ++ rest)).further ≤ cs.length := by
  apply Nat.le_of_not_lt
  intro beyond
  have inside := further_piece_le c (cs ++ rest)
  obtain ⟨d, more, read⟩ : ∃ d more,
      (cs ++ rest).take (piece c (cs ++ rest)).further = cs ++ d :: more := by
    rw [List.length_append] at inside
    cases behind : rest.take ((piece c (cs ++ rest)).further - cs.length) with
    | nil =>
      have none := congrArg List.length behind
      simp only [List.length_take, List.length_nil] at none
      omega
    | cons d more =>
      refine ⟨d, more, ?_⟩
      rw [List.take_append, behind, List.take_of_length_le (Nat.le_of_lt beyond)]
  have some_byte := byteCount_cons_pos c cs
  have more_bytes := byteCount_cons_pos d more
  rw [mem_wordsFrom_cons, read] at found
  simp only [← List.cons_append, byteCount_append] at found
  obtain ⟨word, -, rfl⟩ | later := found
  · simp only at begins
    omega
  · have after := (span_of_mem_wordsFrom later).1
    omega

theorem exists_misread_of_distorted {c : Char} {cs rest : List Char}
    (within : (piece c (cs ++ rest)).further ≤ cs.length) (distorted : Distorted (c :: cs) rest)
    (line start : Nat) :
    ∃ placed ∈ wordsFrom line start (c :: (cs ++ rest)),
      placed.stop = start + byteCount (c :: cs) ∧ placed.Misread := by
  obtain ⟨whole, read⟩ := misread_of_distorted within distorted
  have all : (cs ++ rest).take (piece c (cs ++ rest)).further = cs := by
    rw [whole, List.take_left]
  obtain name | ⟨minus, two⟩ := read
  · refine ⟨_, mem_wordsFrom_cons.2 (.inl ⟨_, name, rfl⟩), ?_, .inl rfl⟩
    rw [all]
  · refine ⟨_, mem_wordsFrom_cons.2 (.inl ⟨_, minus, rfl⟩), ?_, .inr ⟨rfl, ?_⟩⟩
    · rw [all]
    · rw [all, two]

/-- A text can be cut where a word begins, if no word in front of the cut is misread. -/
theorem cuts_of_mem {cs rest : List Char} {line start : Nat} {placed : PlacedWord}
    (found : placed ∈ wordsFrom line start (cs ++ rest))
    (begins : placed.start = start + byteCount cs)
    (plain : ∀ other ∈ wordsFrom line start (cs ++ rest),
      other.stop = start + byteCount cs → ¬other.Misread) : Cuts rest cs := by
  induction cs using drop_induction generalizing line start with
  | nil => exact .nil
  | cons c cs ih =>
    rw [List.cons_append] at found
    simp only [List.cons_append] at plain
    have within := further_le_of_begins found begins
    have plainHere : ¬Distorted (c :: cs) rest := by
      intro distorted
      obtain ⟨other, read, ends, misread⟩ := exists_misread_of_distorted within distorted line start
      exact plain other read ends misread
    have bytes := byteCount_take_drop c cs (piece c (cs ++ rest)).further
    simp only [mem_wordsFrom_cons, List.take_append_of_le_length within,
      List.drop_append_of_le_length within] at found plain
    obtain ⟨word, -, rfl⟩ | later := found
    · have some_byte := byteCount_cons_pos c cs
      simp only at begins
      omega
    · refine .piece within plainHere (ih _ later ?_ ?_)
      · rw [begins, ← bytes, Nat.add_assoc]
      · intro other read ends
        refine plain other (.inr read) ?_
        rw [ends, ← bytes, Nat.add_assoc]

end StackCalculator.Script
