import StackCalculator.Proofs.Script.Driving
import StackCalculator.Proofs.Script.Shape

/-! # Written words are read back

`Written` tells how words are written down one after another: each in one of its spellings, with
blanks, line breaks or comments between neighbours. The words of such a text are these words and no
others (`withoutBreaks_words_of_written`). Whatever separates two words begins with a character that
goes on with no word and resembles no part of a name (`Parted`), so the longest match ends in front
of it.
-/

namespace StackCalculator.Script

open Literal (Power Denotes Mantissa)

/-! ## Spellings -/

/-- The characters that operators are written with, and their symbols. -/
def operatorSpellings : List (Char × Char) :=
  [('+', '+'), ('×', '×'), ('*', '×'), ('÷', '÷'), ('/', '÷'), ('−', '−'), ('-', '−'), ('√', '√'),
    ('%', '%'), ('^', '^'), ('!', '!'), ('&', '&'), ('±', '±')]

def arrowSpellings : List (List Char) :=
  [['→'], ['-', '>']]

/-- A word, and a text that it may be written as. -/
inductive Spells : Word → List Char → Prop where
  | number {text : List Char} {d : Decimal} (literal : Denotes text d) :
    Spells (.number (String.ofList text)) text
  | operator {c symbol : Char} (spelling : (c, symbol) ∈ operatorSpellings) :
    Spells (.operator (String.singleton symbol)) [c]
  | clear : Spells .clear ['c', 'l', 'e', 'a', 'r']
  | name {text : List Char} (spelled : isName text)
    (other : text ≠ ['c', 'l', 'e', 'a', 'r']) : Spells (.name (String.ofList text)) text
  | store {arrow text : List Char} (pointing : arrow ∈ arrowSpellings)
    (spelled : isName text) : Spells (.store (String.ofList text)) (arrow ++ text)
  | arrow {arrow : List Char} (pointing : arrow ∈ arrowSpellings) : Spells .arrow arrow

/-- Blanks, line breaks, and comments with the line breaks that end them. -/
inductive Filler : List Char → Prop where
  | nil : Filler []
  | blank {c : Char} {rest : List Char} (blank : c ∈ [' ', '\t', '\r', '\x0c', '\n'])
    (later : Filler rest) : Filler (c :: rest)
  | comment {text rest : List Char} (unbroken : '\n' ∉ text) (later : Filler rest) :
    Filler ('#' :: (text ++ '\n' :: rest))

/-- Words, and a text that begins with the first of them and has some filler between neighbours. -/
inductive Written : List Word → List Char → Prop where
  | nil : Written [] []
  | last {word : Word} {text filler : List Char} (spells : Spells word text)
    (behind : Filler filler) : Written [word] (text ++ filler)
  | cons {word : Word} {text filler more : List Char} {words : List Word}
    (spells : Spells word text) (behind : Filler filler) (parted : filler ≠ [])
    (later : Written words more) : Written (word :: words) (text ++ (filler ++ more))

/-! ## Boundaries -/

/-- A text that goes on with no word in front of it: it is empty or begins with a blank, a line
break or a comment. -/
def Parted (rest : List Char) : Prop :=
  ∀ c ∈ rest.head?, c ∈ [' ', '\t', '\r', '\x0c', '\n', '#']

theorem parted_nil : Parted [] := by
  rintro c ⟨⟩

theorem Filler.parted {filler : List Char} (fills : Filler filler) : Parted filler := by
  cases fills with
  | nil => exact parted_nil
  | blank blank =>
    rintro c ⟨⟩
    simp only [List.mem_cons, List.not_mem_nil, or_false] at blank ⊢
    tauto
  | comment =>
    rintro c ⟨⟩
    decide

theorem Filler.parted_append {filler : List Char} (fills : Filler filler) (nonempty : filler ≠ [])
    (more : List Char) : Parted (filler ++ more) := by
  rw [Parted, List.head?_append_of_ne_nil _ nonempty]
  exact fills.parted

namespace Parted

variable {rest : List Char}

theorem not_isDigit (parted : Parted rest) : ∀ c ∈ rest.head?, ¬c.isDigit := by
  have apart : [' ', '\t', '\r', '\x0c', '\n', '#'].any Char.isDigit = false := by decide
  exact fun c first => List.any_eq_false.1 apart c (parted c first)

theorem not_isNamePart (parted : Parted rest) : ∀ c ∈ rest.head?, ¬isNamePart c := by
  have apart : [' ', '\t', '\r', '\x0c', '\n', '#'].any isNamePart = false := by decide +kernel
  exact fun c first => List.any_eq_false.1 apart c (parted c first)

theorem not_resemblesNamePart (parted : Parted rest) :
    rest.head?.any resemblesNamePart = false := by
  have apart : [' ', '\t', '\r', '\x0c', '\n', '#'].any resemblesNamePart = false := by
    decide +kernel
  rw [Option.any_eq_false]
  exact fun c first => Bool.eq_false_of_not_eq_true (List.any_eq_false.1 apart c (parted c first))

theorem head?_ne (parted : Parted rest) {d : Char}
    (apart : d ∉ [' ', '\t', '\r', '\x0c', '\n', '#']) : rest.head? ≠ some d :=
  fun first => apart (parted d first)

end Parted

/-! ## Numbers -/

theorem digitCount_append {digits rest : List Char} (all : ∀ c ∈ digits, c.isDigit)
    (stop : ∀ c ∈ rest.head?, ¬c.isDigit) : digitCount (digits ++ rest) = digits.length := by
  rw [digitCount, (takeWhile_append_of_stop all stop).1]

theorem powerLength_append {power rest : List Char} {n : Int} (tens : Power power n)
    (parted : Parted rest) : powerLength (power ++ rest) = power.length := by
  have counted {digits : List Char} (number : Digits digits) :
      digitCount (digits ++ rest) = digits.length :=
    digitCount_append number.all parted.not_isDigit
  have some_digit {digits : List Char} (number : Digits digits) : digits.length ≠ 0 := by
    simpa using number.nonempty
  cases tens with
  | absent =>
    cases rest with
    | nil => rfl
    | cons c rest =>
      have unmarked : ¬(c = 'e' ∨ c = 'E') := by
        rintro (rfl | rfl) <;> exact absurd (parted _ rfl) (by decide)
      simp [powerLength, unmarked]
  | @unsigned mark digits marks number =>
    have unsigned : signLength (digits ++ rest) = 0 := by
      obtain ⟨c, more, rfl, digit⟩ := number.exists_cons
      rw [signLength_cons_append, signLength]
      · rintro _ ⟨⟩
        cases digit
      · rintro _ ⟨⟩
        cases digit
    simp [powerLength, unsigned, counted number, marks, some_digit number]
    omega
  | plus marks number | minus marks number =>
    simp [powerLength, signLength, counted number, marks, some_digit number]
    omega

theorem head_power_append {power rest : List Char} {n : Int} (tens : Power power n)
    (parted : Parted rest) : ∀ c ∈ (power ++ rest).head?, ¬c.isDigit ∧ c ≠ '.' := by
  intro c first
  cases power with
  | nil =>
    have noPoint : rest.head? ≠ some '.' := parted.head?_ne (by decide)
    exact ⟨parted.not_isDigit c first, fun point => noPoint (point ▸ first)⟩
  | cons mark more =>
    cases first
    obtain rfl | rfl := tens.head c rfl <;> decide

theorem afterDigitsLength_power {power rest : List Char} {n : Int} (tens : Power power n)
    (parted : Parted rest) : afterDigitsLength (power ++ rest) = power.length := by
  have none : fractionLength (power ++ rest) = 0 := by
    rw [fractionLength]
    intro more same
    exact (head_power_append tens parted '.' (by rw [same]; rfl)).2 rfl
  show fractionLength (power ++ rest) + powerLength ((power ++ rest).drop (fractionLength _)) = _
  rw [none, Nat.zero_add, List.drop_zero, powerLength_append tens parted]

theorem afterDigitsLength_point {fraction power rest : List Char} {n : Int}
    (behind : ∀ c ∈ fraction, c.isDigit) (tens : Power power n) (parted : Parted rest) :
    afterDigitsLength ('.' :: (fraction ++ (power ++ rest))) =
      1 + fraction.length + power.length := by
  have counted : digitCount (fraction ++ (power ++ rest)) = fraction.length :=
    digitCount_append behind fun c first => (head_power_append tens parted c first).1
  show 1 + digitCount _ + powerLength (('.' :: (fraction ++ (power ++ rest))).drop (1 + _)) = _
  rw [counted, Nat.add_comm 1, List.drop_succ_cons, List.drop_left, powerLength_append tens parted]

/-! ## One word -/

/-- In front of whatever it is parted from, a text is one piece, which is a word. -/
def ReadsAs (text : List Char) (word : Word) : Prop :=
  ∃ c cs, text = c :: cs ∧ ∀ rest, Parted rest → piece c (cs ++ rest) = ⟨some word, cs.length⟩

theorem reading_of_length {length : List Char → Nat} {cs rest : List Char}
    (whole : length (cs ++ rest) = cs.length) (word? : List Char → Option Word) :
    reading length word? (cs ++ rest) = ⟨word? cs, cs.length⟩ := by
  rw [reading, whole, List.take_left]

theorem readsAs_number {text : List Char} {d : Decimal} (literal : Denotes text d) :
    ReadsAs text (.number (String.ofList text)) := by
  obtain @⟨mantissa, whole, fraction, power, n, digits, tens⟩ := literal
  have stop {rest} (parted : Parted rest) c (first : c ∈ (power ++ rest).head?) : ¬c.isDigit :=
    (head_power_append tens parted c first).1
  cases digits with
  | whole front =>
    obtain ⟨c, more, rfl, digit⟩ := front.exists_cons
    refine ⟨c, more ++ power, rfl, fun rest parted => ?_⟩
    rw [piece_digit digit]
    apply reading_of_length
    have all := (List.forall_mem_cons.1 front.all).2
    rw [List.append_assoc, wholeLength, digitCount_append all (stop parted), List.drop_left,
      afterDigitsLength_power tens parted, List.length_append]
  | pointed front behind =>
    obtain ⟨c, more, rfl, digit⟩ := front.exists_cons
    refine ⟨c, more ++ '.' :: fraction ++ power, by simp, fun rest parted => ?_⟩
    rw [List.cons_append, List.cons_append, piece_digit digit]
    apply reading_of_length
    have all := (List.forall_mem_cons.1 front.all).2
    simp only [List.append_assoc, List.cons_append]
    rw [wholeLength, digitCount_append all (by rintro _ ⟨⟩; decide), List.drop_left,
      afterDigitsLength_point behind tens parted]
    simp only [List.length_append, List.length_cons]
    omega
  | fraction behind =>
    refine ⟨'.', fraction ++ power, rfl, fun rest parted => ?_⟩
    have counted : digitCount (fraction ++ (power ++ rest)) = fraction.length :=
      digitCount_append behind.all (stop parted)
    rw [piece_point]
    · apply reading_of_length
      rw [List.append_assoc, pointedLength, counted, List.drop_left,
        powerLength_append tens parted, List.length_append]
    · rw [List.append_assoc, counted]
      exact List.length_pos_iff.2 behind.nonempty

theorem readsAs_operator {c symbol : Char} (spelling : (c, symbol) ∈ operatorSpellings) :
    ReadsAs [c] (.operator (String.singleton symbol)) := by
  have plain : ∀ pair ∈ operatorSpellings, operatorSymbol? pair.1 = some pair.2 ∧
      pair.1 ∉ ['\n', '#', '.', '→'] ∧ ¬isSpace pair.1 ∧ ¬pair.1.isDigit := by
    decide
  have noName : operatorSpellings.any (fun pair => isNameStart pair.1) = false := by
    decide +kernel
  obtain ⟨means, other, noSpace, noDigit⟩ := plain _ spelling
  have noName := List.any_eq_false.1 noName _ spelling
  simp only [List.mem_cons, List.not_mem_nil, or_false, not_or] at other
  refine ⟨c, [], rfl, fun rest parted => ?_⟩
  have noTip : rest.head? ≠ some '>' := parted.head?_ne (by decide)
  simp [piece, means, other, noSpace, noDigit, noName, noTip]

theorem namePartLength_append {parts rest : List Char} (all : ∀ c ∈ parts, isNamePart c)
    (parted : Parted rest) : namePartLength (parts ++ rest) = parts.length := by
  rw [namePartLength, (takeWhile_append_of_stop all parted.not_isNamePart).1]

theorem namePiece_append_parted {c : Char} {parts rest : List Char}
    (all : ∀ c ∈ parts, isNamePart c) (parted : Parted rest) :
    namePiece c (parts ++ rest) = if c :: parts = ['c', 'l', 'e', 'a', 'r']
      then ⟨some .clear, parts.length⟩
      else ⟨some (.name (String.ofList (c :: parts))), parts.length⟩ := by
  simp only [namePiece, namePartLength_append all parted, List.take_left, List.drop_left,
    parted.not_resemblesNamePart, Bool.not_false, Bool.and_true, decide_eq_true_eq]

theorem readsAs_name {text : List Char} (spelled : isName text) :
    ReadsAs text
      (if text = ['c', 'l', 'e', 'a', 'r'] then .clear else .name (String.ofList text)) := by
  obtain ⟨c, parts, rfl, start, all⟩ := exists_of_isName spelled
  refine ⟨c, parts, rfl, fun rest parted => ?_⟩
  rw [piece_name start (by simp [isDigit_of_isNameStart start]),
    namePiece_append_parted all parted]
  split <;> rfl

theorem isName_clear : isName ['c', 'l', 'e', 'a', 'r'] := by
  decide +kernel

/-- An arrow in either spelling is read as an arrow, if what follows it begins with a name or with
no character that resembles one. -/
theorem exists_arrowPiece {arrow : List Char} (pointing : arrow ∈ arrowSpellings) :
    ∃ c cs, arrow = c :: cs ∧ ∀ rest : List Char,
      (∀ d ∈ rest.head?, resemblesNameStart d → isNameStart d) →
        piece c (cs ++ rest) = arrowPiece cs.length rest := by
  simp only [arrowSpellings, List.mem_cons, List.not_mem_nil, or_false] at pointing
  obtain rfl | rfl := pointing
  · exact ⟨'→', [], rfl, fun rest _ => piece_arrow rest⟩
  · refine ⟨'-', ['>'], rfl, fun rest unlike => ?_⟩
    rw [List.singleton_append, piece_dash, dashPiece]
    cases rest with
    | nil => rfl
    | cons d more =>
      have noMinus : (resemblesNameStart d && !isNameStart d) = false := by
        rw [Bool.and_eq_false_imp, Bool.not_eq_false']
        exact unlike d rfl
      simp only [List.head?_cons, noMinus, Bool.false_eq_true, if_false]
      rfl

theorem readsAs_store {arrow text : List Char} (pointing : arrow ∈ arrowSpellings)
    (spelled : isName text) :
    ReadsAs (arrow ++ text) (.store (String.ofList text)) := by
  obtain ⟨c, cs, rfl, read⟩ := exists_arrowPiece pointing
  obtain ⟨first, parts, rfl, start, all⟩ := exists_of_isName spelled
  refine ⟨c, cs ++ first :: parts, rfl, fun rest parted => ?_⟩
  have named : ∀ d ∈ (first :: parts ++ rest).head?, resemblesNameStart d → isNameStart d := by
    rintro d ⟨⟩ -
    exact start
  rw [List.append_assoc, read _ named, List.cons_append, arrowPiece, if_pos start]
  simp only [namePartLength_append all parted, List.take_left, List.length_append,
    List.length_cons, Piece.mk.injEq, true_and]
  omega

theorem readsAs_arrow {arrow : List Char} (pointing : arrow ∈ arrowSpellings) :
    ReadsAs arrow .arrow := by
  obtain ⟨c, cs, rfl, read⟩ := exists_arrowPiece pointing
  refine ⟨c, cs, rfl, fun rest parted => ?_⟩
  have unlike := parted.not_resemblesNamePart
  cases rest with
  | nil => exact read [] (by rintro _ ⟨⟩)
  | cons d more =>
    simp only [List.head?_cons, Option.any_some, resemblesNamePart, Bool.or_eq_false_iff] at unlike
    have noName : ¬isNameStart d := fun start =>
      parted.not_isNamePart d rfl (by rw [isNamePart, ← isNameStart, start]; rfl)
    rw [read, arrowPiece, if_neg noName]
    rintro _ ⟨⟩ resembles
    rw [unlike.1.1] at resembles
    cases resembles

theorem Spells.readsAs {word : Word} {text : List Char} (spells : Spells word text) :
    ReadsAs text word := by
  cases spells with
  | number literal => exact readsAs_number literal
  | operator spelling => exact readsAs_operator spelling
  | clear =>
    have read := readsAs_name isName_clear
    rwa [if_pos rfl] at read
  | name spelled other => simpa only [if_neg other] using readsAs_name spelled
  | store pointing spelled => exact readsAs_store pointing spelled
  | arrow pointing => exact readsAs_arrow pointing

theorem Spells.ne_lineBreak {word : Word} {text : List Char} (spells : Spells word text) :
    word ≠ .lineBreak := by
  rintro rfl
  cases spells

/-! ## The words of a text -/

/-- The words of a text without its line breaks, wherever the text begins. -/
def spoken (cs : List Char) : List Word :=
  withoutBreaks (wordsFrom 0 0 cs)

theorem withoutBreaks_wordsFrom (line start : Nat) (cs : List Char) :
    withoutBreaks (wordsFrom line start cs) = spoken cs := by
  have moved := wordsFrom_moved 0 0 line start cs
  rw [Nat.zero_add, Nat.zero_add] at moved
  rw [moved, spoken, withoutBreaks, List.map_map]
  rfl

@[simp] theorem spoken_nil : spoken [] = [] := by
  simp [spoken, wordsFrom, withoutBreaks]

theorem spoken_cons (c : Char) (rest : List Char) :
    spoken (c :: rest) = (piece c rest).word?.toList.filter (· ≠ .lineBreak) ++
      spoken (rest.drop (piece c rest).further) := by
  rw [spoken, wordsFrom_cons, withoutBreaks, List.map_append, List.filter_append]
  congr 1
  · cases (piece c rest).word? <;> rfl
  · exact withoutBreaks_wordsFrom _ _ _

theorem spoken_filler {filler : List Char} (fills : Filler filler) (more : List Char) :
    spoken (filler ++ more) = spoken more := by
  induction fills with
  | nil => rfl
  | @blank c rest blank later ih =>
    have dropped : (piece c (rest ++ more)).further = 0 ∧
        (piece c (rest ++ more)).word?.toList.filter (· ≠ .lineBreak) = [] := by
      simp only [List.mem_cons, List.not_mem_nil, or_false] at blank
      obtain rfl | rfl | rfl | rfl | rfl := blank <;> exact ⟨rfl, rfl⟩
    rw [List.cons_append, spoken_cons, dropped.1, dropped.2]
    exact ih
  | @comment text rest unbroken later ih =>
    have inside : ∀ c ∈ text, decide (c ≠ '\n') := by
      intro c found
      simp only [decide_eq_true_eq]
      rintro rfl
      exact unbroken found
    have whole : commentLength (text ++ '\n' :: (rest ++ more)) = text.length := by
      rw [commentLength, (takeWhile_append_of_stop inside (by rintro _ ⟨⟩; decide)).1]
    simp only [List.cons_append, List.append_assoc]
    rw [spoken_cons, piece_comment, reading_of_length whole, List.drop_left, spoken_cons]
    exact ih

theorem spoken_spelled {word : Word} {text rest : List Char} (spells : Spells word text)
    (parted : Parted rest) : spoken (text ++ rest) = word :: spoken rest := by
  obtain ⟨c, cs, rfl, read⟩ := spells.readsAs
  rw [List.cons_append, spoken_cons, read rest parted, List.drop_left]
  simp [spells.ne_lineBreak]

theorem spoken_of_written {written : List Word} {text : List Char} (writes : Written written text) :
    spoken text = written := by
  induction writes with
  | nil => exact spoken_nil
  | @last word text filler spells behind =>
    have empty : spoken filler = [] := by
      simpa using spoken_filler behind []
    rw [spoken_spelled spells behind.parted, empty]
  | cons spells behind parted later ih =>
    rw [spoken_spelled spells (behind.parted_append parted _), spoken_filler behind, ih]

/-- Words that are written one after another, with some filler between neighbours, in front of the
first and behind the last, are read back in this order, and nothing else is read. -/
theorem withoutBreaks_words_of_written {around text : List Char} {written : List Word}
    (filled : Filler around) (writes : Written written text) :
    withoutBreaks (words (String.ofList (around ++ text))) = written := by
  rw [words, String.toList_ofList, withoutBreaks_wordsFrom, spoken_filler filled,
    spoken_of_written writes]

/-- A number that ends in its point, an operator in ASCII behind a comment, and a store into a
variable that is named like the command. -/
theorem withoutBreaks_words_of_written_stored :
    withoutBreaks (words " 2. # two\n* ->clear") =
      [.number "2.", .operator "×", .store "clear"] := by
  have digits : Digits ['2'] := ⟨by decide, List.forall_mem_singleton.2 rfl⟩
  have two : Denotes ['2', '.'] _ := .literal (.pointed digits (List.forall_mem_nil _)) .absent
  have comment : Filler (' ' :: '#' :: ([' ', 't', 'w', 'o'] ++ '\n' :: [])) :=
    .blank (by decide) (.comment (by decide) .nil)
  have blank : Filler [' '] := .blank (by decide) .nil
  have times : Spells (.operator (String.singleton '×')) ['*'] := .operator (by decide)
  have store : Spells (.store (String.ofList ['c', 'l', 'e', 'a', 'r']))
      (['-', '>'] ++ ['c', 'l', 'e', 'a', 'r']) :=
    .store (by decide) isName_clear
  have writes := Written.cons (.number two) comment (by decide)
    (.cons times blank (by decide) (.last store .nil))
  have read := withoutBreaks_words_of_written blank writes
  exact read

end StackCalculator.Script
