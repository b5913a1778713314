import StackCalculator.Script.Word

/-! # Pieces of a source text

`piece` reads the piece at the front of a text: the longest one that is a word, or a space or a
comment, which are dropped. A comment goes from `#` to the end of its line. A character that begins
no word is a word of its own, so that reading can go on after it.

Names are compared byte for byte. Behind `clear`, or behind an arrow in ASCII, a character may begin
with a byte that also begins a character of a name, and then turn out to be another one. The reader
has left the shorter word by then: `clear` has become a name, and the arrow a minus.
-/

namespace StackCalculator.Script

def digitCount (cs : List Char) : Nat :=
  (cs.takeWhile Char.isDigit).length

def signLength : List Char → Nat
  | '+' :: _ => 1
  | '-' :: _ => 1
  | _ => 0

/-- The length of the power of ten at the front of a text, zero if there is none: an `e` in either
case, an optional sign, and digits. -/
def powerLength : List Char → Nat
  | c :: rest =>
    let sign := signLength rest
    let digits := digitCount (rest.drop sign)
    if (c = 'e' ∨ c = 'E') ∧ digits ≠ 0 then 1 + sign + digits else 0
  | [] => 0

/-- The length of a point and the digits behind it, zero if no point is at the front of a text. -/
def fractionLength : List Char → Nat
  | '.' :: rest => 1 + digitCount rest
  | _ => 0

/-- The length of the rest of a number behind its first digits: a point, more digits, and a power of
ten, of which each may be absent. -/
def afterDigitsLength (cs : List Char) : Nat :=
  fractionLength cs + powerLength (cs.drop (fractionLength cs))

/-- The length of a number behind its first digit. -/
def wholeLength (rest : List Char) : Nat :=
  digitCount rest + afterDigitsLength (rest.drop (digitCount rest))

/-- The length of a number behind the point that it begins with. -/
def pointedLength (rest : List Char) : Nat :=
  digitCount rest + powerLength (rest.drop (digitCount rest))

def commentLength (rest : List Char) : Nat :=
  (rest.takeWhile (· ≠ '\n')).length

def namePartLength (cs : List Char) : Nat :=
  (cs.takeWhile isNamePart).length

structure Piece where
  -- the word that it is, if it is not dropped
  word? : Option Word
  -- how many characters it has after the first
  further : Nat

/-- Reads something, and makes a word of what is read. -/
def reading (length : List Char → Nat) (word? : List Char → Option Word) (rest : List Char) :
    Piece :=
  ⟨word? (rest.take (length rest)), length rest⟩

def number (c : Char) (digits : List Char) : Option Word :=
  some (.number (String.ofList (c :: digits)))

/-- The piece of an arrow behind its first character and `drawn` more: with a name if one follows at
once. -/
def arrowPiece (drawn : Nat) : List Char → Piece
  | [] => ⟨some .arrow, drawn⟩
  | c :: rest =>
    if isNameStart c then
      let length := namePartLength rest
      ⟨some (.store (String.ofList (c :: rest.take length))), drawn + 1 + length⟩
    else ⟨some .arrow, drawn⟩

/-- The piece of an arrow in ASCII, behind both its characters. Followed by a character that only
resembles the first one of a name, it is a minus. -/
def dashPiece (rest : List Char) : Piece :=
  match rest.head? with
  | some c =>
    if resemblesNameStart c && !isNameStart c then ⟨some (.operator "−"), 1⟩ else arrowPiece 1 rest
  | none => arrowPiece 1 rest

/-- The piece of a name, which is the command `clear` if it is spelled so. Followed by a character
that only resembles one of a name, even `clear` is a name. -/
def namePiece (c : Char) (rest : List Char) : Piece :=
  let length := namePartLength rest
  let name := c :: rest.take length
  let resembled := (rest.drop length).head?.any resemblesNamePart
  if name = ['c', 'l', 'e', 'a', 'r'] && !resembled then ⟨some .clear, length⟩
  else ⟨some (.name (String.ofList name)), length⟩

def piece (c : Char) (rest : List Char) : Piece :=
  if c = '\n' then ⟨some .lineBreak, 0⟩
  else if isSpace c then ⟨none, 0⟩
  else if c = '#' then reading commentLength (fun _ => none) rest
  else if c.isDigit then reading wholeLength (number c) rest
  else if c = '.' ∧ 0 < digitCount rest then reading pointedLength (number c) rest
  else if c = '→' then arrowPiece 0 rest
  else if c = '-' ∧ rest.head? = some '>' then dashPiece (rest.drop 1)
  else if isNameStart c then namePiece c rest
  else match operatorSymbol? c with
    | some symbol => ⟨some (.operator (String.singleton symbol)), 0⟩
    | none => ⟨some (.unknown c), 0⟩

private theorem digitCount_le (cs : List Char) : digitCount cs ≤ cs.length :=
  (List.takeWhile_sublist _).length_le

private theorem namePartLength_le (cs : List Char) : namePartLength cs ≤ cs.length :=
  (List.takeWhile_sublist _).length_le

private theorem powerLength_le (cs : List Char) : powerLength cs ≤ cs.length := by
  match cs with
  | [] => exact Nat.le_refl 0
  | c :: rest =>
    have bound := digitCount_le (rest.drop (signLength rest))
    rw [List.length_drop] at bound
    simp only [powerLength, List.length_cons]
    split
    · have some_digit := ‹_ ∧ _ ≠ 0›.2
      omega
    · exact Nat.zero_le _

/-- What is read, and then what is read behind it, is within the text. -/
private theorem add_length_le {first second : List Char → Nat} (firstLe : ∀ cs, first cs ≤ cs.length)
    (secondLe : ∀ cs, second cs ≤ cs.length) (cs : List Char) :
    first cs + second (cs.drop (first cs)) ≤ cs.length := by
  have front := firstLe cs
  have behind := secondLe (cs.drop (first cs))
  rw [List.length_drop] at behind
  omega

private theorem fractionLength_le (cs : List Char) : fractionLength cs ≤ cs.length := by
  unfold fractionLength
  split
  · next rest =>
    have bound := digitCount_le rest
    rw [List.length_cons]
    omega
  · exact Nat.zero_le _

private theorem afterDigitsLength_le (cs : List Char) : afterDigitsLength cs ≤ cs.length :=
  add_length_le fractionLength_le powerLength_le cs

private theorem arrowPiece_further_le (drawn : Nat) (cs : List Char) :
    (arrowPiece drawn cs).further ≤ drawn + cs.length := by
  match cs with
  | [] => simp [arrowPiece]
  | c :: rest =>
    have bound := namePartLength_le rest
    simp only [arrowPiece, List.length_cons]
    split <;> simp only <;> omega

private theorem dashPiece_further_le (cs : List Char) : (dashPiece cs).further ≤ 1 + cs.length := by
  unfold dashPiece
  split
  · split
    · exact Nat.le_add_right 1 _
    · exact arrowPiece_further_le 1 cs
  · exact arrowPiece_further_le 1 cs

theorem further_piece_le (c : Char) (rest : List Char) : (piece c rest).further ≤ rest.length := by
  unfold piece
  split
  · exact Nat.zero_le _
  split
  · exact Nat.zero_le _
  split
  · exact (List.takeWhile_sublist _).length_le
  split
  · exact add_length_le digitCount_le afterDigitsLength_le rest
  split
  · exact add_length_le digitCount_le powerLength_le rest
  split
  · simpa using arrowPiece_further_le 0 rest
  split
  · rename_i dash
    cases rest with
    | nil => exact absurd dash.2 (by simp)
    | cons second rest =>
      simp only [List.drop_succ_cons, List.drop_zero, List.length_cons]
      rw [Nat.add_comm rest.length 1]
      exact dashPiece_further_le rest
  split
  · simp only [namePiece]
    split <;> exact namePartLength_le rest
  · split <;> exact Nat.zero_le _

end StackCalculator.Script
