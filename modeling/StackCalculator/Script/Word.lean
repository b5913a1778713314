import StackCalculator.Text.Letter
import StackCalculator.Text.Numeric

/-! # Words of a script

What a script is made of, and the characters names are made of.
-/

namespace StackCalculator.Script

inductive Word where
  -- a number, as it is written
  | number (literal : String)
  -- an operator, by the symbol of the machine
  | operator (symbol : String)
  -- a name with an arrow in front, without the arrow
  | store (name : String)
  -- an arrow without a name
  | arrow
  | clear
  | name (name : String)
  | lineBreak
  -- a character that begins no word
  | unknown (c : Char)
deriving DecidableEq

def isNameStart (c : Char) : Bool :=
  Text.isLetter c

def isNamePart (c : Char) : Bool :=
  Text.isLetter c || Text.isNumeric c || c == '_'

/-- Whether a text is a name as scripts spell them. -/
def isName : List Char → Bool
  | [] => false
  | c :: rest => isNameStart c && rest.all isNamePart

/-- The first byte of a code point in UTF-8. Greater code points never have a lesser one. -/
def leadByte (code : Nat) : Nat :=
  if code < 0x80 then code
  else if code < 0x800 then 0xC0 + code / 0x40
  else if code < 0x10000 then 0xE0 + code / 0x1000
  else 0xF0 + code / 0x40000

/-- Whether the first byte of a character is also that of a character in one of some ranges. -/
def sharesLeadByte (ranges : List (Nat × Nat)) (c : Char) : Bool :=
  let lead := leadByte c.toNat
  ranges.any fun (first, last) => leadByte first ≤ lead && lead ≤ leadByte last

def resemblesNameStart (c : Char) : Bool :=
  sharesLeadByte Text.letterRanges c

def resemblesNamePart (c : Char) : Bool :=
  resemblesNameStart c || sharesLeadByte Text.numericRanges c || c == '_'

/-- The symbol that an operator character stands for. Times, divided by and minus have spellings in
ASCII. -/
def operatorSymbol? (c : Char) : Option Char :=
  if c = '*' then some '×'
  else if c = '/' then some '÷'
  else if c = '-' then some '−'
  else if c ∈ ['+', '×', '÷', '−', '√', '%', '^', '!', '&', '±'] then some c
  else none

def isSpace (c : Char) : Bool :=
  c ∈ [' ', '\t', '\r', '\x0c']

/-! ## Names -/

theorem exists_of_isName {name : List Char} (spelled : isName name) :
    ∃ c rest, name = c :: rest ∧ isNameStart c ∧ ∀ d ∈ rest, isNamePart d := by
  cases name with
  | nil => cases spelled
  | cons c rest =>
    rw [isName, Bool.and_eq_true, List.all_eq_true] at spelled
    exact ⟨c, rest, rfl, spelled⟩

theorem isNameStart_lineBreak : isNameStart '\n' = false := by
  decide +kernel

theorem isNamePart_lineBreak : isNamePart '\n' = false := by
  decide +kernel

theorem toNat_of_isNameStart {c : Char} (start : isNameStart c) : 0x41 ≤ c.toNat := by
  have least : ∀ range ∈ Text.letterRanges, 0x41 ≤ range.1 := by decide +kernel
  obtain ⟨range, member, within⟩ := List.any_eq_true.1 start
  rw [Bool.and_eq_true, decide_eq_true_eq] at within
  exact Nat.le_trans (least range member) within.1

theorem isDigit_of_isNameStart {c : Char} (start : isNameStart c) : c.isDigit = false := by
  have low := toNat_of_isNameStart start
  rw [Char.isDigit, Bool.and_eq_false_iff, decide_eq_false_iff_not, decide_eq_false_iff_not]
  right
  intro high
  have bound : c.toNat ≤ 57 := high
  omega

theorem ne_of_isNameStart {c d : Char} (start : isNameStart c) (below : d.toNat < 0x41) :
    c ≠ d := by
  rintro rfl
  exact absurd (toNat_of_isNameStart start) (Nat.not_le.2 below)

end StackCalculator.Script
