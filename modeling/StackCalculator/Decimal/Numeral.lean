import StackCalculator.Decimal.Basic

/-! # Written numbers

The texts that stand for a double: an optional sign and then either a decimal, with a point anywhere
among or around its digits and an optional power of ten, or one of the words for infinity and for no
number, in any case. `Numeral.ofChars?` reads such a text and nothing else; `Numeral.toFloat` is the
double it stands for.
-/

namespace StackCalculator

inductive Numeral where
  | decimal (negative : Bool) (value : Decimal)
  | infinity (negative : Bool)
  | nan
deriving DecidableEq

namespace Numeral

def splitSign : List Char → Bool × List Char
  | '+' :: rest => (false, rest)
  | '-' :: rest => (true, rest)
  | cs => (false, cs)

def splitFraction : List Char → List Char × List Char
  | '.' :: rest => (rest.takeWhile Char.isDigit, rest.dropWhile Char.isDigit)
  | cs => ([], cs)

def ofDigits (digits : List Char) : Nat :=
  Nat.ofDigitChars 10 digits 0

def signedWhole? (cs : List Char) : Option Int :=
  match splitSign cs with
  | (_, []) => none
  | (negative, digits) =>
    if digits.all Char.isDigit then
      some (if negative then -(ofDigits digits : Int) else ofDigits digits)
    else none

/-- The power of ten at the end of a decimal: none is the power zero. -/
def powerOfTen? : List Char → Option Int
  | [] => some 0
  | c :: rest => if c = 'e' ∨ c = 'E' then signedWhole? rest else none

/-- A decimal without a sign: digits on at least one side of an optional point, then an optional
power of ten. -/
def decimal? (cs : List Char) : Option Decimal :=
  let whole := cs.takeWhile Char.isDigit
  let (fraction, rest) := splitFraction (cs.dropWhile Char.isDigit)
  if whole.isEmpty && fraction.isEmpty then none
  else (powerOfTen? rest).map fun power => ⟨ofDigits (whole ++ fraction), power - fraction.length⟩

/-- The words for the doubles that are not finite; the sign is read already. -/
def word? (negative : Bool) (cs : List Char) : Option Numeral :=
  let lower := cs.map Char.toLower
  if lower = ['i', 'n', 'f'] ∨ lower = ['i', 'n', 'f', 'i', 'n', 'i', 't', 'y'] then
    some (.infinity negative)
  else if lower = ['n', 'a', 'n'] then some .nan
  else none

def ofChars? (text : List Char) : Option Numeral :=
  let (negative, cs) := splitSign text
  match decimal? cs with
  | some d => some (.decimal negative d)
  | none => word? negative cs

def toFloat : Numeral → Float
  | .decimal negative d => Binary64.ofRank negative d.rank
  | .infinity negative => Binary64.ofRank negative Binary64.infinityRank
  | .nan => Binary64.ofRank false (Binary64.infinityRank + 1)

def finite? : Numeral → Option Float
  | .decimal negative d =>
    if d.rank < Binary64.infinityRank then some (Binary64.ofRank negative d.rank) else none
  | _ => none

end Numeral

def readFloat? (text : String) : Option Float :=
  (Numeral.ofChars? text.toList).map Numeral.toFloat

def readFinite? (text : List Char) : Option Float :=
  (Numeral.ofChars? text).bind Numeral.finite?

end StackCalculator
