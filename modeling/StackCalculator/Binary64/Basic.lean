/-! # Doubles as exact numbers

A double is a sign and a *magnitude*: the rank of its absolute value among the doubles from zero up.
The ranks below `infinityRank` are the finite magnitudes, each an exact `mantissa · 2 ^ exponent`;
`infinityRank` itself is infinity, and the ranks above it are no number. All arithmetic on
magnitudes is exact arithmetic on natural numbers.
-/

namespace StackCalculator.Binary64

/-- The rank that stands for infinity: 2046 binades and the numbers below them come before it. -/
def infinityRank : Nat := 2047 * Nat.pow 2 52

def signWeight : Nat := Nat.pow 2 63

def rank (x : Float) : Nat :=
  x.toBits.toNat % signWeight

def isNegative (x : Float) : Bool :=
  signWeight ≤ x.toBits.toNat

def ofRank (negative : Bool) (rank : Nat) : Float :=
  Float.ofBits (UInt64.ofNat (if negative then signWeight + rank else rank))

def isFinite (x : Float) : Bool :=
  rank x < infinityRank

/-- The mantissa of a finite magnitude. The ranks below `2 ^ 52` lack the leading bit of the others.
-/
def mantissa (rank : Nat) : Nat :=
  if rank < Nat.pow 2 52 then rank else rank % Nat.pow 2 52 + Nat.pow 2 52

/-- The exponent of a finite magnitude, which is `mantissa rank · 2 ^ exponent rank`. -/
def exponent (rank : Nat) : Int :=
  if rank < Nat.pow 2 52 then -1074 else (rank / Nat.pow 2 52 : Nat) - 1075

/-- The exact value of a finite magnitude, as a numerator over a denominator. -/
def ratio (rank : Nat) : Nat × Nat :=
  if 0 ≤ exponent rank then (mantissa rank * Nat.pow 2 (exponent rank).toNat, 1)
  else (mantissa rank, Nat.pow 2 (-exponent rank).toNat)

end StackCalculator.Binary64
