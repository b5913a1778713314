import StackCalculator.Binary64.Nearest

/-! # Decimals

A decimal is a whole number of units of a power of ten. `Decimal.rank` is the magnitude nearest to
it.
-/

namespace StackCalculator

/-- The number `significand · 10 ^ exponent`. -/
structure Decimal where
  significand : Nat
  exponent : Int
deriving DecidableEq

namespace Decimal

def ratio (d : Decimal) : Nat × Nat :=
  if 0 ≤ d.exponent then (d.significand * Nat.pow 10 d.exponent.toNat, 1)
  else (d.significand, Nat.pow 10 (-d.exponent).toNat)

/-- The magnitude nearest to a decimal.

A positive decimal with an exponent of 309 or more is past every finite double, and one below half
of the least positive double is nearest to zero; neither needs its power of ten written out. -/
def rank (d : Decimal) : Nat :=
  if d.significand = 0 then 0
  else if 309 ≤ d.exponent then Binary64.infinityRank
  else if d.significand.log2 + 1076 ≤ 3 * (-d.exponent).toNat then 0
  else Binary64.nearest d.ratio.1 d.ratio.2

def shortened (significand : Nat) (exponent : Int) : Decimal :=
  if h : 0 < significand ∧ significand % 10 = 0 then shortened (significand / 10) (exponent + 1)
  else ⟨significand, exponent⟩
termination_by significand
decreasing_by omega

end Decimal

end StackCalculator
