import StackCalculator.Binary64.Basic

/-! # The nearest double

`nearest num den` is the magnitude nearest to the fraction `num / den`. Of two equally near ones the
one with the even mantissa is taken, and from half a step past the largest finite magnitude on the
answer is infinity.

The fraction is measured in units of `2 ^ e`, where `e` is the exponent of the binade that holds it,
but at least the exponent of the least magnitudes. Ranks grow by one from unit to unit, so a
quotient that is rounded up into the next binade needs no case of its own.
-/

namespace StackCalculator.Binary64

/-- The fraction `num / den` counted in units of `2 ^ e`. -/
def inUnits (num den : Nat) (e : Int) : Nat × Nat :=
  if 0 ≤ e then (num, den * Nat.pow 2 e.toNat) else (num * Nat.pow 2 (-e).toNat, den)

/-- The greatest `e` with `2 ^ e ≤ num / den`, for a positive fraction. -/
def floorLog2 (num den : Nat) : Int :=
  let guess : Int := num.log2 - den.log2
  let (n, d) := inUnits num den guess
  if n < d then guess - 1 else guess

/-- The whole number nearest to `num / den`, the even one of two. -/
def roundHalfEven (num den : Nat) : Nat :=
  let quotient := num / den
  let twice := 2 * (num % den)
  if twice < den || (twice == den && quotient % 2 == 0) then quotient else quotient + 1

def unitExponent (num den : Nat) : Int :=
  max (-1074) (floorLog2 num den - 52)

def nearest (num den : Nat) : Nat :=
  if num = 0 then 0
  else
    let e := unitExponent num den
    let (n, d) := inUnits num den e
    min infinityRank ((e + 1074).toNat * Nat.pow 2 52 + roundHalfEven n d)

end StackCalculator.Binary64
