import StackCalculator.Binary64.Basic

/-! # Doubles without their fraction

A double without its fraction is a double again. The bits of the mantissa stand at the end of the
rank, and those behind the point are cleared there; the sign stays, that of a zero too.
-/

namespace StackCalculator.Binary64

/-- A finite magnitude without its fraction. One with more bits behind the point than a mantissa has
is less than one. -/
def truncRank (rank : Nat) : Nat :=
  let behind := (-exponent rank).toNat
  if behind ≤ 52 then rank - rank % Nat.pow 2 behind else 0

def trunc (x : Float) : Float :=
  if isFinite x then ofRank (isNegative x) (truncRank (rank x)) else x

end StackCalculator.Binary64
