import StackCalculator.Decimal.Basic

/-! # The shortest decimal of a double

`shortest rank` is a decimal that reads back as the magnitude `rank`, with as few digits as any such
decimal has. For each number of digits only two decimals need to be tried, the neighbours of the
exact value: if any decimal of that many digits reads back, one of these does. When both do, the
nearer is taken, and the greater of two equally near ones. Seventeen digits always suffice; the
exact decimal stands behind them, so that the answer reads back without appeal to that fact.
-/

namespace StackCalculator.Decimal

/-- The place of the leading digit of a positive fraction: the `k` with
`10 ^ (k - 1) ≤ num / den < 10 ^ k`. -/
def leadingPlace (num den : Nat) : Int :=
  if den ≤ num then (Nat.toDigits 10 (num / den)).length
  else
    let below : Int := (Nat.toDigits 10 (den / num)).length
    if den = num * Nat.pow 10 (below - 1).toNat then 2 - below else 1 - below

def inUnits (num den : Nat) (e : Int) : Nat × Nat :=
  if 0 ≤ e then (num, den * Nat.pow 10 e.toNat) else (num * Nat.pow 10 (-e).toNat, den)

/-- The neighbour of the magnitude's exact value among the multiples of `10 ^ e` that reads back as
the magnitude, if one does. -/
def neighbour? (rank : Nat) (e : Int) : Option Decimal :=
  let (num, den) := Binary64.ratio rank
  let (n, d) := inUnits num den e
  let below : Decimal := ⟨n / d, e⟩
  let above : Decimal := ⟨n / d + 1, e⟩
  if below.rank = rank then
    if above.rank = rank ∧ d ≤ 2 * (n % d) then some above else some below
  else if above.rank = rank then some above
  else none

def exact (rank : Nat) : Decimal :=
  let m := Binary64.mantissa rank
  let q := Binary64.exponent rank
  if 0 ≤ q then ⟨m * Nat.pow 2 q.toNat, 0⟩ else ⟨m * Nat.pow 5 (-q).toNat, q⟩

def shortest (rank : Nat) : Decimal :=
  let (num, den) := Binary64.ratio rank
  let place := leadingPlace num den
  let found := (List.range 17).findSome? fun (n : Nat) => neighbour? rank (place - 1 - n)
  let d := found.getD (exact rank)
  shortened d.significand d.exponent

end StackCalculator.Decimal
