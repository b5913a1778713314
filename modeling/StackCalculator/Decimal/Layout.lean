import StackCalculator.Decimal.Shortest

/-! # How doubles are written

Every double is written with its shortest digits. A `Layout` fixes the rest: whether whole numbers
keep a point, and between which leading places the digits are written around a point instead of with
a power of ten. There are two layouts: `plain`, for every number the user sees, and `message`, for
results in the messages of a run.
-/

namespace StackCalculator

structure Layout where
  -- whole numbers end in `.0`
  wholePoint : Bool
  -- the least and the greatest leading place of a number written without a power of ten, if there
  -- are limits
  places : Option (Int × Int)

namespace Layout

/-- Digits around a point; a whole number has none. -/
def plain : Layout := ⟨false, none⟩

/-- Digits around a point from `1e-4` up to but not including `1e16`; a whole number keeps its
point. -/
def message : Layout := ⟨true, some (-3, 16)⟩

/-- Digits written around a point, when the leading one stands at `place`. -/
def positional (layout : Layout) (digits : List Char) (place : Int) : List Char :=
  if place ≤ 0 then '0' :: '.' :: List.replicate (-place).toNat '0' ++ digits
  else
    let point := place.toNat
    if digits.length ≤ point then
      digits ++ List.replicate (point - digits.length) '0' ++
        (if layout.wholePoint then ['.', '0'] else [])
    else digits.take point ++ '.' :: digits.drop point

def ofInt (n : Int) : List Char :=
  if n < 0 then '-' :: Nat.toDigits 10 n.natAbs else Nat.toDigits 10 n.natAbs

/-- Digits with a point behind the first one, when the leading one stands at `place`, and the power
of ten that this takes. -/
def scientific (digits : List Char) (place : Int) : List Char :=
  let mantissa := match digits with
    | first :: rest@(_ :: _) => first :: '.' :: rest
    | short => short
  mantissa ++ 'e' :: ofInt (place - 1)

def isPositional (layout : Layout) (place : Int) : Bool :=
  match layout.places with
  | none => true
  | some (least, greatest) => least ≤ place && place ≤ greatest

def decimal (layout : Layout) (d : Decimal) : List Char :=
  let digits := Nat.toDigits 10 d.significand
  let place := d.exponent + digits.length
  if layout.isPositional place then layout.positional digits place else scientific digits place

def magnitude (layout : Layout) (rank : Nat) : List Char :=
  if rank = 0 then if layout.wholePoint then ['0', '.', '0'] else ['0']
  else if rank = Binary64.infinityRank then ['i', 'n', 'f']
  else layout.decimal (Decimal.shortest rank)

/-- A double. What is no number has no sign either. -/
def chars (layout : Layout) (x : Float) : List Char :=
  let rank := Binary64.rank x
  if Binary64.infinityRank < rank then ['N', 'a', 'N']
  else if Binary64.isNegative x then '-' :: layout.magnitude rank
  else layout.magnitude rank

def write (layout : Layout) (x : Float) : String :=
  String.ofList (layout.chars x)

end Layout

end StackCalculator
