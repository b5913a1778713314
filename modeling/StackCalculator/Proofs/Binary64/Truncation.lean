import Mathlib
import StackCalculator.Binary64.Truncation
import StackCalculator.Proofs.Binary64.Value

/-! # Truncation is exact

Clearing the bits behind the point takes a double to its whole part and to nothing near it
(`value_trunc`), for every exponent and either sign. A double whose whole part is a signed 64-bit
integer is cast to this integer (`toInt_toInt64`).
-/

namespace StackCalculator.Binary64

open Float.Model Float.Model.UnpackedFloat

/-! ## Magnitudes -/

/-- A magnitude of a binade is told by its exponent and its mantissa. -/
theorem mantissa_exponent_eq {m : Nat} {e : Int} (least : -1074 ≤ e) (leading : 2 ^ 52 ≤ m)
    (below : m < 2 ^ 53) :
    mantissa ((e + 1074).toNat * 2 ^ 52 + m) = m ∧ exponent ((e + 1074).toNat * 2 ^ 52 + m) = e := by
  have bounds := mantissa_exponent_bounds ((e + 1074).toNat * 2 ^ 52 + m)
  omega

/-- A magnitude is a whole number, or some bits of its mantissa stand behind the point. -/
theorem number_cases (rank : Nat) :
    (∃ k : Nat, exponent rank = k ∧ number rank = (mantissa rank * 2 ^ k : Nat)) ∨
      ∃ k : Nat, 0 < k ∧ exponent rank = -k ∧ ⌊number rank⌋₊ = mantissa rank / 2 ^ k := by
  by_cases nonneg : 0 ≤ exponent rank
  · obtain ⟨k, same⟩ := Int.eq_ofNat_of_zero_le nonneg
    refine .inl ⟨k, same, ?_⟩
    rw [number, same, zpow_natCast]
    push_cast
    rfl
  · obtain ⟨k, same⟩ : ∃ k : Nat, exponent rank = -k := ⟨(-exponent rank).toNat, by omega⟩
    refine .inr ⟨k, by omega, same, ?_⟩
    rw [number, same, zpow_neg, zpow_natCast, ← div_eq_mul_inv, ← Nat.cast_ofNat, ← Nat.cast_pow,
      Nat.floor_div_eq_div]

/-- Clearing the last `k` bits of a mantissa in the rank leaves the binade, and keeps the exponent. -/
theorem mantissa_exponent_clear {rank k : Nat} (leading : 2 ^ 52 ≤ mantissa rank) (few : k ≤ 52) :
    mantissa (rank - rank % 2 ^ k) = mantissa rank / 2 ^ k * 2 ^ k ∧
      exponent (rank - rank % 2 ^ k) = exponent rank := by
  obtain ⟨whole, below, least, -⟩ := mantissa_exponent_bounds rank
  obtain ⟨binades, split⟩ : 2 ^ k ∣ 2 ^ 52 := Nat.pow_dvd_pow 2 few
  have cleared : rank - rank % 2 ^ k =
      (exponent rank + 1074).toNat * 2 ^ 52 + mantissa rank / 2 ^ k * 2 ^ k := by
    have same : rank % 2 ^ k = mantissa rank % 2 ^ k := by
      conv_lhs => rw [← whole, split, Nat.mul_left_comm, Nat.mul_add_mod]
    have parts := Nat.div_add_mod' (mantissa rank) (2 ^ k)
    omega
  have stays : 2 ^ 52 ≤ mantissa rank / 2 ^ k * 2 ^ k := by
    rw [split, Nat.mul_comm] at leading ⊢
    exact Nat.mul_le_mul_right _ ((Nat.le_div_iff_mul_le (Nat.two_pow_pos k)).2 leading)
  have less := Nat.div_mul_le_self (mantissa rank) (2 ^ k)
  rw [cleared]
  exact mantissa_exponent_eq least stays (by omega)

theorem number_truncRank (rank : Nat) : number (truncRank rank) = ⌊number rank⌋₊ := by
  obtain ⟨-, below, least, leading⟩ := mantissa_exponent_bounds rank
  rw [truncRank, Nat.pow_eq]
  split
  · next few =>
    obtain ⟨k, same, natural⟩ | ⟨k, fraction, same, floor⟩ := number_cases rank
    · -- no bit stands behind the point
      have none : (-exponent rank).toNat = 0 := by omega
      rw [none, pow_zero, Nat.mod_one, Nat.sub_zero, natural, Nat.floor_natCast]
    · have behind : (-exponent rank).toNat = k := by omega
      rw [behind] at few ⊢
      obtain ⟨bits, place⟩ := mantissa_exponent_clear (leading.resolve_left (by omega)) few
      rw [floor, number, bits, place, same, Nat.cast_mul, Nat.cast_pow, Nat.cast_ofNat, mul_assoc,
        ← zpow_natCast, ← zpow_add₀ two_ne_zero, add_neg_cancel, zpow_zero, mul_one]
  · next many =>
    -- the magnitude is less than one
    have small : number rank < 1 :=
      calc number rank < 2 ^ 53 * 2 ^ exponent rank :=
            mul_lt_mul_of_pos_right (by exact_mod_cast below) (by positivity)
        _ = 2 ^ (53 + exponent rank) := by rw [zpow_add₀ two_ne_zero]; rfl
        _ ≤ 2 ^ (0 : Int) := zpow_le_zpow_right₀ one_le_two (by omega)
        _ = 1 := zpow_zero 2
    rw [Nat.floor_eq_zero.2 small, number_zero, Nat.cast_zero]

theorem truncRank_le (rank : Nat) : truncRank rank ≤ rank := by
  rw [truncRank]
  split
  · exact Nat.sub_le _ _
  · exact Nat.zero_le _

/-! ## Doubles -/

/-- The whole number next to a number on the side of zero. -/
def towardZero (q : ℚ) : ℤ :=
  if q < 0 then ⌈q⌉ else ⌊q⌋

theorem towardZero_number (rank : Nat) : towardZero (number rank) = ⌊number rank⌋₊ := by
  rw [towardZero, if_neg (not_lt.2 (number_nonneg rank)),
    Int.natCast_floor_eq_floor (number_nonneg rank)]

theorem towardZero_neg (q : ℚ) : towardZero (-q) = -towardZero q := by
  obtain negative | rfl | positive := lt_trichotomy q 0
  · rw [towardZero, towardZero, if_neg (by linarith), if_pos negative, Int.floor_neg]
  · rfl
  · rw [towardZero, towardZero, if_pos (by linarith), if_neg (by linarith), Int.ceil_neg]

theorem towardZero_intCast (n : ℤ) : towardZero n = n := by
  rw [towardZero, Int.ceil_intCast, Int.floor_intCast, ite_self]

theorem trunc_fields {x : Float} (finite : isFinite x) :
    isFinite (trunc x) ∧ isNegative (trunc x) = isNegative x ∧
      rank (trunc x) = truncRank (rank x) := by
  have below := (truncRank_le (rank x)).trans_lt (isFinite_iff.1 finite)
  rw [trunc, if_pos finite, isFinite_iff, rank_ofRank _ below, isNegative_ofRank _ below]
  exact ⟨below, rfl, rfl⟩

theorem value_trunc {x : Float} (finite : isFinite x) : value (trunc x) = towardZero (value x) := by
  obtain ⟨-, sign_eq, rank_eq⟩ := trunc_fields finite
  have whole : number (truncRank (rank x)) = towardZero (number (rank x)) := by
    rw [number_truncRank, towardZero_number, Int.cast_natCast]
  rw [value, value, sign_eq, rank_eq]
  split
  · rw [whole, towardZero_neg, Int.cast_neg]
  · exact whole

example : trunc (-2.9) = -2 := by decide +kernel

/-! ## The cast to an integer -/

theorem mantissa_shiftRight (extended : ExtendedMantissa) (k : Nat) :
    (extended >>> k).mantissa = extended.mantissa / 2 ^ k := by
  show (k.repeat ExtendedMantissa.shiftRightOne extended).mantissa = _
  induction k with
  | zero => rw [Nat.repeat, pow_zero, Nat.div_one]
  | succ k ih =>
    rw [Nat.repeat, ExtendedMantissa.shiftRightOne, ih, Nat.div_div_eq_div_mul, ← pow_succ]

theorem roundToInt_eq (sign : Sign) (rank : Nat) :
    roundToInt sign (mantissa rank) (exponent rank) = sign.apply ⌊number rank⌋₊ := by
  simp only [roundToInt, decreaseExponent, shiftToExponent, mantissa_shiftRight, Nat.shiftLeft_eq,
    ExtendedMantissa.ofMantissaAndAccuracy]
  congr 2
  obtain ⟨k, same, natural⟩ | ⟨k, fraction, same, floor⟩ := number_cases rank
  · rw [natural, Nat.floor_natCast, same]
    simp
  · rw [floor, same]
    simp

theorem toInt_unpack {x : Float} (finite : isFinite x) (least greatest : Int) :
    x.toModel.unpack.toInt least greatest = towardZero (value x) := by
  cases unpack_cases finite with
  | inl zero =>
    rw [zero.2, value_of_rank_eq_zero zero.1]
    rfl
  | inr other =>
    obtain ⟨some_bit, unpacked⟩ := other
    rw [unpacked, UnpackedFloat.toInt, roundToInt_eq]
    obtain ⟨negative, valued⟩ | ⟨positive, valued⟩ := sign_value_cases x
    · rw [negative, valued, towardZero_neg, towardZero_number]
      rfl
    · rw [positive, valued, towardZero_number]
      rfl

/-- A whole number in the range of the integers of 64 bits is cast to itself. -/
theorem toInt_toInt64 {x : Float} {n : ℤ} (finite : isFinite x) (whole : value x = n)
    (lower : -2 ^ 63 ≤ n) (upper : n < 2 ^ 63) : x.toModel.toInt64.toInt = n := by
  rw [Float.Model.toInt64, UnpackedFloat.toInt64, toInt_unpack finite, whole, towardZero_intCast]
  exact Int64.toInt_ofIntClamp lower (Int.le_sub_one_of_lt upper)

end StackCalculator.Binary64
