import StackCalculator.Decimal.Shortest
import StackCalculator.Proofs.Binary64.Overflow

/-! # The magnitude of a decimal

`rank_eq_nearest` says that the shortcuts for very large and very small decimals change nothing, so
that a decimal has the magnitude nearest to its exact value. Hence the digits of a decimal may be
counted in another unit (`rank_mul_ten_pow`), the shortest decimal of a magnitude reads back
(`rank_shortest`), and a decimal is too large for a double from half a step past the largest finite
one on (`rank_lt_infinityRank_iff`).
-/

namespace StackCalculator.Decimal

open Binary64 (infinityRank nearest)

/-! ## Exact values -/

theorem ratio_snd_pos (d : Decimal) : 0 < d.ratio.2 := by
  rw [ratio, Nat.pow_eq, Nat.pow_eq]
  split <;> positivity

theorem ratio_div (d : Decimal) : (d.ratio.1 / d.ratio.2 : ℚ) = d.significand * 10 ^ d.exponent := by
  rw [ratio]
  split
  next nonneg =>
    obtain ⟨k, exponent_eq⟩ := Int.eq_ofNat_of_zero_le nonneg
    simp [exponent_eq]
  next negative =>
    obtain ⟨k, exponent_eq⟩ : ∃ k : Nat, d.exponent = -k := ⟨(-d.exponent).toNat, by omega⟩
    simp [exponent_eq, div_eq_mul_inv]

theorem nearest_ratio_of_large {d : Decimal} (nonzero : d.significand ≠ 0)
    (large : 309 ≤ d.exponent) : nearest d.ratio.1 d.ratio.2 = infinityRank := by
  refine Binary64.nearest_of_le d.ratio_snd_pos ?_
  rw [ratio_div]
  have one_le : (1 : ℚ) ≤ d.significand := by exact_mod_cast Nat.pos_iff_ne_zero.2 nonzero
  calc (2 : ℚ) ^ (1024 : Int) ≤ 10 ^ (309 : Int) := by
        rw [zpow_ofNat, zpow_ofNat]
        exact_mod_cast (by decide +kernel : 2 ^ 1024 ≤ 10 ^ 309)
    _ ≤ 10 ^ d.exponent := zpow_le_zpow_right₀ (by norm_num) large
    _ ≤ d.significand * 10 ^ d.exponent := le_mul_of_one_le_left (by positivity) one_le

theorem nearest_ratio_of_small {d : Decimal}
    (small : d.significand.log2 + 1076 ≤ 3 * (-d.exponent).toNat) :
    nearest d.ratio.1 d.ratio.2 = 0 := by
  refine Binary64.nearest_of_lt d.ratio_snd_pos ?_
  rw [ratio_div]
  obtain ⟨k, exponent_eq⟩ : ∃ k : Nat, d.exponent = -k := ⟨(-d.exponent).toNat, by omega⟩
  rw [exponent_eq, neg_neg, Int.toNat_natCast] at small
  -- a tenth is less than an eighth
  have tenths : (10 : ℚ) ^ (-k : Int) ≤ 2 ^ (-(3 * k) : Int) := by
    rw [zpow_neg, zpow_neg, inv_le_inv₀ (by positivity) (by positivity), zpow_mul]
    exact_mod_cast Nat.pow_le_pow_left (by decide : 2 ^ 3 ≤ 10) k
  rw [exponent_eq]
  calc (d.significand : ℚ) * 10 ^ (-k : Int)
      ≤ d.significand * 2 ^ (-(3 * k) : Int) := mul_le_mul_of_nonneg_left tenths (by positivity)
    _ < 2 ^ (d.significand.log2 + 1 : Int) * 2 ^ (-(3 * k) : Int) :=
        mul_lt_mul_of_pos_right (Binary64.lt_two_zpow_log2 _) (by positivity)
    _ = 2 ^ (d.significand.log2 + 1 + -(3 * k) : Int) := (zpow_add₀ two_ne_zero _ _).symm
    _ ≤ 2 ^ (-1075 : Int) := zpow_le_zpow_right₀ one_le_two (by omega)

theorem rank_eq_nearest (d : Decimal) : d.rank = nearest d.ratio.1 d.ratio.2 := by
  rw [rank]
  split
  next zero =>
    have numerator : d.ratio.1 = 0 := by
      rw [ratio]
      split <;> simp [zero]
    rw [numerator]
    rfl
  next nonzero =>
    split
    next large => exact (nearest_ratio_of_large nonzero large).symm
    next =>
      split
      next small => exact (nearest_ratio_of_small small).symm
      next => rfl

/-! ## Other units -/

theorem rank_congr {d other : Decimal}
    (same : (d.significand * 10 ^ d.exponent : ℚ) = other.significand * 10 ^ other.exponent) :
    d.rank = other.rank := by
  rw [rank_eq_nearest, rank_eq_nearest]
  exact Binary64.nearest_congr d.ratio_snd_pos other.ratio_snd_pos
    (by rw [ratio_div, ratio_div, same])

/-- A decimal that is the exact value of a finite magnitude has this magnitude. -/
theorem rank_eq_of_value {d : Decimal} {magnitude : Nat} (finite : magnitude < infinityRank)
    (same : (d.significand * 10 ^ d.exponent : ℚ) =
      Binary64.mantissa magnitude * 2 ^ Binary64.exponent magnitude) :
    d.rank = magnitude := by
  rw [rank_eq_nearest, ← Binary64.nearest_ratio finite]
  exact Binary64.nearest_congr d.ratio_snd_pos (Binary64.ratio_snd_pos magnitude)
    (by rw [ratio_div, Binary64.ratio_div, same])

theorem rank_mul_ten_pow (significand k : Nat) (exponent : Int) :
    rank ⟨significand * 10 ^ k, exponent⟩ = rank ⟨significand, exponent + k⟩ := by
  refine rank_congr ?_
  rw [zpow_add₀ (by norm_num), zpow_natCast]
  push_cast
  ring

theorem rank_shortened (significand : Nat) (exponent : Int) :
    (shortened significand exponent).rank = rank ⟨significand, exponent⟩ := by
  fun_induction shortened significand exponent with
  | case1 significand exponent tens ih =>
    have whole : significand = significand / 10 * 10 ^ 1 := by omega
    rw [ih]
    conv_rhs => rw [whole]
    rw [rank_mul_ten_pow]
    rfl
  | case2 => rfl

/-! ## The shortest decimal -/

theorem rank_exact {magnitude : Nat} (finite : magnitude < infinityRank) :
    (exact magnitude).rank = magnitude := by
  refine rank_eq_of_value finite ?_
  rw [exact, Nat.pow_eq, Nat.pow_eq]
  split
  next nonneg =>
    obtain ⟨k, exponent_eq⟩ := Int.eq_ofNat_of_zero_le nonneg
    simp [exponent_eq]
  next negative =>
    obtain ⟨k, exponent_eq⟩ : ∃ k : Nat, Binary64.exponent magnitude = -k :=
      ⟨(-Binary64.exponent magnitude).toNat, by omega⟩
    rw [exponent_eq, neg_neg, Int.toNat_natCast, zpow_neg, zpow_neg, zpow_natCast, zpow_natCast,
      show (10 : ℚ) = 5 * 2 by norm_num, mul_pow]
    push_cast
    field_simp

theorem rank_of_neighbour {magnitude : Nat} {e : Int} {d : Decimal}
    (found : neighbour? magnitude e = some d) : d.rank = magnitude := by
  rw [neighbour?] at found
  dsimp only at found
  split at found
  next below =>
    split at found
    next above =>
      cases found
      exact above.1
    next =>
      cases found
      exact below
  next =>
    split at found
    next above =>
      cases found
      exact above
    next => cases found

theorem rank_shortest {magnitude : Nat} (finite : magnitude < infinityRank) :
    (shortest magnitude).rank = magnitude := by
  rw [shortest]
  dsimp only
  rw [rank_shortened]
  cases found : (List.range 17).findSome? fun n =>
      neighbour? magnitude (leadingPlace (Binary64.ratio magnitude).1
        (Binary64.ratio magnitude).2 - 1 - (n : Nat)) with
  | none => exact rank_exact finite
  | some d =>
    obtain ⟨n, -, near⟩ := List.exists_of_findSome?_eq_some found
    exact rank_of_neighbour near

/-! ## Overflow -/

/-- The number that a decimal is. -/
def value (d : Decimal) : ℚ :=
  d.significand * 10 ^ d.exponent

theorem rank_lt_infinityRank_iff (d : Decimal) :
    d.rank < infinityRank ↔ d.value < 2 ^ 1024 - 2 ^ 970 := by
  rw [rank_eq_nearest, Binary64.nearest_lt_infinityRank_iff d.ratio_snd_pos, ratio_div, value]

end StackCalculator.Decimal
