import Mathlib
import StackCalculator.Proofs.Binary64.Rounding

/-! # Overflow

`nearest_lt_infinityRank_iff` gives the fractions whose nearest double is finite: those below
`2 ^ 1024 - 2 ^ 970`, which lies half a step past the largest finite double.
-/

namespace StackCalculator.Binary64

theorem roundHalfEven_le (num den : Nat) : roundHalfEven num den ≤ num / den + 1 := by
  rw [roundHalfEven]
  split <;> omega

/-- A fraction is rounded to at most an odd number if it is less than a half above it. -/
theorem roundHalfEven_le_iff_of_odd {num den bound : Nat} (positive : 0 < den)
    (odd : bound % 2 = 1) : roundHalfEven num den ≤ bound ↔ 2 * num < (2 * bound + 1) * den := by
  have whole := Nat.div_add_mod num den
  have part := Nat.mod_lt num positive
  have expand : (2 * bound + 1) * den = 2 * (den * bound) + den := by ring
  rw [expand]
  obtain below | same | above := Nat.lt_trichotomy (num / den) bound
  · have step : den * (num / den) + den ≤ den * bound := by
      rw [← Nat.mul_succ]
      exact Nat.mul_le_mul_left den below
    have rounded := roundHalfEven_le num den
    exact iff_of_true (by omega) (by omega)
  · rw [same] at whole
    rw [roundHalfEven, same]
    simp only [odd, Nat.reduceBEq, Bool.and_false, Bool.or_false, decide_eq_true_eq]
    split <;> omega
  · have step : den * bound + den ≤ den * (num / den) := by
      rw [← Nat.mul_succ]
      exact Nat.mul_le_mul_left den above
    have rounded := div_le_roundHalfEven num den
    exact iff_of_false (by omega) (by omega)

theorem nearest_lt_of_lt {num den : Nat} (denPositive : 0 < den)
    (small : (num / den : ℚ) < 2 ^ (1023 : Int)) : nearest num den < infinityRank := by
  by_cases zero : num = 0
  · rw [nearest, if_pos zero]
    decide
  obtain ⟨lower, upper⟩ := floorLog2_bounds (Nat.pos_iff_ne_zero.2 zero) denPositive
  have binade := (zpow_lt_zpow_iff_right₀ (one_lt_two : (1 : ℚ) < 2)).1 (lower.trans_lt small)
  have unit_le : unitExponent num den ≤ 970 := by
    rw [unitExponent]
    omega
  have unit_ge : floorLog2 num den + 1 ≤ 53 + unitExponent num den := by
    rw [unitExponent]
    omega
  -- measured in its unit, the fraction lies below the next binade
  have quotient : (inUnits num den (unitExponent num den)).1 /
      (inUnits num den (unitExponent num den)).2 < 2 ^ 53 := by
    have units_pos : 0 < (inUnits num den (unitExponent num den)).2 :=
      inUnits_snd_pos denPositive _
    have value : ((inUnits num den (unitExponent num den)).1 : ℚ) /
        (inUnits num den (unitExponent num den)).2 < 2 ^ 53 := by
      rw [inUnits_div, div_lt_iff₀ (by positivity), ← zpow_natCast, ← zpow_add₀ two_ne_zero]
      exact upper.trans_le (zpow_le_zpow_right₀ one_le_two unit_ge)
    rw [div_lt_iff₀ (by exact_mod_cast units_pos)] at value
    rw [Nat.div_lt_iff_lt_mul units_pos]
    exact_mod_cast value
  have rounded := roundHalfEven_le (inUnits num den (unitExponent num den)).1
    (inUnits num den (unitExponent num den)).2
  rw [nearest, if_neg zero, infinityRank, Nat.pow_eq]
  dsimp only
  omega

theorem nearest_lt_infinityRank_iff {num den : Nat} (denPositive : 0 < den) :
    nearest num den < infinityRank ↔ (num / den : ℚ) < 2 ^ 1024 - 2 ^ 970 := by
  have limit : (2 : ℚ) ^ 1024 - 2 ^ 970 = (2 ^ 54 - 1) / 2 * 2 ^ (971 : Int) := by
    rw [← zpow_ofNat 2 1024, ← zpow_ofNat 2 970, show (1024 : Int) = 53 + 971 from rfl,
      show (970 : Int) = -1 + 971 from rfl, zpow_add₀ two_ne_zero, zpow_add₀ two_ne_zero, ← sub_mul]
    congr 1
    norm_num
  have step_pos : (0 : ℚ) < 2 ^ (971 : Int) := by positivity
  by_cases small : (num / den : ℚ) < 2 ^ (1023 : Int)
  · refine iff_of_true (nearest_lt_of_lt denPositive small) (small.trans ?_)
    rw [limit, show (1023 : Int) = 52 + 971 from rfl, zpow_add₀ two_ne_zero]
    exact mul_lt_mul_of_pos_right (by norm_num) step_pos
  by_cases large : (2 : ℚ) ^ (1024 : Int) ≤ num / den
  · rw [nearest_of_le denPositive large]
    refine iff_of_false (Nat.lt_irrefl _) (not_lt.2 (le_trans ?_ large))
    rw [limit, show (1024 : Int) = 53 + 971 from rfl, zpow_add₀ two_ne_zero]
    exact mul_le_mul_of_nonneg_right (by norm_num) step_pos.le
  rw [not_lt] at small
  rw [not_le] at large
  have num_ne : num ≠ 0 := by
    rintro rfl
    rw [Nat.cast_zero, zero_div] at small
    exact absurd small (not_le.2 (by positivity))
  have binade : floorLog2 num den = 1023 :=
    floorLog2_eq (Nat.pos_iff_ne_zero.2 num_ne) denPositive small large
  have unit : unitExponent num den = 971 := by
    rw [unitExponent, binade]
    rfl
  have units_pos : 0 < (inUnits num den 971).2 := inUnits_snd_pos denPositive _
  have units_pos_rat : (0 : ℚ) < (inUnits num den 971).2 := by exact_mod_cast units_pos
  -- in the last binade, the magnitude is finite unless the mantissa runs over
  have rounded : nearest num den < infinityRank ↔
      roundHalfEven (inUnits num den 971).1 (inUnits num den 971).2 ≤ 2 ^ 53 - 1 := by
    rw [nearest, if_neg num_ne, unit, infinityRank, Nat.pow_eq]
    dsimp only
    omega
  rw [rounded, roundHalfEven_le_iff_of_odd units_pos (by decide), limit, ← div_lt_iff₀ step_pos,
    ← inUnits_div, div_lt_div_iff₀ units_pos_rat two_pos, mul_comm _ (2 : ℚ)]
  generalize inUnits num den 971 = units
  rw [← Nat.cast_lt (α := ℚ)]
  push_cast
  norm_num

end StackCalculator.Binary64
