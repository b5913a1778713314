import Mathlib
import StackCalculator.Binary64.Nearest

/-! # Rounding to the nearest double

`nearest_congr` says that the magnitude nearest to a fraction depends on the value of the fraction
alone, and `nearest_ratio` that a magnitude is the nearest one to its own exact value. Fractions that
are too large for a double are nearest to infinity (`nearest_of_le`), and those below half of the
least magnitude to zero (`nearest_of_lt`).
-/

namespace StackCalculator.Binary64

/-! ## Units -/

theorem inUnits_snd_pos {num den : Nat} (positive : 0 < den) (e : Int) :
    0 < (inUnits num den e).2 := by
  rw [inUnits, Nat.pow_eq]
  split
  · positivity
  · exact positive

theorem inUnits_mul (num den k : Nat) (e : Int) :
    inUnits (num * k) (den * k) e = ((inUnits num den e).1 * k, (inUnits num den e).2 * k) := by
  rw [inUnits, inUnits]
  split <;> simp only [Nat.mul_right_comm]

/-- A fraction counted in units of `2 ^ e` is its value over `2 ^ e`. -/
theorem inUnits_div (num den : Nat) (e : Int) :
    ((inUnits num den e).1 : ℚ) / (inUnits num den e).2 = (num / den : ℚ) / 2 ^ e := by
  rw [inUnits, Nat.pow_eq, Nat.pow_eq]
  split
  next nonneg =>
    obtain ⟨k, rfl⟩ := Int.eq_ofNat_of_zero_le nonneg
    simp only [Int.toNat_natCast, zpow_natCast]
    push_cast
    rw [div_mul_eq_div_div]
  next negative =>
    obtain ⟨k, rfl⟩ : ∃ k : Nat, e = -k := ⟨(-e).toNat, by omega⟩
    simp only [neg_neg, Int.toNat_natCast, zpow_neg, zpow_natCast]
    push_cast
    field_simp

/-! ## The binade of a fraction -/

theorem two_zpow_log2_le {n : Nat} (positive : 0 < n) : (2 : ℚ) ^ (n.log2 : Int) ≤ n := by
  rw [zpow_natCast]
  exact_mod_cast Nat.log2_self_le (Nat.pos_iff_ne_zero.1 positive)

theorem lt_two_zpow_log2 (n : Nat) : (n : ℚ) < 2 ^ (n.log2 + 1 : Int) := by
  have below : n < 2 ^ (n.log2 + 1) := Nat.lt_log2_self
  have cast : (n : ℚ) < (2 : ℚ) ^ (n.log2 + 1) := by exact_mod_cast below
  exact_mod_cast cast

theorem binade_unique {q : ℚ} {e f : Int} (below : (2 : ℚ) ^ e ≤ q) (above : q < 2 ^ (e + 1))
    (belowOther : (2 : ℚ) ^ f ≤ q) (aboveOther : q < 2 ^ (f + 1)) : e = f := by
  have first := (zpow_lt_zpow_iff_right₀ (one_lt_two : (1 : ℚ) < 2)).1 (below.trans_lt aboveOther)
  have second := (zpow_lt_zpow_iff_right₀ (one_lt_two : (1 : ℚ) < 2)).1 (belowOther.trans_lt above)
  omega

theorem floorLog2_eq_ite (num den : Nat) :
    floorLog2 num den =
      let guess : Int := num.log2 - den.log2
      if (inUnits num den guess).1 < (inUnits num den guess).2 then guess - 1 else guess := rfl

theorem floorLog2_bounds {num den : Nat} (numPositive : 0 < num) (denPositive : 0 < den) :
    (2 : ℚ) ^ floorLog2 num den ≤ (num / den : ℚ) ∧
      (num / den : ℚ) < 2 ^ (floorLog2 num den + 1) := by
  have two : (2 : ℚ) ≠ 0 := two_ne_zero
  have den_pos : (0 : ℚ) < den := by exact_mod_cast denPositive
  -- the quotient lies within a factor of two of the guess, on either side
  have lower : (2 : ℚ) ^ ((num.log2 : Int) - den.log2 - 1) ≤ num / den := by
    rw [le_div_iff₀ den_pos]
    calc (2 : ℚ) ^ ((num.log2 : Int) - den.log2 - 1) * den
        ≤ 2 ^ ((num.log2 : Int) - den.log2 - 1) * 2 ^ (den.log2 + 1 : Int) :=
          mul_le_mul_of_nonneg_left (lt_two_zpow_log2 den).le (by positivity)
      _ = 2 ^ (num.log2 : Int) := by rw [← zpow_add₀ two]; congr 1; ring
      _ ≤ num := two_zpow_log2_le numPositive
  have upper : (num / den : ℚ) < 2 ^ ((num.log2 : Int) - den.log2 + 1) := by
    rw [div_lt_iff₀ den_pos]
    calc (num : ℚ) < 2 ^ (num.log2 + 1 : Int) := lt_two_zpow_log2 num
      _ = 2 ^ ((num.log2 : Int) - den.log2 + 1) * 2 ^ (den.log2 : Int) := by
          rw [← zpow_add₀ two]; congr 1; ring
      _ ≤ 2 ^ ((num.log2 : Int) - den.log2 + 1) * den :=
          mul_le_mul_of_nonneg_left (two_zpow_log2_le denPositive) (by positivity)
  rw [floorLog2_eq_ite]
  generalize (num.log2 : Int) - den.log2 = guess at lower upper
  have units := inUnits_div num den guess
  have units_pos : (0 : ℚ) < (inUnits num den guess).2 := by
    exact_mod_cast inUnits_snd_pos denPositive _
  have power_pos : (0 : ℚ) < 2 ^ guess := by positivity
  dsimp only
  split
  next less =>
    have quotient : ((inUnits num den guess).1 : ℚ) / (inUnits num den guess).2 < 1 := by
      rw [div_lt_one units_pos]
      exact_mod_cast less
    rw [units, div_lt_one power_pos] at quotient
    exact ⟨lower, by rwa [sub_add_cancel]⟩
  next notLess =>
    have quotient : 1 ≤ ((inUnits num den guess).1 : ℚ) / (inUnits num den guess).2 := by
      rw [one_le_div units_pos]
      exact_mod_cast Nat.not_lt.1 notLess
    rw [units, one_le_div power_pos] at quotient
    exact ⟨quotient, upper⟩

theorem floorLog2_eq {num den : Nat} (numPositive : 0 < num) (denPositive : 0 < den) {e : Int}
    (below : (2 : ℚ) ^ e ≤ (num / den : ℚ)) (above : (num / den : ℚ) < 2 ^ (e + 1)) :
    floorLog2 num den = e := by
  obtain ⟨lower, upper⟩ := floorLog2_bounds numPositive denPositive
  exact binade_unique lower upper below above

theorem floorLog2_mul {num den k : Nat} (numPositive : 0 < num) (denPositive : 0 < den)
    (kPositive : 0 < k) : floorLog2 (num * k) (den * k) = floorLog2 num den := by
  have k_ne : (k : ℚ) ≠ 0 := by exact_mod_cast Nat.pos_iff_ne_zero.1 kPositive
  have same : ((num * k : Nat) / (den * k : Nat) : ℚ) = num / den := by
    push_cast
    exact mul_div_mul_right _ _ k_ne
  obtain ⟨lower, upper⟩ := floorLog2_bounds numPositive denPositive
  exact floorLog2_eq (Nat.mul_pos numPositive kPositive) (Nat.mul_pos denPositive kPositive)
    (same ▸ lower) (same ▸ upper)

/-! ## Rounding a quotient -/

theorem roundHalfEven_mul {num den k : Nat} (positive : 0 < k) :
    roundHalfEven (num * k) (den * k) = roundHalfEven num den := by
  have less : 2 * (num % den * k) < den * k ↔ 2 * (num % den) < den := by
    rw [← Nat.mul_assoc]
    exact Nat.mul_lt_mul_right positive
  have equal : 2 * (num % den * k) = den * k ↔ 2 * (num % den) = den := by
    rw [← Nat.mul_assoc]
    exact Nat.mul_left_inj (Nat.pos_iff_ne_zero.1 positive)
  simp only [roundHalfEven, Nat.mul_div_mul_right _ _ positive, Nat.mul_mod_mul_right, less,
    beq_eq_decide, equal]

theorem roundHalfEven_one (n : Nat) : roundHalfEven n 1 = n := by
  simp [roundHalfEven, Nat.mod_one]

theorem div_le_roundHalfEven (num den : Nat) : num / den ≤ roundHalfEven num den := by
  rw [roundHalfEven]
  split <;> omega

/-! ## The nearest magnitude -/

theorem nearest_mul {num den k : Nat} (denPositive : 0 < den) (kPositive : 0 < k) :
    nearest (num * k) (den * k) = nearest num den := by
  by_cases zero : num = 0
  · rw [zero, Nat.zero_mul, nearest, nearest, if_pos rfl, if_pos rfl]
  · have numPositive := Nat.pos_iff_ne_zero.2 zero
    have nonzero : num * k ≠ 0 := Nat.pos_iff_ne_zero.1 (Nat.mul_pos numPositive kPositive)
    rw [nearest, nearest, if_neg zero, if_neg nonzero]
    simp only [unitExponent, floorLog2_mul numPositive denPositive kPositive, inUnits_mul,
      roundHalfEven_mul kPositive]

theorem nearest_congr {num den other otherDen : Nat} (denPositive : 0 < den)
    (otherPositive : 0 < otherDen) (same : (num / den : ℚ) = other / otherDen) :
    nearest num den = nearest other otherDen := by
  have den_ne : (den : ℚ) ≠ 0 := by exact_mod_cast Nat.pos_iff_ne_zero.1 denPositive
  have other_ne : (otherDen : ℚ) ≠ 0 := by exact_mod_cast Nat.pos_iff_ne_zero.1 otherPositive
  rw [div_eq_div_iff den_ne other_ne] at same
  have crossed : num * otherDen = other * den := by exact_mod_cast same
  rw [← nearest_mul denPositive otherPositive, crossed, Nat.mul_comm den,
    nearest_mul otherPositive denPositive]

/-! ## Magnitudes are their own nearest -/

theorem ratio_snd_pos (rank : Nat) : 0 < (ratio rank).2 := by
  rw [ratio, Nat.pow_eq, Nat.pow_eq]
  split <;> positivity

/-- A finite magnitude below the binades has the least exponent, and any other has a leading bit. -/
theorem mantissa_exponent_cases (rank : Nat) :
    (mantissa rank = rank ∧ rank < 2 ^ 52 ∧ exponent rank = -1074) ∨
      (2 ^ 52 ≤ mantissa rank ∧ mantissa rank < 2 ^ 53 ∧ -1074 ≤ exponent rank ∧
        (exponent rank + 1074).toNat * 2 ^ 52 + mantissa rank = rank) := by
  rw [mantissa, exponent, Nat.pow_eq]
  split
  next below => exact .inl ⟨rfl, below, rfl⟩
  next above => right; omega

theorem ratio_div (rank : Nat) :
    ((ratio rank).1 : ℚ) / (ratio rank).2 = mantissa rank * 2 ^ exponent rank := by
  rw [ratio]
  split
  next nonneg =>
    obtain ⟨k, exponent_eq⟩ := Int.eq_ofNat_of_zero_le nonneg
    simp [exponent_eq]
  next negative =>
    obtain ⟨k, exponent_eq⟩ : ∃ k : Nat, exponent rank = -k := ⟨(-exponent rank).toNat, by omega⟩
    simp [exponent_eq, div_eq_mul_inv]

theorem ratio_fst_pos {rank : Nat} (positive : 0 < rank) : 0 < (ratio rank).1 := by
  have mantissa_pos : 0 < mantissa rank := by
    obtain ⟨same, -, -⟩ | ⟨leading, -⟩ := mantissa_exponent_cases rank <;> omega
  rw [ratio]
  split
  · exact Nat.mul_pos mantissa_pos (Nat.pow_pos Nat.two_pos)
  · exact mantissa_pos

theorem inUnits_ratio (rank : Nat) :
    ∃ k, 0 < k ∧
      inUnits (ratio rank).1 (ratio rank).2 (exponent rank) = (mantissa rank * k, 1 * k) := by
  rw [ratio, inUnits]
  split
  · exact ⟨2 ^ (exponent rank).toNat, by positivity, rfl⟩
  · exact ⟨2 ^ (-exponent rank).toNat, by positivity, by rw [Nat.one_mul]; rfl⟩

theorem unitExponent_ratio {rank : Nat} (positive : 0 < rank) :
    unitExponent (ratio rank).1 (ratio rank).2 = exponent rank := by
  have den_pos := ratio_snd_pos rank
  have value := ratio_div rank
  have num_pos := ratio_fst_pos positive
  rw [unitExponent]
  obtain ⟨same, below, least⟩ | ⟨leading, below, least, -⟩ := mantissa_exponent_cases rank
  · -- the value lies below the least binade
    have lower := (floorLog2_bounds num_pos den_pos).1
    rw [value, same, least] at lower
    have small : (rank : ℚ) * 2 ^ (-1074 : Int) < 2 ^ (-1022 : Int) := by
      have cast : (rank : ℚ) < 2 ^ 52 := by exact_mod_cast below
      calc (rank : ℚ) * 2 ^ (-1074 : Int) < 2 ^ 52 * 2 ^ (-1074 : Int) :=
            mul_lt_mul_of_pos_right cast (by positivity)
        _ = 2 ^ (-1022 : Int) := by rw [← zpow_natCast, ← zpow_add₀ two_ne_zero]; norm_num
    have bound := (zpow_lt_zpow_iff_right₀ (one_lt_two : (1 : ℚ) < 2)).1 (lower.trans_lt small)
    omega
  · have binade : floorLog2 (ratio rank).1 (ratio rank).2 = 52 + exponent rank := by
      refine floorLog2_eq num_pos den_pos ?_ ?_
      · rw [value, zpow_add₀ two_ne_zero]
        refine mul_le_mul_of_nonneg_right ?_ (by positivity)
        exact_mod_cast leading
      · rw [value, show 52 + exponent rank + 1 = 53 + exponent rank by ring, zpow_add₀ two_ne_zero]
        refine mul_lt_mul_of_pos_right ?_ (by positivity)
        exact_mod_cast below
    omega

theorem nearest_ratio {rank : Nat} (finite : rank < infinityRank) :
    nearest (ratio rank).1 (ratio rank).2 = rank := by
  by_cases zero : rank = 0
  · subst zero
    rfl
  have positive := Nat.pos_iff_ne_zero.2 zero
  obtain ⟨k, k_pos, units⟩ := inUnits_ratio rank
  rw [nearest, if_neg (Nat.pos_iff_ne_zero.1 (ratio_fst_pos positive))]
  simp only [unitExponent_ratio positive, units, roundHalfEven_mul k_pos, roundHalfEven_one]
  rw [infinityRank, Nat.pow_eq] at finite ⊢
  obtain ⟨same, below, least⟩ | ⟨-, -, -, whole⟩ := mantissa_exponent_cases rank
  · rw [same, least]
    omega
  · rw [whole]
    omega

/-! ## Fractions without a finite nearest magnitude -/

theorem nearest_of_le {num den : Nat} (denPositive : 0 < den)
    (large : (2 : ℚ) ^ (1024 : Int) ≤ num / den) : nearest num den = infinityRank := by
  have num_pos : 0 < num := by
    obtain rfl | positive := Nat.eq_zero_or_pos num
    · rw [Nat.cast_zero, zero_div] at large
      exact absurd large (not_le.2 (by positivity))
    · exact positive
  have upper := (floorLog2_bounds num_pos denPositive).2
  have binade := (zpow_lt_zpow_iff_right₀ (one_lt_two : (1 : ℚ) < 2)).1 (large.trans_lt upper)
  have unit : unitExponent num den = floorLog2 num den - 52 := by
    rw [unitExponent]
    omega
  -- measured in its unit, the fraction has a leading bit
  have leading : 2 ^ 52 ≤
      (inUnits num den (unitExponent num den)).1 / (inUnits num den (unitExponent num den)).2 := by
    have units_pos : 0 < (inUnits num den (unitExponent num den)).2 :=
      inUnits_snd_pos denPositive _
    have quotient : (2 : ℚ) ^ 52 ≤ (inUnits num den (unitExponent num den)).1 /
        (inUnits num den (unitExponent num den)).2 := by
      rw [inUnits_div, unit, le_div_iff₀ (by positivity), ← zpow_natCast, ← zpow_add₀ two_ne_zero]
      have lower := (floorLog2_bounds num_pos denPositive).1
      rwa [show ((52 : Nat) : Int) + (floorLog2 num den - 52) = floorLog2 num den by omega]
    rw [le_div_iff₀ (by exact_mod_cast units_pos)] at quotient
    rw [Nat.le_div_iff_mul_le units_pos]
    exact_mod_cast quotient
  have rounded := leading.trans (div_le_roundHalfEven _ _)
  rw [nearest, if_neg (Nat.pos_iff_ne_zero.1 num_pos)]
  rw [infinityRank, Nat.pow_eq]
  dsimp only
  omega

theorem nearest_of_lt {num den : Nat} (denPositive : 0 < den)
    (small : (num / den : ℚ) < 2 ^ (-1075 : Int)) : nearest num den = 0 := by
  by_cases zero : num = 0
  · rw [nearest, if_pos zero]
  have num_pos := Nat.pos_iff_ne_zero.2 zero
  have lower := (floorLog2_bounds num_pos denPositive).1
  have binade := (zpow_lt_zpow_iff_right₀ (one_lt_two : (1 : ℚ) < 2)).1 (lower.trans_lt small)
  have unit : unitExponent num den = -1074 := by
    rw [unitExponent]
    omega
  have units_pos : 0 < (inUnits num den (-1074)).2 := inUnits_snd_pos denPositive _
  have half : 2 * (inUnits num den (-1074)).1 < (inUnits num den (-1074)).2 := by
    have quotient : ((inUnits num den (-1074)).1 : ℚ) / (inUnits num den (-1074)).2 < 1 / 2 := by
      rw [inUnits_div, div_lt_iff₀ (by positivity)]
      calc (num / den : ℚ) < 2 ^ (-1075 : Int) := small
        _ = 2 ^ (-1 + -1074 : Int) := rfl
        _ = 1 / 2 * 2 ^ (-1074 : Int) := by rw [zpow_add₀ two_ne_zero, zpow_neg_one, one_div]
    rw [div_lt_iff₀ (by exact_mod_cast units_pos)] at quotient
    have doubled : (2 : ℚ) * (inUnits num den (-1074)).1 < (inUnits num den (-1074)).2 := by
      linarith
    exact_mod_cast doubled
  rw [nearest, if_neg zero, unit]
  simp only [roundHalfEven]
  rw [Nat.div_eq_of_lt (by omega), Nat.mod_eq_of_lt (by omega), if_pos (by simp [half])]
  rfl

end StackCalculator.Binary64
