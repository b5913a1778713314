import Mathlib
import StackCalculator.Proofs.Binary64.Bits
import StackCalculator.Proofs.Binary64.Rounding

/-! # The numbers that doubles are

A finite double is a rational number, its `value`. A greater rank is a greater number
(`number_strictMono`), and doubles are compared as the numbers they are (`lt_iff_value_lt`,
`le_iff_value_le`): exponent first, then mantissa, and both zeros alike.
-/

namespace StackCalculator.Binary64

open Float.Model Float.Model.UnpackedFloat

/-! ## Magnitudes -/

/-- The number that a finite magnitude is. -/
def number (rank : Nat) : ℚ :=
  mantissa rank * 2 ^ exponent rank

theorem number_zero : number 0 = 0 := by
  rw [number, show mantissa 0 = 0 from rfl, Nat.cast_zero, zero_mul]

/-- A rank counts the magnitudes below it, binade by binade. Only the magnitudes of the least
exponent can lack a leading bit. -/
theorem mantissa_exponent_bounds (rank : Nat) :
    (exponent rank + 1074).toNat * 2 ^ 52 + mantissa rank = rank ∧ mantissa rank < 2 ^ 53 ∧
      -1074 ≤ exponent rank ∧ (exponent rank = -1074 ∨ 2 ^ 52 ≤ mantissa rank) := by
  obtain ⟨same, below, least⟩ | ⟨leading, below, least, whole⟩ := mantissa_exponent_cases rank
  · rw [same, least]
    omega
  · exact ⟨whole, below, least, .inr leading⟩

theorem rank_lt_rank_iff {r s : Nat} :
    r < s ↔ exponent r < exponent s ∨ exponent r = exponent s ∧ mantissa r < mantissa s := by
  have first := mantissa_exponent_bounds r
  have second := mantissa_exponent_bounds s
  omega

theorem number_strictMono : StrictMono number := by
  intro r s less
  cases rank_lt_rank_iff.1 less with
  | inl lower =>
    obtain ⟨-, below, -, -⟩ := mantissa_exponent_bounds r
    obtain ⟨-, -, -, least | leading⟩ := mantissa_exponent_bounds s
    · have := mantissa_exponent_bounds r
      omega
    · -- the whole binade of `r` lies below that of `s`
      calc number r < 2 ^ 53 * 2 ^ exponent r :=
            mul_lt_mul_of_pos_right (by exact_mod_cast below) (by positivity)
        _ = 2 ^ 52 * 2 ^ (exponent r + 1) := by rw [zpow_add_one₀ two_ne_zero]; ring
        _ ≤ 2 ^ 52 * 2 ^ exponent s :=
            mul_le_mul_of_nonneg_left (zpow_le_zpow_right₀ one_le_two lower) (by positivity)
        _ ≤ number s := mul_le_mul_of_nonneg_right (by exact_mod_cast leading) (by positivity)
  | inr same =>
    obtain ⟨same, less⟩ := same
    rw [number, number, same]
    exact mul_lt_mul_of_pos_right (by exact_mod_cast less) (by positivity)

theorem number_nonneg (rank : Nat) : 0 ≤ number rank :=
  mul_nonneg (Nat.cast_nonneg _) (by positivity)

theorem compare_number (r s : Nat) : compare (number r) (number s) = compare r s := by
  rw [← cmp_eq_compare, number_strictMono.cmp_map_eq, cmp_eq_compare]

/-- Exponent first, then mantissa: this is the order of the ranks. -/
theorem compare_exponent_mantissa (r s : Nat) :
    (compare (exponent r) (exponent s)).then (compare (mantissa r) (mantissa s)) = compare r s := by
  obtain less | rfl | greater := Nat.lt_trichotomy r s
  · rw [compare_lt_iff_lt.2 less, Ordering.then_eq_lt, compare_lt_iff_lt, compare_eq_iff_eq,
      compare_lt_iff_lt]
    exact rank_lt_rank_iff.1 less
  · simp
  · rw [compare_gt_iff_gt.2 greater, Ordering.then_eq_gt, compare_gt_iff_gt, compare_eq_iff_eq,
      compare_gt_iff_gt, eq_comm]
    exact rank_lt_rank_iff.1 greater

/-! ## Doubles -/

/-- The number that a finite double is. -/
def value (x : Float) : ℚ :=
  if isNegative x then -number (rank x) else number (rank x)

def sign (x : Float) : Sign :=
  if isNegative x then .negative else .positive

/-- The three fields in the bits of a double. -/
theorem fields_toBits (x : Float) (finite : isFinite x) :
    let bits : BitVec Format.binary64.numBits := x.toModel.toBits.toBitVec
    (unpackExponent bits).toNat = rank x / 2 ^ 52 ∧ (unpackMantissa bits).toNat = rank x % 2 ^ 52 ∧
      Sign.ofBitVec (unpackSign bits) = sign x := by
  intro bits
  have below := isFinite_iff.1 finite
  rw [infinityRank, Nat.pow_eq] at below
  have whole : bits.toNat = if isNegative x then 2 ^ 63 + rank x else rank x := toNat_toBits_eq x
  refine ⟨?_, ?_, ?_⟩
  · rw [unpackExponent_def, BitVec.extractLsb'_toNat, Nat.shiftRight_eq_div_pow]
    show bits.toNat / 2 ^ 52 % 2 ^ 11 = _
    rw [whole]
    split <;> omega
  · rw [unpackMantissa_def, BitVec.extractLsb'_toNat, Nat.shiftRight_zero]
    show bits.toNat % 2 ^ 52 = _
    rw [whole]
    split <;> omega
  · have signBit : (unpackSign bits).toNat = if isNegative x then 1 else 0 := by
      rw [unpackSign_def, BitVec.extractLsb'_toNat, Nat.shiftRight_eq_div_pow]
      show bits.toNat / 2 ^ 63 % 2 ^ 1 = _
      rw [whole]
      split <;> omega
    have positive : unpackSign bits = 0#1 ↔ ¬isNegative x := by
      rw [← BitVec.toNat_inj, signBit, BitVec.toNat_zero]
      simp
    simp only [Sign.ofBitVec, sign, positive]
    split <;> simp_all

theorem exists_finite_eq (sign : Sign) {m n : Nat} {e f : Int} (positive : 0 < m)
    (mantissas : m = n) (exponents : e = f) :
    ∃ positive', UnpackedFloat.finite sign m e positive = .finite sign n f positive' := by
  subst mantissas exponents
  exact ⟨positive, rfl⟩

/-- A finite double is taken apart into its sign, its mantissa and its exponent. -/
theorem unpack_cases {x : Float} (finite : isFinite x) :
    (rank x = 0 ∧ x.toModel.unpack = .zero (sign x)) ∨
      ∃ positive, x.toModel.unpack =
        .finite (sign x) (mantissa (rank x)) (exponent (rank x)) positive := by
  obtain ⟨exponentField, mantissaField, signField⟩ := fields_toBits x finite
  have below := isFinite_iff.1 finite
  rw [infinityRank, Nat.pow_eq] at below
  have bias : ((Format.binary64.exponentBias : Int) + Format.binary64.mantissaBitsWithoutImplicit) =
    1075 := rfl
  have notOnes : @unpackExponent Format.binary64 x.toModel.toBits.toBitVec ≠ -1#11 := by
    intro same
    rw [same, show (-1#11).toNat = 2047 from rfl] at exponentField
    omega
  have noExponent : @unpackExponent Format.binary64 x.toModel.toBits.toBitVec = 0#11 ↔
      rank x < 2 ^ 52 := by
    rw [← BitVec.toNat_inj, exponentField, BitVec.toNat_zero]
    omega
  rw [Float.Model.unpack, UnpackedFloat.unpack.eq_1, if_neg notOnes, signField, mantissa, exponent,
    Nat.pow_eq]
  by_cases small : rank x < 2 ^ 52
  · rw [if_pos (noExponent.2 small), if_pos small, if_pos small]
    rw [Nat.mod_eq_of_lt small] at mantissaField
    split
    · next noMantissa =>
      rw [noMantissa, BitVec.toNat_zero] at mantissaField
      exact .inl ⟨mantissaField.symm, rfl⟩
    · next =>
      refine .inr (exists_finite_eq _ _ mantissaField ?_)
      omega
  · rw [if_neg (noExponent.not.2 small), if_neg small, if_neg small]
    refine .inr (exists_finite_eq _ _ ?_ ?_)
    · -- the leading bit stands in front of the others
      have leading := Nat.two_pow_add_eq_or_of_lt (Nat.mod_lt (rank x) (Nat.two_pow_pos 52)) 1
      rw [Nat.mul_one, Nat.add_comm] at leading
      rw [BitVec.toNat_append, mantissaField]
      exact leading.symm
    · omega

theorem compare_neg (a b : ℚ) : compare (-a) (-b) = compare b a := by
  have anti : StrictAnti fun q : ℚ => -q := fun _ _ less => neg_lt_neg less
  rw [← cmp_eq_compare, ← cmp_eq_compare]
  exact anti.cmp_map_eq a b

theorem value_of_rank_eq_zero {x : Float} (zero : rank x = 0) : value x = 0 := by
  rw [value, zero, number_zero, neg_zero, ite_self]

theorem number_pos {rank : Nat} (some_bit : 0 < mantissa rank) : 0 < number rank :=
  mul_pos (by exact_mod_cast some_bit) (by positivity)

theorem sign_value_cases (x : Float) :
    (sign x = .negative ∧ value x = -number (rank x)) ∨
      (sign x = .positive ∧ value x = number (rank x)) := by
  rw [sign, value]
  cases isNegative x with
  | true => exact .inl ⟨rfl, rfl⟩
  | false => exact .inr ⟨rfl, rfl⟩

theorem compare_unpack {x y : Float} (xFinite : isFinite x) (yFinite : isFinite y) :
    x.toModel.unpack.compare y.toModel.unpack = some (compare (value x) (value y)) := by
  cases unpack_cases xFinite with
  | inl xZero =>
    rw [xZero.2, value_of_rank_eq_zero xZero.1]
    cases unpack_cases yFinite with
    | inl yZero =>
      rw [yZero.2, value_of_rank_eq_zero yZero.1, compare_eq_iff_eq.2 rfl]
      rfl
    | inr yOther =>
      obtain ⟨some_bit, unpacked⟩ := yOther
      have above := number_pos some_bit
      obtain ⟨negative, valued⟩ | ⟨positive, valued⟩ := sign_value_cases y
      · rw [unpacked, negative, valued, compare_gt_iff_gt.2 (neg_lt_zero.2 above)]
        rfl
      · rw [unpacked, positive, valued, compare_lt_iff_lt.2 above]
        rfl
  | inr xOther =>
    obtain ⟨some_bit, unpacked⟩ := xOther
    have above := number_pos some_bit
    cases unpack_cases yFinite with
    | inl yZero =>
      rw [unpacked, yZero.2, value_of_rank_eq_zero yZero.1]
      obtain ⟨negative, valued⟩ | ⟨positive, valued⟩ := sign_value_cases x
      · rw [negative, valued, compare_lt_iff_lt.2 (neg_lt_zero.2 above)]
        rfl
      · rw [positive, valued, compare_gt_iff_gt.2 above]
        rfl
    | inr yOther =>
      obtain ⟨some_bit, unpackedOther⟩ := yOther
      have aboveOther := number_pos some_bit
      rw [unpacked, unpackedOther]
      obtain ⟨xNegative, xValued⟩ | ⟨xPositive, xValued⟩ := sign_value_cases x <;>
      obtain ⟨yNegative, yValued⟩ | ⟨yPositive, yValued⟩ := sign_value_cases y
      · rw [xNegative, yNegative, xValued, yValued, compare_neg, compare_number,
          Std.OrientedOrd.eq_swap, ← compare_exponent_mantissa]
        rfl
      · rw [xNegative, yPositive, xValued, yValued, compare_lt_iff_lt.2 (by linarith)]
        rfl
      · rw [xPositive, yNegative, xValued, yValued, compare_gt_iff_gt.2 (by linarith)]
        rfl
      · rw [xPositive, yPositive, xValued, yValued, compare_number, ← compare_exponent_mantissa]
        rfl

theorem lt_iff_value_lt {x y : Float} (xFinite : isFinite x) (yFinite : isFinite y) :
    x < y ↔ value x < value y := by
  show (decide (x.toModel.lt y.toModel) = true) ↔ _
  rw [decide_eq_true_eq, Float.Model.lt, UnpackedFloat.lt, compare_unpack xFinite yFinite,
    ← compare_lt_iff_lt]
  simp

theorem le_iff_value_le {x y : Float} (xFinite : isFinite x) (yFinite : isFinite y) :
    x ≤ y ↔ value x ≤ value y := by
  show (decide (x.toModel.le y.toModel) = true) ↔ _
  rw [decide_eq_true_eq, Float.Model.le, UnpackedFloat.le, compare_unpack xFinite yFinite,
    ← compare_le_iff_le]
  exact Ordering.isLE_iff_ne_gt

end StackCalculator.Binary64
