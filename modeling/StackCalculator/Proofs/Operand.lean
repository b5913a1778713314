import StackCalculator.Proofs.Binary64.Truncation
import StackCalculator.Proofs.Kinds

/-! # Operands as numbers

`wholePart?` compares doubles with the limits of the 64-bit integers, of which the greater is no
double and is rounded up. All the same it gives the whole part of a number exactly where this is such
an integer (`wholePart?_eq_ite`). The text of an operand, cut to its whole part or not, is read back
as the number that it stands for.
-/

namespace StackCalculator

open Binary64

/-! ## Whole parts -/

theorem number_limit : number (1086 * 2 ^ 52) = 2 ^ 63 := by
  have bits : mantissa (1086 * 2 ^ 52) = 2 ^ 52 := by decide
  have place : exponent (1086 * 2 ^ 52) = 11 := by decide
  rw [number, bits, place]
  norm_num

theorem least_limit : isFinite (Float.ofInt Int64.minValue.toInt) ∧
    value (Float.ofInt Int64.minValue.toInt) = -2 ^ 63 := by
  have rank_eq : rank (Float.ofInt Int64.minValue.toInt) = 1086 * 2 ^ 52 := by decide +kernel
  have negative : isNegative (Float.ofInt Int64.minValue.toInt) := by decide +kernel
  rw [isFinite_iff, value, if_pos negative, rank_eq, number_limit]
  exact ⟨by decide, rfl⟩

/-- The greatest integer of 64 bits is no double, and the nearest one is greater. -/
theorem greatest_limit : isFinite (Float.ofInt Int64.maxValue.toInt) ∧
    value (Float.ofInt Int64.maxValue.toInt) = 2 ^ 63 := by
  have rank_eq : rank (Float.ofInt Int64.maxValue.toInt) = 1086 * 2 ^ 52 := by decide +kernel
  have positive : isNegative (Float.ofInt Int64.maxValue.toInt) = false := by decide +kernel
  rw [isFinite_iff, value, positive, rank_eq, number_limit]
  exact ⟨by decide, rfl⟩

theorem wholePart?_of_not_isFinite {x : Float} (infinite : ¬isFinite x) : wholePart? x = none := by
  rw [wholePart?, if_neg infinite]

theorem wholePart?_eq_ite {x : Float} (finite : isFinite x) :
    wholePart? x = if -2 ^ 63 ≤ towardZero (value x) ∧ towardZero (value x) < 2 ^ 63 then
      some (towardZero (value x)) else none := by
  obtain ⟨truncFinite, -, -⟩ := trunc_fields finite
  have below : trunc x < Float.ofInt Int64.minValue.toInt ↔ towardZero (value x) < -2 ^ 63 := by
    rw [lt_iff_value_lt truncFinite least_limit.1, value_trunc finite, least_limit.2]
    exact_mod_cast Iff.rfl
  have above : Float.ofInt Int64.maxValue.toInt ≤ trunc x ↔ 2 ^ 63 ≤ towardZero (value x) := by
    rw [le_iff_value_le greatest_limit.1 truncFinite, value_trunc finite, greatest_limit.2]
    exact_mod_cast Iff.rfl
  rw [wholePart?, if_pos finite]
  simp only [below, above]
  by_cases range : -2 ^ 63 ≤ towardZero (value x) ∧ towardZero (value x) < 2 ^ 63
  · rw [if_neg (by omega), if_pos range,
      toInt_toInt64 truncFinite (value_trunc finite) range.1 range.2]
  · rw [if_pos (by omega), if_neg range]

/-- A whole part is found exactly where the number without its fraction is an integer of 64 bits, and
then it is this integer. What is cast to it is this integer already, as a double. The least of the
integers is compared as it is, the greatest as the next one. -/
theorem wholePart?_exact (x : Float) (n : Int) :
    (wholePart? x = some n ↔
      isFinite x ∧ towardZero (value x) = n ∧ -2 ^ 63 ≤ n ∧ n < 2 ^ 63) ∧
    (wholePart? x = some n → value (trunc x) = n ∧ (trunc x).toModel.toInt64.toInt = n) ∧
    value (Float.ofInt Int64.minValue.toInt) = Int64.minValue.toInt ∧
    value (Float.ofInt Int64.maxValue.toInt) = Int64.maxValue.toInt + 1 := by
  have found : wholePart? x = some n ↔
      isFinite x ∧ towardZero (value x) = n ∧ -2 ^ 63 ≤ n ∧ n < 2 ^ 63 := by
    by_cases finite : isFinite x
    · rw [wholePart?_eq_ite finite, Option.ite_none_right_eq_some, Option.some_inj]
      constructor
      · rintro ⟨range, rfl⟩
        exact ⟨finite, rfl, range⟩
      · rintro ⟨-, rfl, range⟩
        exact ⟨range, rfl⟩
    · rw [wholePart?_of_not_isFinite finite]
      exact iff_of_false nofun fun whole => finite whole.1
  refine ⟨found, fun whole => ?_, ?_, ?_⟩
  · obtain ⟨finite, same, lower, upper⟩ := found.1 whole
    have cut : value (trunc x) = n := by rw [value_trunc finite, same]
    exact ⟨cut, toInt_toInt64 (trunc_fields finite).1 cut lower upper⟩
  · rw [least_limit.2, show Int64.minValue.toInt = -2 ^ 63 from rfl]
    norm_num
  · rw [greatest_limit.2, show Int64.maxValue.toInt = 2 ^ 63 - 1 from rfl]
    norm_num

example : wholePart? (Float.ofInt (-2 ^ 63)) = some (-2 ^ 63) := by decide +kernel

example : wholePart? (Float.ofInt (2 ^ 63)) = none := by decide +kernel

/-! ## Texts -/

theorem natAbs_towardZero (x : Float) : (towardZero (value x)).natAbs = ⌊number (rank x)⌋₊ := by
  rw [value]
  split
  · rw [towardZero_neg, towardZero_number, Int.natAbs_neg, Int.natAbs_natCast]
  · rw [towardZero_number, Int.natAbs_natCast]

/-- The digits of a number without its fraction are those of a double, so they are read as exactly
this number. -/
theorem exists_readFinite?_ofInt {x : Float} (finite : isFinite x) :
    ∃ y, readFinite? (Layout.ofInt (towardZero (value x))) = some y ∧
      value y = towardZero (value x) := by
  have below := (truncRank_le (rank x)).trans_lt (isFinite_iff.1 finite)
  have digits : Decimal.rank ⟨(towardZero (value x)).natAbs, 0⟩ = truncRank (rank x) := by
    refine Decimal.rank_eq_of_value below ?_
    rw [zpow_zero, mul_one, natAbs_towardZero, ← number_truncRank]
    rfl
  have valued (negative : Bool) : value (ofRank negative (truncRank (rank x))) =
      ((if negative then -(towardZero (value x)).natAbs else (towardZero (value x)).natAbs : ℤ) : ℚ)
      := by
    rw [value, isNegative_ofRank negative below, rank_ofRank negative below, number_truncRank,
      natAbs_towardZero]
    cases negative <;> simp
  rw [Layout.ofInt]
  split
  · next negative =>
    rw [readFinite?_negated (denotes_toDigits _), digits, if_pos below]
    refine ⟨_, rfl, ?_⟩
    rw [valued, if_pos rfl, Int.ofNat_natAbs_of_nonpos (Int.le_of_lt negative), neg_neg]
  · next nonneg =>
    rw [readFinite?_of_denotes (denotes_toDigits _), digits, if_pos below]
    refine ⟨_, rfl, ?_⟩
    rw [valued, if_neg (by decide), Int.natAbs_of_nonneg (Int.not_lt.1 nonneg)]

/-- A number too large for an integer of 64 bits has no fraction. -/
theorem towardZero_of_large {x : Float} (large : 2 ^ 63 ≤ (towardZero (value x)).natAbs) :
    towardZero (value x) = value x := by
  rw [natAbs_towardZero] at large
  obtain ⟨k, -, natural⟩ | ⟨k, -, -, floor⟩ := number_cases (rank x)
  · obtain ⟨n, whole⟩ : ∃ n : ℤ, value x = n := by
      rw [value, natural]
      split
      · exact ⟨-(mantissa (rank x) * 2 ^ k : Nat), by push_cast; rfl⟩
      · exact ⟨(mantissa (rank x) * 2 ^ k : Nat), by push_cast; rfl⟩
    rw [whole, towardZero_intCast]
  · have bits := (mantissa_exponent_bounds (rank x)).2.1
    have quotient := Nat.div_le_self (mantissa (rank x)) (2 ^ k)
    omega

theorem readFinite?_of_not_isFinite {x : Float} (infinite : ¬isFinite x) :
    readFinite? (Layout.plain.chars x) = none := by
  rw [isFinite_iff, Nat.not_lt] at infinite
  obtain above | same := Nat.lt_or_eq_of_le infinite
  · rw [Layout.chars, if_pos above]
    rfl
  · have text : Layout.plain.magnitude infinityRank = ['i', 'n', 'f'] := by decide
    rw [Layout.chars, ← same, if_neg (Nat.lt_irrefl _), text]
    split <;> rfl

/-- However an operand is written, the text is a number where the operand is a finite one. Written in
full it is read back as the operand itself, and cut to its whole part as a number without the
fraction, also where it is too large to be cut. -/
theorem write_reads_back (x : Float) :
    (isFinite x → readFloat? (OperandStyle.exact.write x) = some x) ∧
    (isFinite x → ∃ y, readFloat? (OperandStyle.truncated.write x) = some y ∧ isFinite y ∧
      value y = towardZero (value x)) ∧
    ∀ style : OperandStyle, isNumeric (style.write x) ↔ isFinite x := by
  refine ⟨fun finite => ?_, fun finite => ?_, fun style => ⟨fun numeric => ?_, isNumeric_write style⟩⟩
  · exact (readFinite?_eq_some_iff.1 (readFinite?_chars finite)).1
  · rw [OperandStyle.write, OperandStyle.chars, wholePart?_eq_ite finite]
    by_cases range : -2 ^ 63 ≤ towardZero (value x) ∧ towardZero (value x) < 2 ^ 63
    · rw [if_pos range]
      obtain ⟨y, read, same⟩ := exists_readFinite?_ofInt finite
      obtain ⟨read, finite⟩ := readFinite?_eq_some_iff.1 read
      exact ⟨y, read, finite, same⟩
    · rw [if_neg range]
      obtain ⟨read, finite⟩ := readFinite?_eq_some_iff.1 (readFinite?_chars finite)
      exact ⟨x, read, finite, (towardZero_of_large (by omega)).symm⟩
  · by_contra infinite
    have text : style.chars x = Layout.plain.chars x := by
      cases style with
      | exact => rfl
      | truncated => rw [OperandStyle.chars, wholePart?_of_not_isFinite infinite]
    rw [isNumeric, OperandStyle.write, String.toList_ofList, text,
      readFinite?_of_not_isFinite infinite] at numeric
    cases numeric

end StackCalculator
