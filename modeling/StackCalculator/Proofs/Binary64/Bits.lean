import Mathlib
import StackCalculator.Binary64.Basic

/-! # Doubles and their bits

A double is determined by its sign and its magnitude (`ofRank_isNegative_rank`), and every finite
magnitude is that of a double of either sign (`rank_ofRank`, `isNegative_ofRank`).
-/

namespace StackCalculator.Binary64

open Float.Model Float.Model.UnpackedFloat

theorem toNat_toBits_eq (x : Float) :
    x.toBits.toNat = if isNegative x then signWeight + rank x else rank x := by
  have bound : x.toBits.toNat < 2 ^ 64 := x.toBits.toNat_lt
  by_cases negative : signWeight ≤ x.toBits.toNat
  · rw [isNegative, decide_eq_true negative, if_pos rfl, rank]
    rw [signWeight, Nat.pow_eq] at negative ⊢
    omega
  · rw [isNegative, decide_eq_false negative, rank]
    rw [signWeight, Nat.pow_eq] at negative ⊢
    simp only [Bool.false_eq_true, if_false]
    omega

theorem ofRank_isNegative_rank (x : Float) : ofRank (isNegative x) (rank x) = x := by
  rw [ofRank, ← toNat_toBits_eq, UInt64.ofNat_toNat, Float.ofBits_toBits]

theorem isFinite_iff {x : Float} : isFinite x ↔ rank x < infinityRank := by
  rw [isFinite, decide_eq_true_eq]

/-! ## Doubles with a given magnitude -/

theorem toBits_ofBits {bits : UInt64} (finite : bits.toNat / 2 ^ 52 % 2 ^ 11 < 2047) :
    (Float.ofBits bits).toBits = bits := by
  have number : ¬@isNaNBits Format.binary64 bits.toBitVec := by
    rw [isNaNBits, decide_eq_true_eq, not_and_or]
    left
    intro same
    have exponent := congrArg BitVec.toNat same
    rw [unpackExponent_def, BitVec.extractLsb'_toNat, Nat.shiftRight_eq_div_pow] at exponent
    exact Nat.ne_of_lt finite exponent
  have packed := @pack_unpack Format.binary64 bits.toBitVec (by decide)
  rw [if_neg number] at packed
  exact congrArg UInt64.ofBitVec packed

theorem toNat_toBits_ofRank (negative : Bool) {magnitude : Nat}
    (finite : magnitude < infinityRank) :
    (ofRank negative magnitude).toBits.toNat =
      if negative then signWeight + magnitude else magnitude := by
  rw [infinityRank, Nat.pow_eq] at finite
  have fits : (if negative then signWeight + magnitude else magnitude) < 2 ^ 64 := by
    rw [signWeight, Nat.pow_eq]
    split <;> omega
  have bits : (UInt64.ofNat (if negative then signWeight + magnitude else magnitude)).toNat =
      if negative then signWeight + magnitude else magnitude := by
    rw [UInt64.toNat_ofNat', Nat.mod_eq_of_lt fits]
  rw [ofRank, toBits_ofBits, bits]
  rw [bits, signWeight, Nat.pow_eq]
  split <;> omega

theorem rank_ofRank (negative : Bool) {magnitude : Nat} (finite : magnitude < infinityRank) :
    rank (ofRank negative magnitude) = magnitude := by
  rw [rank, toNat_toBits_ofRank negative finite]
  rw [infinityRank, Nat.pow_eq] at finite
  rw [signWeight, Nat.pow_eq]
  split <;> omega

theorem isNegative_ofRank (negative : Bool) {magnitude : Nat} (finite : magnitude < infinityRank) :
    isNegative (ofRank negative magnitude) = negative := by
  rw [isNegative, toNat_toBits_ofRank negative finite]
  rw [infinityRank, Nat.pow_eq] at finite
  rw [signWeight, Nat.pow_eq]
  cases negative with
  | true => simp
  | false =>
    rw [if_neg (by simp), decide_eq_false_iff_not]
    omega

end StackCalculator.Binary64
