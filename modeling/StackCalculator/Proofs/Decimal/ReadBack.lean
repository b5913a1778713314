import StackCalculator.Decimal.Layout
import StackCalculator.Proofs.Decimal.Literal

/-! # Written doubles are read back

A finite double in the plain layout is an optional minus, digits, and possibly a point and more
digits (`unsigned_magnitude`); there is no power of ten. `readFinite?_chars` says that reading this
text gives the same double, the sign of a zero included. Of all the texts that are read as a double,
those of finite ones are told by `readFinite?_eq_some_iff`.
-/

namespace StackCalculator

/-- Digits, which a point and more digits may follow. -/
def Unsigned (cs : List Char) : Prop :=
  ∃ whole fraction : List Char, whole ≠ [] ∧ (∀ c ∈ whole, c.isDigit) ∧ (∀ c ∈ fraction, c.isDigit) ∧
    (cs = whole ∨ cs = whole ++ '.' :: fraction)

namespace Unsigned

theorem exists_cons {cs : List Char} (unsigned : Unsigned cs) :
    ∃ c rest, cs = c :: rest ∧ c.isDigit := by
  obtain ⟨whole, fraction, nonempty, digits, -, rfl | rfl⟩ := unsigned <;>
  · obtain ⟨c, rest, rfl⟩ := List.exists_cons_of_ne_nil nonempty
    exact ⟨c, _, rfl, digits c (by simp)⟩

theorem isDigit_or_point {cs : List Char} (unsigned : Unsigned cs) {c : Char} (member : c ∈ cs) :
    c.isDigit ∨ c = '.' := by
  obtain ⟨whole, fraction, -, digits, more, rfl | rfl⟩ := unsigned
  · exact .inl (digits c member)
  · obtain inWhole | inRest := List.mem_append.1 member
    · exact .inl (digits c inWhole)
    · obtain point | inFraction := List.mem_cons.1 inRest
      · exact .inr point
      · exact .inl (more c inFraction)

end Unsigned

namespace Numeral

/-! ## Reading digits -/

theorem decimal?_whole {whole : List Char} (nonempty : whole ≠ [])
    (digits : ∀ c ∈ whole, c.isDigit) : decimal? whole = some ⟨ofDigits whole, 0⟩ := by
  have denotes := Literal.Denotes.literal (.whole ⟨nonempty, digits⟩) .absent
  rw [List.append_nil] at denotes
  exact decimal?_of_denotes denotes

theorem decimal?_point {whole fraction : List Char} (nonempty : whole ≠ [])
    (digits : ∀ c ∈ whole, c.isDigit) (more : ∀ c ∈ fraction, c.isDigit) :
    decimal? (whole ++ '.' :: fraction) =
      some ⟨ofDigits (whole ++ fraction), -(fraction.length : Int)⟩ := by
  have denotes := Literal.Denotes.literal (.pointed ⟨nonempty, digits⟩ more) .absent
  rw [List.append_nil, Int.zero_sub] at denotes
  exact decimal?_of_denotes denotes

theorem ofDigits_toDigits (n : Nat) : ofDigits (Nat.toDigits 10 n) = n :=
  Nat.ofDigitChars_ten_toDigits

theorem ofDigits_replicate_append (k : Nat) (digits : List Char) :
    ofDigits (List.replicate k '0' ++ digits) = ofDigits digits := by
  rw [ofDigits, ofDigits, Nat.ofDigitChars_append, Nat.ofDigitChars_replicate_zero, Nat.mul_zero]

theorem ofDigits_append_replicate (digits : List Char) (k : Nat) :
    ofDigits (digits ++ List.replicate k '0') = ofDigits digits * 10 ^ k := by
  rw [ofDigits, ofDigits, Nat.ofDigitChars_append, Nat.ofDigitChars_replicate_zero, Nat.mul_comm]

end Numeral

namespace Layout

open Numeral (decimal? decimal?_whole decimal?_point)

/-! ## Digits around a point -/

theorem isDigit_replicate {k : Nat} {c : Char} (member : c ∈ List.replicate k '0') : c.isDigit := by
  rw [List.eq_of_mem_replicate member]
  rfl

/-- Where the point of a positional text stands, and which digits are added before or behind. -/
theorem plain_positional_cases (digits : List Char) (place : Int) :
    (place ≤ 0 ∧ plain.positional digits place =
        ['0'] ++ '.' :: (List.replicate (-place).toNat '0' ++ digits)) ∨
      (digits.length ≤ place ∧ plain.positional digits place =
        digits ++ List.replicate (place.toNat - digits.length) '0') ∨
      (0 < place ∧ place < digits.length ∧ plain.positional digits place =
        digits.take place.toNat ++ '.' :: digits.drop place.toNat) := by
  rw [positional]
  split
  next before => exact .inl ⟨before, by simp⟩
  next after =>
    dsimp only
    split
    next short => exact .inr (.inl ⟨by omega, by simp [plain]⟩)
    next long => exact .inr (.inr ⟨by omega, by omega, rfl⟩)

theorem unsigned_positional {digits : List Char} (nonempty : digits ≠ [])
    (all : ∀ c ∈ digits, c.isDigit) (place : Int) : Unsigned (plain.positional digits place) := by
  rcases plain_positional_cases digits place with
    ⟨-, text⟩ | ⟨-, text⟩ | ⟨inside, -, text⟩ <;> rw [text]
  · refine ⟨['0'], _, by simp, by simp, ?_, .inr rfl⟩
    intro c member
    exact (List.mem_append.1 member).elim isDigit_replicate (all c)
  · refine ⟨_, [], by simp [nonempty], ?_, by simp, .inl rfl⟩
    intro c member
    exact (List.mem_append.1 member).elim (all c) isDigit_replicate
  · refine ⟨_, _, ?_, fun c member => all c (List.mem_of_mem_take member),
      fun c member => all c (List.mem_of_mem_drop member), .inr rfl⟩
    simp [nonempty]
    omega

theorem decimal?_positional (significand : Nat) (exponent : Int) :
    ∃ d, decimal? (plain.positional (Nat.toDigits 10 significand)
          (exponent + (Nat.toDigits 10 significand).length)) = some d ∧
      d.rank = Decimal.rank ⟨significand, exponent⟩ := by
  obtain ⟨nonempty, all⟩ := digits_toDigits significand
  have value := Numeral.ofDigits_toDigits significand
  generalize Nat.toDigits 10 significand = digits at all value nonempty
  rcases plain_positional_cases digits (exponent + digits.length) with
    ⟨before, text⟩ | ⟨after, text⟩ | ⟨inside, within, text⟩ <;> rw [text]
  · refine ⟨_, decimal?_point (by simp) (by simp) ?_, ?_⟩
    · intro c member
      exact (List.mem_append.1 member).elim isDigit_replicate (all c)
    · have zero : ['0'] = List.replicate 1 '0' := rfl
      rw [zero, ← List.append_assoc, ← List.replicate_add, Numeral.ofDigits_replicate_append, value,
        List.length_append, List.length_replicate]
      congr 2
      omega
  · refine ⟨_, decimal?_whole (by simp [nonempty]) ?_, ?_⟩
    · intro c member
      exact (List.mem_append.1 member).elim (all c) isDigit_replicate
    · rw [Numeral.ofDigits_append_replicate, value, Decimal.rank_mul_ten_pow]
      congr 2
      omega
  · refine ⟨_, decimal?_point ?_ (fun c member => all c (List.mem_of_mem_take member))
      (fun c member => all c (List.mem_of_mem_drop member)), ?_⟩
    · simp [nonempty]
      omega
    · rw [List.take_append_drop, value, List.length_drop]
      congr 2
      omega

/-! ## Doubles -/

theorem plain_magnitude {magnitude : Nat} (positive : magnitude ≠ 0)
    (finite : magnitude < Binary64.infinityRank) :
    plain.magnitude magnitude =
      plain.positional (Nat.toDigits 10 (Decimal.shortest magnitude).significand)
        ((Decimal.shortest magnitude).exponent +
          (Nat.toDigits 10 (Decimal.shortest magnitude).significand).length) := by
  rw [Layout.magnitude, if_neg positive, if_neg (Nat.ne_of_lt finite)]
  rfl

theorem unsigned_magnitude {magnitude : Nat} (finite : magnitude < Binary64.infinityRank) :
    Unsigned (plain.magnitude magnitude) := by
  by_cases zero : magnitude = 0
  · subst zero
    exact ⟨['0'], [], by simp, by simp, by simp, .inl rfl⟩
  · have digits := digits_toDigits (Decimal.shortest magnitude).significand
    rw [plain_magnitude zero finite]
    exact unsigned_positional digits.nonempty digits.all _

theorem decimal?_magnitude {magnitude : Nat} (finite : magnitude < Binary64.infinityRank) :
    ∃ d, decimal? (plain.magnitude magnitude) = some d ∧ d.rank = magnitude := by
  by_cases zero : magnitude = 0
  · subst zero
    exact ⟨⟨0, 0⟩, rfl, rfl⟩
  · obtain ⟨d, read, rank_eq⟩ := decimal?_positional (Decimal.shortest magnitude).significand
      (Decimal.shortest magnitude).exponent
    exact ⟨d, by rw [plain_magnitude zero finite, read], by rw [rank_eq, Decimal.rank_shortest finite]⟩

theorem plain_chars_of_isFinite {x : Float} (finite : Binary64.isFinite x) :
    plain.chars x = if Binary64.isNegative x then '-' :: plain.magnitude (Binary64.rank x)
      else plain.magnitude (Binary64.rank x) := by
  have below := Binary64.isFinite_iff.1 finite
  rw [chars, if_neg (Nat.not_lt.2 (Nat.le_of_lt below))]

end Layout

theorem readFinite?_chars {x : Float} (finite : Binary64.isFinite x) :
    readFinite? (Layout.plain.chars x) = some x := by
  have below := Binary64.isFinite_iff.1 finite
  obtain ⟨d, read, rank_eq⟩ := Layout.decimal?_magnitude below
  have numeral : Numeral.ofChars? (Layout.plain.chars x) =
      some (.decimal (Binary64.isNegative x) d) := by
    rw [Layout.plain_chars_of_isFinite finite, Numeral.ofChars?]
    cases Binary64.isNegative x with
    | true => simp [Numeral.splitSign, read]
    | false =>
      obtain ⟨c, rest, text, digit⟩ := (Layout.unsigned_magnitude below).exists_cons
      rw [text] at read
      simp [text, Numeral.splitSign_of_isDigit digit, read]
  rw [readFinite?, numeral, Option.bind_some, Numeral.finite?, rank_eq, if_pos below,
    Binary64.ofRank_isNegative_rank]

example : Layout.plain.write (0.1 + 0.2) = "0.30000000000000004" := by decide +kernel

example : readFinite? (Layout.plain.chars (0.1 + 0.2)) = some (0.1 + 0.2) := by decide +kernel

/-! ## Finite numbers -/

theorem Binary64.not_isFinite_infinity (negative : Bool) :
    ¬Binary64.isFinite (Binary64.ofRank negative Binary64.infinityRank) := by
  cases negative <;> decide +kernel

theorem Decimal.rank_le (d : Decimal) : d.rank ≤ Binary64.infinityRank := by
  rw [d.rank_eq_nearest, Binary64.nearest]
  split
  · exact Nat.zero_le _
  · exact Nat.min_le_left _ _

theorem Numeral.finite?_eq_some_iff {n : Numeral} {x : Float} :
    n.finite? = some x ↔ n.toFloat = x ∧ Binary64.isFinite x := by
  cases n with
  | decimal negative d =>
    rw [finite?, toFloat]
    obtain finite | same := Nat.lt_or_eq_of_le d.rank_le
    · rw [if_pos finite, Option.some_inj, iff_self_and]
      rintro rfl
      rwa [Binary64.isFinite_iff, Binary64.rank_ofRank negative finite]
    · rw [same, if_neg (Nat.lt_irrefl _)]
      refine iff_of_false nofun ?_
      rintro ⟨rfl, finite⟩
      exact Binary64.not_isFinite_infinity negative finite
  | infinity negative =>
    refine iff_of_false nofun ?_
    rintro ⟨rfl, finite⟩
    exact Binary64.not_isFinite_infinity negative finite
  | nan =>
    refine iff_of_false nofun ?_
    rintro ⟨rfl, finite⟩
    revert finite
    decide +kernel

/-- A text is read as a finite number where it is read as a number that is finite. -/
theorem readFinite?_eq_some_iff {cs : List Char} {x : Float} :
    readFinite? cs = some x ↔ readFloat? (String.ofList cs) = some x ∧ Binary64.isFinite x := by
  rw [readFinite?, readFloat?, String.toList_ofList, Option.bind_eq_some_iff,
    Option.map_eq_some_iff, ← exists_and_right]
  simp only [Numeral.finite?_eq_some_iff, and_assoc]

end StackCalculator
