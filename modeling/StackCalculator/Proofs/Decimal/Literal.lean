import StackCalculator.Operand
import StackCalculator.Proofs.Binary64.Bits
import StackCalculator.Proofs.Decimal.Magnitude
import StackCalculator.Proofs.Runs

/-! # Number literals

`Literal.Denotes` tells which texts are number literals, and which decimal each of them stands for:
digits with a point among or around them, and a power of ten. A literal is read as this decimal and
as nothing else (`ofChars?_of_denotes`). So it is an entry unless the decimal is too large for a
double, and its value is the double nearest to the decimal (`entryValue?_of_denotes`).
-/

namespace StackCalculator

/-- Some digits, and nothing else. -/
structure Digits (cs : List Char) : Prop where
  nonempty : cs ≠ []
  all : ∀ c ∈ cs, c.isDigit

theorem Digits.exists_cons {cs : List Char} (digits : Digits cs) :
    ∃ c rest, cs = c :: rest ∧ c.isDigit := by
  obtain ⟨c, rest, rfl⟩ := List.exists_cons_of_ne_nil digits.nonempty
  exact ⟨c, rest, rfl, digits.all c List.mem_cons_self⟩

theorem digits_toDigits (n : Nat) : Digits (Nat.toDigits 10 n) where
  nonempty := Nat.toDigits_ne_nil
  all _ := Nat.isDigit_of_mem_toDigits (by decide) (by decide)

namespace Literal

open Numeral (ofDigits)

/-- Digits and a point, with the digits in front of the point and those behind it. There is a digit
in front of the point, or one behind it. -/
inductive Mantissa : List Char → List Char → List Char → Prop where
  | whole {digits : List Char} (front : Digits digits) : Mantissa digits digits []
  | pointed {digits fraction : List Char} (front : Digits digits)
    (behind : ∀ c ∈ fraction, c.isDigit) : Mantissa (digits ++ '.' :: fraction) digits fraction
  | fraction {digits : List Char} (behind : Digits digits) : Mantissa ('.' :: digits) [] digits

/-- A power of ten: a mark, an optional sign, and digits; or nothing, which is the power zero. -/
inductive Power : List Char → Int → Prop where
  | absent : Power [] 0
  | unsigned {mark : Char} {digits : List Char} (marks : mark = 'e' ∨ mark = 'E')
    (number : Digits digits) : Power (mark :: digits) (ofDigits digits)
  | plus {mark : Char} {digits : List Char} (marks : mark = 'e' ∨ mark = 'E')
    (number : Digits digits) : Power (mark :: '+' :: digits) (ofDigits digits)
  | minus {mark : Char} {digits : List Char} (marks : mark = 'e' ∨ mark = 'E')
    (number : Digits digits) : Power (mark :: '-' :: digits) (-(ofDigits digits : Int))

/-- A number literal, and the decimal that it stands for exactly. -/
inductive Denotes : List Char → Decimal → Prop where
  | literal {mantissa whole fraction power : List Char} {n : Int}
    (digits : Mantissa mantissa whole fraction) (tens : Power power n) :
    Denotes (mantissa ++ power) ⟨ofDigits (whole ++ fraction), n - fraction.length⟩

/-! ## Characters -/

/-- The characters that literals are made of. -/
def IsPart (c : Char) : Prop :=
  c.isDigit ∨ c ∈ ['.', 'e', 'E', '+', '-']

theorem Mantissa.exists_cons {mantissa whole fraction : List Char}
    (digits : Mantissa mantissa whole fraction) :
    ∃ c rest, mantissa = c :: rest ∧ (c.isDigit ∨ c = '.') := by
  cases digits with
  | whole front =>
    obtain ⟨c, rest, same, digit⟩ := front.exists_cons
    exact ⟨c, rest, same, .inl digit⟩
  | pointed front behind =>
    obtain ⟨c, rest, rfl, digit⟩ := front.exists_cons
    exact ⟨c, _, rfl, .inl digit⟩
  | fraction behind => exact ⟨'.', _, rfl, .inr rfl⟩

theorem Power.head {power : List Char} {n : Int} (tens : Power power n) :
    ∀ c ∈ power.head?, c = 'e' ∨ c = 'E' := by
  rintro c first
  cases tens with
  | absent => cases first
  | unsigned marks | plus marks | minus marks =>
    cases first
    exact marks

theorem isPart_of_mem_mantissa {mantissa whole fraction : List Char}
    (digits : Mantissa mantissa whole fraction) : ∀ c ∈ mantissa, IsPart c := by
  have point : IsPart '.' := .inr (by decide)
  cases digits with
  | whole front => exact fun c found => .inl (front.all c found)
  | pointed front behind =>
    refine List.forall_mem_append.2 ⟨fun c found => .inl (front.all c found), ?_⟩
    exact List.forall_mem_cons.2 ⟨point, fun c found => .inl (behind c found)⟩
  | fraction behind =>
    exact List.forall_mem_cons.2 ⟨point, fun c found => .inl (behind.all c found)⟩

theorem isPart_of_mem_power {power : List Char} {n : Int} (tens : Power power n) :
    ∀ c ∈ power, IsPart c := by
  have mark {c : Char} (marks : c = 'e' ∨ c = 'E') : IsPart c := by
    obtain rfl | rfl := marks <;> exact .inr (by decide)
  have digits {cs : List Char} (number : Digits cs) : ∀ c ∈ cs, IsPart c :=
    fun c found => .inl (number.all c found)
  cases tens with
  | absent => exact List.forall_mem_nil _
  | unsigned marks number => exact List.forall_mem_cons.2 ⟨mark marks, digits number⟩
  | plus marks number | minus marks number =>
    refine List.forall_mem_cons.2 ⟨mark marks, List.forall_mem_cons.2 ⟨.inr ?_, digits number⟩⟩
    decide

theorem Denotes.isPart {cs : List Char} {d : Decimal} (denotes : Denotes cs d) :
    ∀ c ∈ cs, IsPart c := by
  obtain ⟨digits, tens⟩ := denotes
  exact List.forall_mem_append.2 ⟨isPart_of_mem_mantissa digits, isPart_of_mem_power tens⟩

theorem not_isBlank_of_isPart {c : Char} (part : IsPart c) : ¬Text.isBlank c := by
  obtain digit | mark := part
  · rw [Char.isDigit, Bool.and_eq_true, decide_eq_true_eq, decide_eq_true_eq] at digit
    have low : 48 ≤ c.toNat := digit.1
    have high : c.toNat ≤ 57 := digit.2
    simp only [Text.isBlank, Text.inRanges, Text.blankRanges, List.any_cons, List.any_nil,
      Bool.or_false, Bool.or_eq_true, Bool.and_eq_true, decide_eq_true_eq]
    omega
  · simp only [List.mem_cons, List.not_mem_nil, or_false] at mark
    obtain rfl | rfl | rfl | rfl | rfl := mark <;> decide

end Literal

/-! ## Reading -/

namespace Numeral

open Literal

theorem splitSign_of_isDigit {c : Char} (digit : c.isDigit) (rest : List Char) :
    splitSign (c :: rest) = (false, c :: rest) := by
  unfold splitSign
  split
  next same => cases same; cases digit
  next same => cases same; cases digit
  next => rfl

theorem ofDigits_lt {digits : List Char} (all : ∀ c ∈ digits, c.isDigit) :
    ofDigits digits < 10 ^ digits.length := by
  have bound (init : Nat) :
      Nat.ofDigitChars 10 digits init < 10 ^ digits.length * (init + 1) := by
    induction digits generalizing init with
    | nil => simp
    | cons c digits ih =>
      obtain ⟨digit, more⟩ := List.forall_mem_cons.1 all
      have small : c.toNat - '0'.toNat ≤ 9 := by
        rw [Char.isDigit, Bool.and_eq_true, decide_eq_true_eq, decide_eq_true_eq] at digit
        have high : c.toNat ≤ 57 := digit.2
        have zero : '0'.toNat = 48 := rfl
        omega
      rw [Nat.ofDigitChars_cons, List.length_cons, Nat.pow_succ, Nat.mul_assoc]
      refine Nat.lt_of_lt_of_le (ih more _) (Nat.mul_le_mul_left _ ?_)
      omega
  rw [ofDigits, ← Nat.mul_one (10 ^ digits.length)]
  exact bound 0

theorem signedWhole?_of_splitSign {cs digits : List Char} {negative : Bool}
    (split : splitSign cs = (negative, digits)) (number : Digits digits) :
    signedWhole? cs = some (if negative then -(ofDigits digits : Int) else ofDigits digits) := by
  have all : digits.all Char.isDigit := List.all_eq_true.2 number.all
  obtain ⟨c, rest, rfl, -⟩ := number.exists_cons
  rw [signedWhole?, split]
  exact if_pos all

theorem powerOfTen?_of_power {power : List Char} {n : Int} (tens : Power power n) :
    powerOfTen? power = some n := by
  cases tens with
  | absent => rfl
  | unsigned marks number =>
    obtain ⟨c, rest, rfl, digit⟩ := number.exists_cons
    rw [powerOfTen?, if_pos marks, signedWhole?_of_splitSign (splitSign_of_isDigit digit rest) number]
    rfl
  | plus marks number =>
    rw [powerOfTen?, if_pos marks]
    exact signedWhole?_of_splitSign rfl number
  | minus marks number =>
    rw [powerOfTen?, if_pos marks]
    exact signedWhole?_of_splitSign rfl number

theorem splitFraction_of_power {power : List Char} {n : Int} (tens : Power power n) :
    splitFraction power = ([], power) := by
  cases power with
  | nil => rfl
  | cons c rest =>
    obtain rfl | rfl := tens.head c rfl <;> rfl

theorem decimal?_append {whole behind fraction power : List Char} {n : Int}
    (digits : ∀ c ∈ whole, c.isDigit) (stop : ∀ c ∈ behind.head?, ¬c.isDigit)
    (split : splitFraction behind = (fraction, power)) (some_digit : whole ++ fraction ≠ [])
    (tens : Power power n) :
    decimal? (whole ++ behind) = some ⟨ofDigits (whole ++ fraction), n - fraction.length⟩ := by
  obtain ⟨taken, dropped⟩ := takeWhile_append_of_stop digits stop
  have some_digit : (whole.isEmpty && fraction.isEmpty) = false := by
    rw [Bool.and_eq_false_iff, List.isEmpty_eq_false_iff, List.isEmpty_eq_false_iff]
    rw [Ne, List.append_eq_nil_iff, not_and_or] at some_digit
    exact some_digit
  simp only [decimal?, taken, dropped, split, some_digit, Bool.false_eq_true, if_false,
    powerOfTen?_of_power tens, Option.map_some]

theorem decimal?_of_denotes {cs : List Char} {d : Decimal} (denotes : Denotes cs d) :
    decimal? cs = some d := by
  obtain @⟨mantissa, whole, fraction, power, n, digits, tens⟩ := denotes
  have stop : ∀ c ∈ power.head?, ¬c.isDigit := by
    intro c first
    obtain rfl | rfl := tens.head c first <;> decide
  have point (digits : List Char) : ∀ c ∈ ('.' :: digits).head?, ¬c.isDigit := by
    rintro c ⟨⟩
    decide
  have split {fraction : List Char} (behind : ∀ c ∈ fraction, c.isDigit) :
      splitFraction ('.' :: (fraction ++ power)) = (fraction, power) := by
    obtain ⟨taken, dropped⟩ := takeWhile_append_of_stop behind stop
    rw [splitFraction, taken, dropped]
  cases digits with
  | whole front =>
    refine decimal?_append front.all stop (splitFraction_of_power tens) ?_ tens
    simp [front.nonempty]
  | pointed front behind =>
    rw [List.append_assoc, List.cons_append]
    refine decimal?_append front.all (point _) (split behind) ?_ tens
    simp [front.nonempty]
  | fraction behind =>
    rw [List.cons_append]
    refine decimal?_append (List.forall_mem_nil _) (point _) (split behind.all) ?_ tens
    exact behind.nonempty

theorem ofChars?_of_denotes {cs : List Char} {d : Decimal} (denotes : Denotes cs d) :
    ofChars? cs = some (.decimal false d) := by
  have unsigned : splitSign cs = (false, cs) := by
    obtain ⟨digits, -⟩ := denotes
    obtain ⟨c, rest, rfl, digit | rfl⟩ := digits.exists_cons
    · exact splitSign_of_isDigit digit _
    · rfl
  rw [ofChars?, unsigned]
  simp only [decimal?_of_denotes denotes]

end Numeral

theorem Literal.Denotes.trim {cs : List Char} {d : Decimal} (denotes : Denotes cs d) :
    Text.trim cs = cs :=
  Text.trim_eq_self fun c found => not_isBlank_of_isPart (denotes.isPart c found)

theorem readFinite?_of_denotes {cs : List Char} {d : Decimal} (denotes : Literal.Denotes cs d) :
    readFinite? cs = if d.rank < Binary64.infinityRank then some (Binary64.ofRank false d.rank)
      else none := by
  rw [readFinite?, Numeral.ofChars?_of_denotes denotes]
  rfl

theorem readFinite?_negated {cs : List Char} {d : Decimal} (denotes : Literal.Denotes cs d) :
    readFinite? ('-' :: cs) = if d.rank < Binary64.infinityRank then
      some (Binary64.ofRank true d.rank) else none := by
  simp only [readFinite?, Numeral.ofChars?, Numeral.splitSign, Numeral.decimal?_of_denotes denotes]
  rfl

/-- The value of a literal is the double nearest to what it stands for, without a sign, unless that
is too large. -/
theorem entryValue?_of_denotes {literal : String} {d : Decimal}
    (denotes : Literal.Denotes literal.toList d) :
    entryValue? literal = if d.rank < Binary64.infinityRank then some (Binary64.ofRank false d.rank)
      else none := by
  rw [entryValue?, denotes.trim, readFinite?_of_denotes denotes]

end StackCalculator
