import StackCalculator.Proofs.Infix.Text
import StackCalculator.Proofs.StackMachine

/-! # Kinds of operands

A description looks at the text of a right operand alone to tell whether it needs parentheses. If
the numbers are finite and the variables have names as scripts spell them, then the text tells what
the operand is: the text of a number is a number (`isNumeric_write`) and no name is one
(`isNumeric_of_isName`), not even those that spell an infinity. So the description is the one that
looks at the kinds of operands (`describe_eq_labelled`).
-/

namespace StackCalculator

open Literal (Denotes)

/-! ## Numbers -/

theorem denotes_toDigits (n : Nat) : Denotes (Nat.toDigits 10 n) ⟨n, 0⟩ := by
  have denotes := Denotes.literal (.whole (digits_toDigits n)) .absent
  rwa [List.append_nil, Numeral.ofDigits_toDigits] at denotes

theorem rank_ofNat_lt {n : Nat} (small : n ≤ 2 ^ 63) :
    Decimal.rank ⟨n, 0⟩ < Binary64.infinityRank := by
  rw [Decimal.rank_lt_infinityRank_iff, Decimal.value, zpow_zero, mul_one]
  calc (n : ℚ) ≤ 2 ^ 63 := by exact_mod_cast small
    _ < 2 ^ 1024 - 2 ^ 970 := by
      rw [lt_sub_iff_add_lt]
      exact_mod_cast (by decide +kernel : 2 ^ 63 + 2 ^ 970 < 2 ^ 1024)

theorem isSome_readFinite?_ofInt {n : Int} (small : n.natAbs ≤ 2 ^ 63) :
    (readFinite? (Layout.ofInt n)).isSome := by
  have finite := rank_ofNat_lt small
  rw [Layout.ofInt]
  split
  · rw [readFinite?_negated (denotes_toDigits _), if_pos finite]
    rfl
  · rw [readFinite?_of_denotes (denotes_toDigits _), if_pos finite]
    rfl

theorem natAbs_le_of_wholePart? {x : Float} {n : Int} (whole : wholePart? x = some n) :
    n.natAbs ≤ 2 ^ 63 := by
  simp only [wholePart?, Option.ite_none_right_eq_some, Option.ite_none_left_eq_some,
    Option.some.injEq] at whole
  obtain ⟨-, -, rfl⟩ := whole
  have lower := (Binary64.trunc x).toModel.toInt64.le_toInt
  have upper := (Binary64.trunc x).toModel.toInt64.toInt_lt
  omega

/-- The text of a finite number is a number, also when it is cut to its whole part. -/
theorem isNumeric_write (style : OperandStyle) {x : Float} (finite : Binary64.isFinite x) :
    isNumeric (style.write x) := by
  have inFull : (readFinite? (Layout.plain.chars x)).isSome := by
    rw [readFinite?_chars finite]
    rfl
  rw [isNumeric, OperandStyle.write, String.toList_ofList]
  cases style with
  | exact => exact inFull
  | truncated =>
    rw [OperandStyle.chars]
    split
    · next whole => exact isSome_readFinite?_ofInt (natAbs_le_of_wholePart? whole)
    · exact inFull

/-! ## Names -/

theorem Numeral.bind_word?_finite? (negative : Bool) (cs : List Char) :
    (word? negative cs).bind finite? = none := by
  rw [word?]
  split
  · rfl
  · split <;> rfl

theorem isNumeric_of_isName {name : String} (spelled : Script.isName name.toList) :
    isNumeric name = false := by
  obtain ⟨c, rest, same, start, -⟩ := Script.exists_of_isName spelled
  rw [isNumeric, same, readFinite?, Numeral.ofChars?, Numeral.splitSign_of_isNameStart start]
  simp only [Numeral.decimal?_of_isNameStart start, Numeral.bind_word?_finite?]
  rfl

theorem contains_paren_of_isName {name : String} (spelled : Script.isName name.toList) :
    name.toList.contains '(' = false := by
  obtain ⟨c, rest, same, start, parts⟩ := Script.exists_of_isName spelled
  have noPart : Script.isNamePart '(' = false := by decide +kernel
  rw [same, Bool.eq_false_iff, Ne, List.contains_iff_mem, List.mem_cons, not_or]
  refine ⟨(Script.ne_of_isNameStart start (by decide)).symm, fun found => ?_⟩
  rw [parts _ found] at noPart
  cases noPart

theorem rightOperand_of_isNumeric {text : String} (numeric : isNumeric text) :
    Description.rightOperand text = text := by
  rw [Description.rightOperand, Description.isBare, numeric, Bool.or_true, if_pos rfl]

theorem rightOperand_of_isName {name : String} (spelled : Script.isName name.toList) :
    Description.rightOperand name = "(" ++ name ++ ")" := by
  rw [Description.rightOperand, Description.isBare, contains_paren_of_isName spelled,
    isNumeric_of_isName spelled]
  rfl

example : ["inf", "INF", "Infinity", "nan", "NaN"].map Description.rightOperand =
    ["(inf)", "(INF)", "(Infinity)", "(nan)", "(NaN)"] := by
  decide

/-! ## Descriptions by kind -/

/-- What an operand is: a number, a variable, or made by an operator or missing. -/
inductive Kind where
  | number
  | reference
  | compound

/-- The text of an operand, together with its kind. -/
structure Labelled where
  kind : Kind
  text : String

/-- An operand on the right, in parentheses if its kind says so. -/
def Labelled.onTheRight (operand : Labelled) : String :=
  match operand.kind with
  | .number => operand.text
  | .reference => "(" ++ operand.text ++ ")"
  | .compound => Description.rightOperand operand.text

def Meaning.labelled (style : OperandStyle) : Meaning Labelled where
  operand value := ⟨.number, style.write value⟩
  reference name := ⟨.reference, name⟩
  unary op operand := ⟨.compound, op.symbol ++ "(" ++ operand.text ++ ")"⟩
  binary op first second :=
    ⟨.compound, Description.leftOperand second.text ++ op.symbol ++ first.onTheRight⟩
  missing := ⟨.compound, ""⟩

/-- Numbers are finite and have no sign, and variables have names as scripts spell them. -/
def Token.Readable : Token → Prop
  | operand value => Binary64.isFinite value ∧ Binary64.isNegative value = false
  | reference name => Script.isName name.toList
  | operator _ => True

/-- A labelled operand is the text, and stands on the right as the text does. -/
structure Agrees (entry : Labelled × String) : Prop where
  text : entry.1.text = entry.2
  onTheRight : entry.1.onTheRight = Description.rightOperand entry.2

namespace Agrees

variable (style : OperandStyle)

theorem compound (text : String) : Agrees (⟨.compound, text⟩, text) :=
  ⟨rfl, rfl⟩

theorem operand {value : Float} (readable : (Token.operand value).Readable) :
    Agrees (((Meaning.labelled style).both (.description style)).operand value) :=
  ⟨rfl, (rightOperand_of_isNumeric (isNumeric_write style readable.1)).symm⟩

theorem reference {name : String} (readable : (Token.reference name).Readable) :
    Agrees (((Meaning.labelled style).both (.description style)).reference name) :=
  ⟨rfl, (rightOperand_of_isName readable).symm⟩

theorem unary (op : UnaryOperator) {operand : Labelled × String} (agrees : Agrees operand) :
    Agrees (((Meaning.labelled style).both (.description style)).unary op operand) := by
  obtain ⟨⟨kind, text⟩, shown⟩ := operand
  cases agrees.text
  exact compound _

theorem binary (op : BinaryOperator) {first second : Labelled × String} (agreesFirst : Agrees first)
    (agreesSecond : Agrees second) :
    Agrees (((Meaning.labelled style).both (.description style)).binary op first second) := by
  have same : ((Meaning.labelled style).binary op first.1 second.1).text =
      (Meaning.description style).binary op first.2 second.2 := by
    simp only [Meaning.labelled, Meaning.description, agreesFirst.onTheRight, agreesSecond.text]
  exact ⟨same, congrArg Description.rightOperand same⟩

end Agrees

theorem map_text_run_labelled (style : OperandStyle) {tokens : List Token}
    (readable : ∀ token ∈ tokens, token.Readable) :
    ((Meaning.labelled style).run tokens).map Labelled.text =
      (Meaning.description style).run tokens := by
  have agree : ∀ entry ∈ ((Meaning.labelled style).both (.description style)).run tokens,
      Agrees entry := by
    apply Meaning.run_forall
    · exact .compound ""
    · exact fun value found => .operand style (readable _ found)
    · exact fun name found => .reference style (readable _ found)
    · exact fun op _ _ inner => .unary style op inner
    · exact fun op _ _ _ first second => .binary style op first second
  rw [(Meaning.both_carries_fst (.labelled style) (.description style)).run_eq_map,
    (Meaning.both_carries_snd (.labelled style) (.description style)).run_eq_map, List.map_map]
  exact List.map_congr_left fun entry found => (agree entry found).text

theorem describe_eq_labelled {p : Program} (readable : ∀ token ∈ p.toList, token.Readable)
    (style : OperandStyle) :
    p.describe style =
      ", ".intercalate (((Meaning.labelled style).expressions p).map Labelled.text) := by
  rw [Program.describe, Meaning.expressions_eq_reverse_run, Meaning.expressions_eq_reverse_run,
    List.map_reverse, map_text_run_labelled style readable]

end StackCalculator
