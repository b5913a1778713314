import StackCalculator.Machine
import StackCalculator.Proofs.Infix.Reading

/-! # Descriptions are read back

`describe_pieces_read_back` says what a reader of infix notation finds in the description of a program
that spells some expressions: the texts of these expressions, apart and in order, and in each text
the expression itself if and only if nothing in it is regrouped.
-/

namespace StackCalculator

theorem describe_eq_intercalate_text {m : Machine} {trees : List Expression}
    (inFull : m.style = .exact) (spelled : m.program.toList = trees.flatMap Expression.tokens) :
    m.describe = ", ".intercalate (trees.map Expression.text) := by
  rw [Machine.describe, Program.describe, Meaning.expressions_eq_reverse_run, spelled,
    Expression.run_flatMap_tokens, List.reverse_reverse, inFull]
  rfl

/-- The description in full of expressions one after another is cut at its commas into one text for
each, in order. A reader gives an expression back from its text exactly if no right operand in it is
a binary expression whose text shows a parenthesis. -/
theorem describe_pieces_read_back (m : Machine) {trees : List Expression} (nonempty : trees ≠ [])
    (formed : ∀ e ∈ trees, e.WellFormed) (inFull : m.style = .exact)
    (spelled : m.program.toList = trees.flatMap Expression.tokens) :
    List.Forall₂
      (fun piece e => piece = e.text.toList ∧ (Infix.read? piece = some e ↔ ¬e.Regroups))
      (Infix.pieces m.describe.toList) trees := by
  have cut : Infix.pieces m.describe.toList = trees.map fun e => e.text.toList := by
    rw [describe_eq_intercalate_text inFull spelled, String.toList_intercalate, List.map_map]
    refine Infix.pieces_intercalate (by simpa using nonempty) fun text member => ?_
    obtain ⟨e, among, rfl⟩ := List.mem_map.1 member
    exact Expression.comma_not_mem_text (formed e among)
  rw [cut, List.forall₂_map_left_iff, List.forall₂_same]
  intro e among
  refine ⟨rfl, ?_⟩
  rw [Expression.read?_text (formed e among), Option.some.injEq]
  exact Expression.readAs_eq_self_iff (formed e among)

/-- Of `x + 2` and `a − (b − (c − d))` in one program, a reader gives the first back. The second is
shown as `a−b−(c−d)`. -/
theorem describe_pieces_sum_and_differences :
    let plus : BinaryOperator := ⟨"+", fun first second => first + second⟩
    let minus : BinaryOperator := ⟨"−", fun first second => second - first⟩
    let sum : Expression := .binary plus (.reference "x") (.operand 2)
    let differences : Expression :=
      .binary minus (.reference "a")
        (.binary minus (.reference "b") (.binary minus (.reference "c") (.reference "d")))
    let m : Machine :=
      { program := Program.empty.pushAll (sum.tokens ++ differences.tokens), style := .exact }
    ∃ first second, Infix.pieces m.describe.toList = [first, second] ∧
      Infix.read? first = some sum ∧ Infix.read? second ≠ some differences := by
  intro plus minus sum differences m
  have plus_known : Operators.builtin.get? plus.symbol = some (.binary plus) := rfl
  have minus_known : Operators.builtin.get? minus.symbol = some (.binary minus) := rfl
  have named : ∀ name ∈ ["a", "b", "c", "d", "x"], Script.isName name.toList := by decide +kernel
  have formed : ∀ e ∈ [sum, differences], e.WellFormed := by
    intro e member
    obtain rfl | rfl : e = sum ∨ e = differences := by simpa using member
    · exact ⟨plus_known, named "x" (by simp), rfl⟩
    · exact ⟨minus_known, named "a" (by simp), minus_known, named "b" (by simp), minus_known,
        named "c" (by simp), named "d" (by simp)⟩
  have shown : '(' ∈ (Expression.binary minus (.reference "b")
      (.binary minus (.reference "c") (.reference "d"))).text.toList := by decide +kernel
  have kept : ¬sum.Regroups := by simp [sum, Expression.Regroups, Expression.isBinary]
  have regrouped : differences.Regroups := .inr (.inr ⟨rfl, shown⟩)
  have readBack := describe_pieces_read_back m (by simp) formed rfl (by simp [m])
  generalize Infix.pieces m.describe.toList = pieces at readBack ⊢
  obtain ⟨first, more, ⟨-, readFirst⟩, others, rfl⟩ := List.forall₂_cons_right_iff.1 readBack
  obtain ⟨second, more, ⟨-, readSecond⟩, last, rfl⟩ := List.forall₂_cons_right_iff.1 others
  obtain rfl := List.forall₂_nil_right_iff.1 last
  exact ⟨first, second, rfl, readFirst.2 kept, fun found => readSecond.1 found regrouped⟩

end StackCalculator
