import StackCalculator.Proofs.Infix.Reader
import StackCalculator.Proofs.Infix.Text

/-! # Grouping

`readAs` is what a reader makes of a described expression: it regroups a right operand that is a
binary expression and stands bare. `readAs_eq_self_iff` says that this changes an expression in which
it happens, however deep, and no other.

What tells the two apart is `rightWeight`, the size of all right operands together. Grouping from the
left takes operands out of right operands and puts none in.
-/

namespace StackCalculator

open Infix (Waiting)

namespace Infix.Waiting

@[simp] theorem join_none (e : Expression) : join none e = e := rfl

@[simp] theorem join_some (left : Expression) (op : BinaryOperator) (e : Expression) :
    join (some (left, op)) e = .binary op left e := rfl

end Infix.Waiting

namespace Expression

/-- Somewhere a right operand is a binary expression whose text shows a parenthesis. -/
def Regroups : Expression → Prop
  | operand _ => False
  | reference _ => False
  | unary _ inner => inner.Regroups
  | binary _ earlier later =>
    earlier.Regroups ∨ later.Regroups ∨ later.isBinary ∧ '(' ∈ later.text.toList

/-- What a reader makes of an expression for the operator that waits. -/
def readAs : Waiting → Expression → Expression
  | waiting, operand value => waiting.join (operand value)
  | waiting, reference name => waiting.join (reference name)
  | waiting, unary op inner => waiting.join (unary op (readAs none inner))
  | waiting, binary op earlier later =>
    if Description.isBare later.text then readAs (some (readAs waiting earlier, op)) later
    else .binary op (readAs waiting earlier) (readAs none later)

/-! ## What is not regrouped -/

theorem readAs_of_not_binary {e : Expression} (shape : ¬e.isBinary) (waiting : Waiting) :
    readAs waiting e = waiting.join (readAs none e) := by
  cases e with
  | operand value => rfl
  | reference name => rfl
  | unary op inner => rfl
  | binary op earlier later => exact absurd rfl shape

theorem readAs_eq_self {e : Expression} (formed : e.WellFormed) (grouped : ¬e.Regroups) :
    readAs none e = e := by
  induction e with
  | operand value => rfl
  | reference name => rfl
  | unary op inner ih => rw [readAs, Infix.Waiting.join_none, ih formed.2 grouped]
  | binary op earlier later ihEarlier ihLater =>
    rw [Regroups, not_or, not_or] at grouped
    obtain ⟨inEarlier, inLater, here⟩ := grouped
    rw [readAs, ihEarlier formed.2.1 inEarlier]
    split
    next bare =>
      have shape : ¬later.isBinary := fun shape =>
        here ⟨shape, (isBare_text_iff formed.2.2 shape).1 bare⟩
      rw [readAs_of_not_binary shape, ihLater formed.2.2 inLater, Infix.Waiting.join_some]
    next => rw [ihLater formed.2.2 inLater]

/-! ## Grouping from the left loses weight -/

def size : Expression → Nat
  | operand _ => 1
  | reference _ => 1
  | unary _ inner => inner.size + 1
  | binary _ earlier later => earlier.size + later.size + 1

/-- The size of all right operands together. -/
def rightWeight : Expression → Nat
  | operand _ => 0
  | reference _ => 0
  | unary _ inner => inner.rightWeight
  | binary _ earlier later => earlier.rightWeight + later.rightWeight + later.size

end Expression

namespace Infix.Waiting

def size : Waiting → Nat
  | none => 0
  | some (left, _) => left.size + 1

/-- What the waiting operator adds to the weight of a right operand of some size. -/
def load : Waiting → Nat → Nat
  | none, _ => 0
  | some (left, _), operand => left.rightWeight + operand

theorem size_join (waiting : Waiting) (e : Expression) :
    (waiting.join e).size = waiting.size + e.size := by
  cases waiting with
  | none => simp [size]
  | some pending =>
    simp [join, size, Expression.size]
    omega

theorem rightWeight_join (waiting : Waiting) (e : Expression) :
    (waiting.join e).rightWeight = waiting.load e.size + e.rightWeight := by
  cases waiting with
  | none => simp [load]
  | some pending =>
    simp [join, load, Expression.rightWeight]
    omega

theorem load_le (waiting : Waiting) {n k : Nat} (within : n ≤ k) :
    waiting.load n ≤ waiting.load k := by
  cases waiting with
  | none => exact Nat.le_refl _
  | some pending => exact Nat.add_le_add_left within _

theorem load_lt {waiting : Waiting} (waits : waiting.isSome) {n k : Nat} (less : n < k) :
    waiting.load n < waiting.load k := by
  cases waiting with
  | none => cases waits
  | some pending => exact Nat.add_lt_add_left less _

end Infix.Waiting

namespace Expression

open Infix.Waiting (size_join rightWeight_join load_le load_lt join_none join_some)

theorem size_readAs (waiting : Waiting) (e : Expression) :
    (readAs waiting e).size = (waiting.join e).size := by
  induction e generalizing waiting with
  | operand value => rfl
  | reference name => rfl
  | unary op inner ih => rw [readAs, size_join, size_join, size, size, ih, join_none]
  | binary op earlier later ihEarlier ihLater =>
    have first := ihEarlier waiting
    rw [size_join] at first
    rw [readAs, size_join, size]
    split
    · rw [ihLater, join_some, size, first]
      omega
    · rw [size, first, ihLater, join_none]
      omega

theorem rightWeight_readAs_le (waiting : Waiting) (e : Expression) :
    (readAs waiting e).rightWeight ≤ (waiting.join e).rightWeight := by
  induction e generalizing waiting with
  | operand value => exact Nat.le_refl _
  | reference name => exact Nat.le_refl _
  | unary op inner ih =>
    have inside := ih none
    rw [readAs, rightWeight_join, rightWeight_join, size, size, size_readAs]
    exact Nat.add_le_add_left inside _
  | binary op earlier later ihEarlier ihLater =>
    have first := ihEarlier waiting
    have grows : waiting.load earlier.size ≤ waiting.load (binary op earlier later).size :=
      waiting.load_le (by rw [size]; omega)
    rw [rightWeight_join] at first
    rw [readAs, rightWeight_join, rightWeight]
    split
    · have second := ihLater (some (readAs waiting earlier, op))
      rw [join_some, rightWeight] at second
      omega
    · have second := ihLater none
      rw [join_none] at second
      rw [rightWeight, size_readAs, join_none]
      omega

/-- Weight is lost where something is regrouped, and where an operator that waits takes only the
first operand of a binary expression. -/
theorem rightWeight_readAs_lt (waiting : Waiting) {e : Expression}
    (loses : e.Regroups ∨ waiting.isSome ∧ e.isBinary) :
    (readAs waiting e).rightWeight < (waiting.join e).rightWeight := by
  induction e generalizing waiting with
  | operand value => exact loses.elim False.elim fun both => by cases both.2
  | reference name => exact loses.elim False.elim fun both => by cases both.2
  | unary op inner ih =>
    have inner_loses : inner.Regroups := loses.resolve_right fun both => by cases both.2
    have inside := ih none (.inl inner_loses)
    rw [readAs, rightWeight_join, rightWeight_join, size, size, size_readAs]
    exact Nat.add_lt_add_left inside _
  | binary op earlier later ihEarlier ihLater =>
    have first := rightWeight_readAs_le waiting earlier
    have joined := rightWeight_readAs_le (some (readAs waiting earlier, op)) later
    have alone := rightWeight_readAs_le none later
    have smaller : earlier.size < (binary op earlier later).size := by rw [size]; omega
    have grows := waiting.load_le (Nat.le_of_lt smaller)
    rw [rightWeight_join] at first
    rw [join_some, rightWeight] at joined
    rw [join_none] at alone
    rw [readAs, rightWeight_join, rightWeight]
    obtain (inEarlier | inLater | ⟨shape, paren⟩) | ⟨waits, -⟩ := loses
    · have lost := ihEarlier waiting (.inl inEarlier)
      rw [rightWeight_join] at lost
      split
      · omega
      · rw [rightWeight, size_readAs, join_none]
        omega
    · split
      · have lost := ihLater (some (readAs waiting earlier, op)) (.inl inLater)
        rw [join_some, rightWeight] at lost
        omega
      · have lost := ihLater none (.inl inLater)
        rw [join_none] at lost
        rw [rightWeight, size_readAs, join_none]
        omega
    · -- the operator of this expression now waits for the first operand of the later one alone
      have bare : Description.isBare later.text := by simp [Description.isBare, paren]
      have lost := ihLater (some (readAs waiting earlier, op)) (.inr ⟨rfl, shape⟩)
      rw [join_some, rightWeight] at lost
      rw [if_pos bare]
      omega
    · have lost := load_lt waits smaller
      split
      · omega
      · rw [rightWeight, size_readAs, join_none]
        omega

theorem readAs_eq_self_iff {e : Expression} (formed : e.WellFormed) :
    readAs none e = e ↔ ¬e.Regroups := by
  refine ⟨fun same regroups => ?_, readAs_eq_self formed⟩
  have lost := rightWeight_readAs_lt none (.inl regroups)
  rw [same, Infix.Waiting.join_none] at lost
  exact Nat.lt_irrefl _ lost

end Expression

end StackCalculator
