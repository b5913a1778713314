import Mathlib.Logic.Relation
import StackCalculator.Proofs.Remainder

/-! # The loops of a description end

A walk by positions takes two nested loops: the outer one reads the token below a position, the inner
one hands an operand to the operators that wait. At the bottom of the program the position stands
still, and the outer loop goes on with operands that are missing. `Meaning.next?` is one step of
these loops, every step makes the stage lighter (`weight_lt_of_next?`), and where they end is what
the walk finds (`reaches_walk`).

A description takes up the walk again where the last one ended. So the lengths that it visits get
less, and the tokens between them are the whole program.
-/

namespace StackCalculator

variable {α : Type}

/-! ## One step -/

/-- Where the loops of a walk are. -/
inductive Stage (α : Type) where
  -- the token below the position is read next
  | reading (position : Nat) (pending : List (Pending α))
  -- the operand is handed to the topmost operator that waits
  | handing (value : α) (position : Nat) (pending : List (Pending α))
  | done (value : α) (position : Nat)

/-- How many operands the operators wait for. -/
def Pending.awaited : List (Pending α) → Nat
  | [] => 0
  | unary _ :: rest | second _ _ :: rest => awaited rest + 1
  | first _ :: rest => awaited rest + 2

/-- A token outweighs the two operands that it may wait for, and an operand the step to the next
token. -/
def Stage.weight : Stage α → Nat
  | reading position pending => 5 * position + 2 * Pending.awaited pending + 2
  | handing _ position pending => 5 * position + 2 * Pending.awaited pending + 1
  | done _ position => 5 * position

/-- Where the loops go on when an operand has been handed to all operators that take it. -/
def Settled.stage (position : Nat) : Settled α → Stage α
  | complete value => .done value position
  | waiting pending => .reading position pending

/-- The token below a position: none at the bottom of the program, and none past its top. -/
def Program.tokenBelow? (p : Program) : Nat → Option Token
  | 0 => none
  | position + 1 => p.toList[position]?

namespace Meaning

/-- One step of the loops. Where there is no token, an operand is missing and the position stays. -/
def next? (m : Meaning α) (p : Program) : Stage α → Option (Stage α)
  | .reading position pending =>
    match p.tokenBelow? position with
    | none => some (.handing m.missing position pending)
    | some (.operand value) => some (.handing (m.operand value) (position - 1) pending)
    | some (.reference name) => some (.handing (m.reference name) (position - 1) pending)
    | some (.operator (.unary op)) => some (.reading (position - 1) (.unary op :: pending))
    | some (.operator (.binary op)) => some (.reading (position - 1) (.first op :: pending))
  | .handing value position [] => some (.done value position)
  | .handing value position (.unary op :: rest) =>
    some (.handing (m.unary op value) position rest)
  | .handing value position (.first op :: rest) =>
    some (.reading position (.second op value :: rest))
  | .handing value position (.second op first :: rest) =>
    some (.handing (m.binary op first value) position rest)
  | .done _ _ => none

def Steps (m : Meaning α) (p : Program) (stage later : Stage α) : Prop :=
  m.next? p stage = some later

end Meaning

theorem Program.pos_of_tokenBelow? {p : Program} {position : Nat} {token : Token}
    (found : p.tokenBelow? position = some token) : 0 < position := by
  cases position with
  | zero => cases found
  | succ position => exact Nat.succ_pos position

namespace Meaning

variable {m : Meaning α} {p : Program}

theorem weight_lt_of_next? {stage later : Stage α} (step : m.next? p stage = some later) :
    later.weight < stage.weight := by
  match stage with
  | .reading position pending =>
    rw [next?] at step
    cases below : p.tokenBelow? position with
    | none =>
      rw [below] at step
      cases step
      simp only [Stage.weight]
      omega
    | some token =>
      have read := Program.pos_of_tokenBelow? below
      rw [below] at step
      match token with
      | .operand _ | .reference _ | .operator (.unary _) | .operator (.binary _) =>
        cases step
        simp only [Stage.weight, Pending.awaited]
        omega
  | .handing value position pending =>
    match pending with
    | [] | .unary _ :: rest | .first _ :: rest | .second _ _ :: rest =>
      cases step
      simp only [Stage.weight, Pending.awaited]
      omega
  | .done value position => cases step

/-! ## Whole walks -/

theorem reaches_settle (value : α) (position : Nat) (pending : List (Pending α)) :
    Relation.ReflTransGen (m.Steps p) (.handing value position pending)
      ((m.settle value pending).stage position) := by
  induction pending generalizing value with
  | nil => exact .single rfl
  | cons frame rest ih =>
    cases frame with
    | unary op => exact .head rfl (ih (m.unary op value))
    | first op => exact .single rfl
    | second op first => exact .head rfl (ih (m.binary op first value))

/-- Without tokens below the position, all operators that wait are completed there. -/
theorem reaches_exhaust {position : Nat} (bottom : p.tokenBelow? position = none) (value : α)
    (pending : List (Pending α)) :
    Relation.ReflTransGen (m.Steps p) (.handing value position pending)
      (.done (m.exhaust value pending) position) := by
  have missing (pending : List (Pending α)) :
      m.Steps p (.reading position pending) (.handing m.missing position pending) := by
    rw [Steps, next?, bottom]
  induction pending generalizing value with
  | nil => exact .single rfl
  | cons frame rest ih =>
    cases frame with
    | unary op => exact .head rfl (ih (m.unary op value))
    | first op =>
      -- the operator is handed a missing operand as its second one
      exact .head rfl (.head (missing _) (.head rfl (ih (m.binary op value m.missing))))
    | second op first => exact .head rfl (ih (m.binary op first value))

theorem reaches_walk {position : Nat} (within : position ≤ p.size) (pending : List (Pending α)) :
    Relation.ReflTransGen (m.Steps p) (.reading position pending)
      (.done (m.walk (p.oldest position) pending).1 (m.walk (p.oldest position) pending).2.length) := by
  induction position generalizing pending with
  | zero =>
    rw [p.oldest_zero]
    exact .head rfl (reaches_exhaust rfl m.missing pending)
  | succ position ih =>
    have further := ih (Nat.le_of_succ_le within)
    have resumed (value : α) :
        Relation.ReflTransGen (m.Steps p) (.handing value position pending)
          (.done (m.resume value pending (p.oldest position)).1
            (m.resume value pending (p.oldest position)).2.length) := by
      have settled := m.reaches_settle (p := p) value position pending
      rw [resume]
      cases found : m.settle value pending with
      | complete result =>
        rw [found] at settled
        rwa [p.length_oldest (Nat.le_of_succ_le within)]
      | waiting later =>
        rw [found] at settled
        exact settled.trans (further later)
    obtain ⟨token, below, oldest⟩ := p.oldest_succ within
    have below : p.tokenBelow? (position + 1) = some token := below
    have read {later : Stage α} (next : m.next? p (.reading (position + 1) pending) = some later) :
        m.Steps p (.reading (position + 1) pending) later := next
    rw [next?, below] at read
    rw [oldest]
    cases token with
    | operand value => exact .head (read rfl) (resumed (m.operand value))
    | reference name => exact .head (read rfl) (resumed (m.reference name))
    | operator op =>
      cases op with
      | unary op => exact .head (read rfl) (further (.unary op :: pending))
      | binary op => exact .head (read rfl) (further (.first op :: pending))

end Meaning

namespace Program

theorem reaches_renderUpTo (p : Program) (style : OperandStyle) (stop : Nat) :
    Relation.ReflTransGen ((Meaning.description style).Steps p) (.reading stop [])
      (.done (p.renderUpTo style stop).text (p.renderUpTo style stop).remainder) := by
  obtain past | within := Nat.lt_or_ge p.size stop
  · have nothing : p.tokenBelow? stop = none := by
      obtain ⟨position, rfl⟩ := Nat.exists_eq_succ_of_ne_zero (Nat.ne_zero_of_lt past)
      exact List.getElem?_eq_none (by rw [length_toList]; omega)
    rw [renderUpTo, if_pos past]
    have missing : (Meaning.description style).Steps p (.reading stop []) (.handing "" stop []) := by
      rw [Meaning.Steps, Meaning.next?, nothing]
      rfl
    exact .head missing (.single rfl)
  · rw [p.renderUpTo_eq_walk style within]
    exact Meaning.reaches_walk within []

/-! ## The pieces of a description -/

theorem remainder_lt_of_pos (p : Program) (style : OperandStyle) {stop : Nat}
    (some_token : 0 < stop) (within : stop ≤ p.size) :
    (p.renderUpTo style stop).remainder < stop := by
  obtain zero | left := Nat.eq_zero_or_pos (p.renderUpTo style stop).remainder
  · rwa [zero]
  · exact p.remainder_renderUpTo_lt style within left

variable {p : Program} {style : OperandStyle} {stop : Nat} {stops : List Nat}

theorem Visits.le (visits : p.Visits style stop stops) (within : stop ≤ p.size) :
    ∀ visited ∈ stops, visited ≤ stop := by
  induction visits with
  | last done => exact fun visited found => Nat.le_of_eq (List.mem_singleton.1 found)
  | @next stop later left visits ih =>
    have shorter := p.remainder_renderUpTo_lt style within left
    refine List.forall_mem_cons.2 ⟨Nat.le_refl stop, fun visited found => ?_⟩
    exact Nat.le_trans (ih (by omega) visited found) (Nat.le_of_lt shorter)

theorem Visits.decreasing (visits : p.Visits style stop stops) (within : stop ≤ p.size) :
    stops.Pairwise (· > ·) := by
  induction visits with
  | last done => exact List.pairwise_singleton _ _
  | @next stop later left visits ih =>
    have shorter := p.remainder_renderUpTo_lt style within left
    have inside : (p.renderUpTo style stop).remainder ≤ p.size := by omega
    exact List.pairwise_cons.2
      ⟨fun visited found => Nat.lt_of_le_of_lt (visits.le inside visited found) shorter, ih inside⟩

theorem Visits.flatten_slices (visits : p.Visits style stop stops) (within : stop ≤ p.size) :
    (stops.map fun visited => p.slice (p.renderUpTo style visited).remainder visited).reverse.flatten =
      p.toList.take stop := by
  induction visits with
  | @last stop done => simp [slice, done]
  | @next stop later left visits ih =>
    have shorter := p.remainder_renderUpTo_lt style within left
    rw [List.map_cons, List.reverse_cons, List.flatten_append, ih (by omega), List.flatten_singleton,
      p.take_append_slice (Nat.le_of_lt shorter)]

/-- Every step of the loops makes their stage lighter, so they end, and from any length on they end
in what is described below it. From a length within the program they take some token. So the whole
description visits ever shorter lengths within the program, and what it takes at these lengths is the
whole program, piece by piece. -/
theorem rendering_ends (p : Program) (style : OperandStyle) :
    (∀ stage later, (Meaning.description style).Steps p stage later → later.weight < stage.weight) ∧
    (∀ stop, let last := .done (p.renderUpTo style stop).text (p.renderUpTo style stop).remainder
      Relation.ReflTransGen ((Meaning.description style).Steps p) (.reading stop []) last ∧
        ∀ later, ¬(Meaning.description style).Steps p last later) ∧
    (∀ stop, 0 < stop → stop ≤ p.size → (p.renderUpTo style stop).remainder < stop) ∧
    ∃ stops, p.Visits style p.size stops ∧ stops.Pairwise (· > ·) ∧ (∀ stop ∈ stops, stop ≤ p.size) ∧
      p.describe style =
        ", ".intercalate (stops.map fun stop => (p.renderUpTo style stop).text).reverse ∧
      (stops.map fun stop => p.slice (p.renderUpTo style stop).remainder stop).reverse.flatten =
        p.toList := by
  refine ⟨fun stage later => Meaning.weight_lt_of_next?,
    fun stop => ⟨p.reaches_renderUpTo style stop, nofun⟩, fun stop => p.remainder_lt_of_pos style, ?_⟩
  obtain ⟨stops, visits⟩ := p.exists_visits style (Nat.le_refl p.size)
  refine ⟨stops, visits, visits.decreasing (Nat.le_refl _), visits.le (Nat.le_refl _),
    visits.describe_eq, ?_⟩
  rw [visits.flatten_slices (Nat.le_refl _), ← p.length_toList, List.take_length]

end Program

end StackCalculator
