import StackCalculator.Program.Description
import StackCalculator.Proofs.PostfixGrammar

/-! # What evaluation and description consume

A program is evaluated and described by one walk under two meanings. A walk that does not meet a
complete expression reads every token (`walk_cases`), whatever its meaning. So evaluation and
description leave the same tokens, except where there is no value: description goes on then, over
variables that are not bound and over operands that are missing.

`Program.Visits` lists the lengths at which a description is taken up again. That only the oldest of
the described expressions can lack operands comes from the stack of trees: an operator that finds
too few entries leaves its own entry at the bottom (`step_completeAboveOldest`).
-/

namespace StackCalculator

namespace Meaning

variable {α : Type}

/-! ## How many expressions there are -/

/-- Makes nothing of an expression but one entry of a stack. -/
def entry : Meaning Unit where
  operand _ := ()
  reference _ := ()
  unary _ _ := ()
  binary _ _ _ := ()
  missing := ()

theorem length_run (m : Meaning α) (tokens : List Token) :
    (m.run tokens).length = (entry.run tokens).length := by
  have carries : Carries m entry fun _ => () :=
    ⟨fun _ => rfl, fun _ => rfl, fun _ _ => rfl, fun _ _ _ => rfl, rfl⟩
  rw [carries.run_eq_map, List.length_map]

/-! ## Only the oldest entry can lack operands -/

def CompleteAboveOldest (stack : List (Option Expression)) : Prop :=
  ∀ entry ∈ stack.dropLast, entry.isSome

theorem CompleteAboveOldest.top {stack : List (Option Expression)}
    (complete : CompleteAboveOldest stack) (older : stack.tail ≠ []) :
    (tree.top stack).isSome := by
  match stack with
  | entry :: next :: stack => exact complete entry (by simp)

theorem CompleteAboveOldest.tail {stack : List (Option Expression)}
    (complete : CompleteAboveOldest stack) : CompleteAboveOldest stack.tail := by
  intro entry found
  rw [← List.tail_dropLast] at found
  exact complete entry (List.mem_of_mem_tail found)

theorem CompleteAboveOldest.cons {stack : List (Option Expression)} {entry : Option Expression}
    (complete : CompleteAboveOldest stack) (onTop : stack ≠ [] → entry.isSome) :
    CompleteAboveOldest (entry :: stack) := by
  cases stack with
  | nil =>
    intro other found
    cases found
  | cons next stack =>
    intro other found
    rw [List.dropLast_cons_of_ne_nil (List.cons_ne_nil next stack), List.mem_cons] at found
    cases found with
    | inl same => exact same ▸ onTop (List.cons_ne_nil next stack)
    | inr below => exact complete other below

theorem step_completeAboveOldest {stack : List (Option Expression)}
    (complete : CompleteAboveOldest stack) (token : Token) :
    CompleteAboveOldest (tree.step stack token) := by
  match token with
  | .operand value => exact complete.cons fun _ => rfl
  | .reference name => exact complete.cons fun _ => rfl
  | .operator (.unary op) =>
    refine complete.tail.cons fun older => ?_
    have inner := complete.top older
    simpa [tree] using inner
  | .operator (.binary op) =>
    refine complete.tail.tail.cons fun older => ?_
    -- both operands lie above another entry
    have second := complete.tail.top older
    have first := complete.top fun empty => older (by rw [empty]; rfl)
    obtain ⟨later, first⟩ := Option.isSome_iff_exists.1 first
    obtain ⟨earlier, second⟩ := Option.isSome_iff_exists.1 second
    rw [first, second]
    rfl

theorem run_tree_completeAboveOldest (tokens : List Token) :
    CompleteAboveOldest (tree.run tokens) := by
  have empty : CompleteAboveOldest [] := fun entry found => nomatch found
  exact tree.run_keeps empty fun _ token _ complete => step_completeAboveOldest complete token

/-! ## Where a walk ends -/

/-- A walk reads a complete expression or, where no expression ends the tokens, all of them. -/
theorem walk_cases (m : Meaning α) (tokens : List Token) :
    (∃ (e : Expression) (older : List Token),
        tokens = e.tokens.reverse ++ older ∧ m.walk tokens [] = (e.fold m, older)) ∨
      (∀ (e : Expression) (older : List Token), tokens ≠ e.tokens.reverse ++ older) ∧
        (m.walk tokens []).2 = [] := by
  cases found : tree.top (tree.run tokens.reverse) with
  | some e =>
    obtain ⟨older, rfl, -⟩ := Expression.exists_tokens_of_top_tree found
    exact .inl ⟨e, older, rfl, Expression.walk_tokens_nil m e older⟩
  | none =>
    refine .inr ⟨?_, ?_⟩
    · rintro e older rfl
      rw [(tree.walk_simulates_run _).1, Expression.walk_tokens_nil, Expression.fold_tree] at found
      cases found
    · -- tokens that are left make up the entries below the top, so the top would be complete
      apply Classical.byContradiction
      intro left
      have below : (m.run tokens.reverse).tail ≠ [] := by
        rw [(m.walk_simulates_run tokens).2]
        exact m.run_reverse_ne_nil left
      have olderEntries : (tree.run tokens.reverse).tail ≠ [] := by
        rw [← List.length_pos_iff, List.length_tail] at below ⊢
        rwa [length_run, ← m.length_run]
      have complete := (run_tree_completeAboveOldest tokens.reverse).top olderEntries
      rw [found] at complete
      cases complete

end Meaning

namespace Program

/-! ## One expression -/

theorem renderUpTo_eq_walk (p : Program) (style : OperandStyle) {stop : Nat}
    (within : stop ≤ p.size) :
    p.renderUpTo style stop =
      ⟨((Meaning.description style).walk (p.oldest stop) []).1,
        ((Meaning.description style).walk (p.oldest stop) []).2.length⟩ := by
  rw [renderUpTo, if_neg (Nat.not_lt.2 within)]

theorem renderUpTo_of_spells {p : Program} {start stop : Nat} {e : Expression}
    (spells : p.Spells start stop e) (style : OperandStyle) :
    p.renderUpTo style stop = ⟨e.fold (.description style), start⟩ := by
  have within := spells.2.1
  rw [p.renderUpTo_eq_walk style within, oldest_eq_of_spells spells, Expression.walk_tokens_nil,
    p.length_oldest (Nat.le_trans (Nat.le_of_lt spells.1) within)]

/-- A description takes a complete expression, or all tokens if no expression ends there. -/
theorem remainder_renderUpTo_cases (p : Program) (style : OperandStyle) {stop : Nat}
    (within : stop ≤ p.size) :
    (∃ e, p.Spells (p.renderUpTo style stop).remainder stop e) ∨
      (p.renderUpTo style stop).remainder = 0 ∧ ¬∃ start e, p.Spells start stop e := by
  cases (Meaning.description style).walk_cases (p.oldest stop) with
  | inl spelled =>
    obtain ⟨e, older, cut, -⟩ := spelled
    have spells := spells_of_oldest_eq within cut
    rw [renderUpTo_of_spells spells]
    exact .inl ⟨e, spells⟩
  | inr unspelled =>
    obtain ⟨nothing, all⟩ := unspelled
    refine .inr ⟨?_, ?_⟩
    · rw [p.renderUpTo_eq_walk style within, all]
      rfl
    · rintro ⟨start, e, spells⟩
      exact nothing e _ (oldest_eq_of_spells spells)

theorem remainder_renderUpTo_lt (p : Program) (style : OperandStyle) {stop : Nat}
    (within : stop ≤ p.size) (left : 0 < (p.renderUpTo style stop).remainder) :
    (p.renderUpTo style stop).remainder < stop := by
  cases p.remainder_renderUpTo_cases style within with
  | inl spelled => exact spelled.choose_spec.1
  | inr unspelled => omega

/-- An expression that is spelled but has no value refers to a variable that is not bound. -/
theorem exists_unbound_of_spells {p : Program} {vars : Variables} {start stop : Nat}
    {e : Expression} (spells : p.Spells start stop e)
    (failed : (p.evaluateUpTo vars stop).value = none) :
    ∃ name, .reference name ∈ p.slice start stop ∧ vars.get? name = none := by
  apply Classical.byContradiction
  intro allBound
  have bound : ∀ name, .reference name ∈ p.slice start stop → vars.contains name := by
    intro name mentioned
    cases read : vars.get? name with
    | none => exact absurd ⟨name, mentioned, read⟩ allBound
    | some value => rw [Variables.contains, read, Option.isSome_some]
  obtain ⟨value, valued⟩ := exists_value_of_spells spells bound
  rw [evaluateUpTo_of_spells spells valued] at failed
  cases failed

/-! ## The whole description -/

/-- The lengths at which a description is taken up, from some length on: it goes on with the tokens
that are left as long as there are any. -/
inductive Visits (p : Program) (style : OperandStyle) : Nat → List Nat → Prop where
  | last {stop : Nat} (done : (p.renderUpTo style stop).remainder = 0) : Visits p style stop [stop]
  | next {stop : Nat} {later : List Nat} (left : 0 < (p.renderUpTo style stop).remainder)
    (visits : Visits p style (p.renderUpTo style stop).remainder later) :
    Visits p style stop (stop :: later)

theorem exists_visits (p : Program) (style : OperandStyle) {stop : Nat} (within : stop ≤ p.size) :
    ∃ stops, p.Visits style stop stops := by
  induction stop using Nat.strongRecOn with
  | ind stop ih =>
    by_cases left : 0 < (p.renderUpTo style stop).remainder
    · have shorter := p.remainder_renderUpTo_lt style within left
      obtain ⟨later, visits⟩ := ih _ shorter (by omega)
      exact ⟨stop :: later, .next left visits⟩
    · exact ⟨[stop], .last (by omega)⟩

theorem Visits.ne_nil {p : Program} {style : OperandStyle} {stop : Nat} {stops : List Nat}
    (visits : p.Visits style stop stops) : stops ≠ [] := by
  cases visits <;> exact List.cons_ne_nil _ _

/-- All stops but the last leave tokens. -/
theorem Visits.remainder_pos {p : Program} {style : OperandStyle} {stop : Nat} {stops : List Nat}
    (visits : p.Visits style stop stops) (within : stop ≤ p.size) :
    ∀ visited ∈ stops.dropLast, visited ≤ p.size ∧ 0 < (p.renderUpTo style visited).remainder := by
  induction visits with
  | last done => simp
  | @next stop later left visits ih =>
    intro visited found
    rw [List.dropLast_cons_of_ne_nil visits.ne_nil, List.mem_cons] at found
    cases found with
    | inl same => exact same ▸ ⟨within, left⟩
    | inr further =>
      have shorter := p.remainder_renderUpTo_lt style within left
      exact ih (by omega) visited further

theorem walk_oldest_snd (p : Program) (style : OperandStyle) {stop : Nat}
    (within : stop ≤ p.size) :
    ((Meaning.description style).walk (p.oldest stop) []).2 =
      p.oldest (p.renderUpTo style stop).remainder := by
  rw [p.renderUpTo_eq_walk style within]
  cases (Meaning.description style).walk_cases (p.oldest stop) with
  | inl spelled =>
    obtain ⟨e, older, cut, walked⟩ := spelled
    rw [walked]
    have below := oldest_eq_of_spells (spells_of_oldest_eq within cut)
    rw [cut] at below
    exact List.append_cancel_left below
  | inr unspelled =>
    rw [unspelled.2]
    exact p.oldest_zero.symm

theorem expressionsBefore_oldest (p : Program) (style : OperandStyle) {stop : Nat}
    (within : stop ≤ p.size) (some_token : 0 < stop) (newer : List String) :
    (Meaning.description style).expressionsBefore newer (p.oldest stop) =
      (Meaning.description style).expressionsBefore ((p.renderUpTo style stop).text :: newer)
        (p.oldest (p.renderUpTo style stop).remainder) := by
  have nonempty : p.oldest stop ≠ [] := by
    rw [← List.length_pos_iff, p.length_oldest within]
    exact some_token
  rw [← p.walk_oldest_snd style within, Meaning.expressionsBefore, dif_neg nonempty,
    p.renderUpTo_eq_walk style within]

theorem Visits.expressionsBefore_eq {p : Program} {style : OperandStyle} {stop : Nat}
    {stops : List Nat} (visits : p.Visits style stop stops) (within : stop ≤ p.size)
    (some_token : 0 < stop) (newer : List String) :
    (Meaning.description style).expressionsBefore newer (p.oldest stop) =
      (stops.map fun stop => (p.renderUpTo style stop).text).reverse ++ newer := by
  induction visits generalizing newer with
  | @last stop done =>
    rw [p.expressionsBefore_oldest style within some_token, done, p.oldest_zero,
      Meaning.expressionsBefore, dif_pos rfl]
    rfl
  | @next stop later left visits ih =>
    have shorter := p.remainder_renderUpTo_lt style within left
    rw [p.expressionsBefore_oldest style within some_token, ih (by omega) left]
    simp

theorem Visits.describe_eq {p : Program} {style : OperandStyle} {stops : List Nat}
    (visits : p.Visits style p.size stops) :
    p.describe style =
      ", ".intercalate (stops.map fun stop => (p.renderUpTo style stop).text).reverse := by
  have all : p.newestFirst = p.oldest p.size := p.oldest_size.symm
  by_cases some_token : 0 < p.size
  · rw [describe, Meaning.expressions, all,
      visits.expressionsBefore_eq (Nat.le_refl _) some_token, List.append_nil]
  · -- an empty program is described once, by an empty text
    have empty : p.size = 0 := by omega
    rw [empty] at visits
    cases visits with
    | next left visits =>
      have shorter := p.remainder_renderUpTo_lt style (Nat.zero_le _) left
      omega
    | last done =>
      have noText : (p.renderUpTo style 0).text = "" := by
        rw [p.renderUpTo_eq_walk style (Nat.zero_le _), p.oldest_zero]
        rfl
      rw [describe, Meaning.expressions, all, empty, p.oldest_zero, Meaning.expressionsBefore,
        dif_pos rfl, List.map_singleton, noText]
      rfl

/-- Only the last stop, at the oldest expression, can lack operands. -/
theorem Visits.spells {p : Program} {style : OperandStyle} {stop : Nat} {stops : List Nat}
    (visits : p.Visits style stop stops) (within : stop ≤ p.size) :
    ∀ visited ∈ stops.dropLast, ∃ e, p.Spells (p.renderUpTo style visited).remainder visited e := by
  intro visited newer
  obtain ⟨inside, left⟩ := visits.remainder_pos within visited newer
  cases p.remainder_renderUpTo_cases style inside with
  | inl spelled => exact spelled
  | inr unspelled => omega

/-- Where evaluation finds a value, description leaves the same tokens. Where it finds none, either
no expression ends there and description takes all tokens, or a variable in what description takes
is not bound. So of the expressions that a whole description lists, all but the oldest are complete,
and evaluation finds each of them, if all variables are bound, and stops where description does. -/
theorem renderUpTo_consumes_as_evaluateUpTo (p : Program) (vars : Variables)
    (style : OperandStyle) :
    (∀ stop value remainder, p.evaluateUpTo vars stop = ⟨some value, remainder⟩ →
      (p.renderUpTo style stop).remainder = remainder) ∧
    (∀ stop ≤ p.size, (p.evaluateUpTo vars stop).value = none →
      ((p.renderUpTo style stop).remainder = 0 ∧ ¬∃ start e, p.Spells start stop e) ∨
        ∃ name, .reference name ∈ p.slice (p.renderUpTo style stop).remainder stop ∧
          vars.get? name = none) ∧
    ∃ stops, p.Visits style p.size stops ∧
      p.describe style =
        ", ".intercalate (stops.map fun stop => (p.renderUpTo style stop).text).reverse ∧
      (∀ stop ∈ stops.dropLast, ∃ e, p.Spells (p.renderUpTo style stop).remainder stop e) ∧
      ((∀ name, .reference name ∈ p.toList → vars.contains name) →
        ∀ stop ∈ stops.dropLast, ∃ value,
          p.evaluateUpTo vars stop = ⟨some value, (p.renderUpTo style stop).remainder⟩) := by
  refine ⟨?_, ?_, ?_⟩
  · intro stop value remainder evaluated
    obtain ⟨e, spells, -⟩ := exists_spells_of_evaluateUpTo evaluated
    rw [renderUpTo_of_spells spells]
  · intro stop within failed
    cases p.remainder_renderUpTo_cases style within with
    | inl spelled =>
      obtain ⟨e, spells⟩ := spelled
      exact .inr (exists_unbound_of_spells spells failed)
    | inr unspelled => exact .inl unspelled
  · obtain ⟨stops, visits⟩ := p.exists_visits style (Nat.le_refl _)
    have complete := visits.spells (Nat.le_refl _)
    refine ⟨stops, visits, visits.describe_eq, complete, ?_⟩
    intro bound stop newer
    obtain ⟨e, spells⟩ := complete stop newer
    obtain ⟨value, valued⟩ :=
      exists_value_of_spells spells fun name found => bound name (mem_of_mem_slice found)
    exact ⟨value, evaluateUpTo_of_spells spells valued⟩

end Program

end StackCalculator
