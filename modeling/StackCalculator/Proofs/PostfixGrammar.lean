import StackCalculator.Proofs.Expression
import StackCalculator.Proofs.Scan

/-! # Evaluation and the postfix grammar

`Program.Spells` says that the tokens from one position up to another are those of an expression.
`evaluateUpTo_iff_spells` says that evaluating the oldest tokens of a program finds exactly the
expression that ends where they end, if all its variables are bound, and consumes nothing otherwise.
-/

namespace StackCalculator.Program

def slice (p : Program) (start stop : Nat) : List Token :=
  (p.toList.take stop).drop start

/-- The tokens from `start` up to `stop` are those of an expression. -/
def Spells (p : Program) (start stop : Nat) (e : Expression) : Prop :=
  start < stop ∧ stop ≤ p.size ∧ p.slice start stop = e.tokens

/-! ## Cutting a program where an expression begins -/

theorem take_append_slice (p : Program) {start stop : Nat} (before : start ≤ stop) :
    p.toList.take start ++ p.slice start stop = p.toList.take stop := by
  have start_eq : p.toList.take start = (p.toList.take stop).take start := by
    rw [List.take_take, Nat.min_eq_left before]
  rw [slice, start_eq, List.take_append_drop]

theorem oldest_eq_of_spells {p : Program} {start stop : Nat} {e : Expression}
    (spells : p.Spells start stop e) :
    p.oldest stop = e.tokens.reverse ++ p.oldest start := by
  obtain ⟨before, _, same⟩ := spells
  have cut : p.toList.take stop = p.toList.take start ++ e.tokens := by
    rw [← p.take_append_slice (Nat.le_of_lt before), same]
  rw [oldest_eq_reverse_take, oldest_eq_reverse_take, cut, List.reverse_append]

theorem spells_of_oldest_eq {p : Program} {stop : Nat} {e : Expression} {below : List Token}
    (within : stop ≤ p.size) (cut : p.oldest stop = e.tokens.reverse ++ below) :
    p.Spells below.length stop e := by
  have whole : p.toList.take stop = below.reverse ++ e.tokens := by
    rw [← List.reverse_reverse (p.toList.take stop), ← oldest_eq_reverse_take, cut]
    simp
  have size : stop = e.tokens.length + below.length := by
    rw [← p.length_oldest within, cut]
    simp
  have some_token := List.length_pos_iff.2 e.tokens_ne_nil
  refine ⟨by omega, within, ?_⟩
  rw [slice, whole, ← below.length_reverse, List.drop_left]

theorem spells_inj {p : Program} {start other stop : Nat} {e f : Expression}
    (spells : p.Spells start stop e) (spellsOther : p.Spells other stop f) :
    start = other ∧ e = f := by
  have same := (oldest_eq_of_spells spells).symm.trans (oldest_eq_of_spells spellsOther)
  obtain ⟨rfl, below⟩ := Expression.tokens_reverse_append_inj same
  have lengths := congrArg List.length below
  have within := spells.2.1
  rw [p.length_oldest (by have := spells.1; omega),
    p.length_oldest (by have := spellsOther.1; omega)] at lengths
  exact ⟨lengths, rfl⟩

/-! ## What is evaluated -/

theorem evaluateUpTo_of_spells {p : Program} {vars : Variables} {start stop : Nat}
    {e : Expression} {value : Float} (spells : p.Spells start stop e)
    (valued : e.value? vars = some value) :
    p.evaluateUpTo vars stop = ⟨some value, start⟩ := by
  have within := spells.2.1
  have walked : (Meaning.value vars).walk (p.oldest stop) [] = (some value, p.oldest start) := by
    rw [oldest_eq_of_spells spells, Expression.walk_tokens_nil, ← Expression.value?_eq_fold, valued]
  rw [evaluateUpTo, if_neg (Nat.not_lt.2 within), walked]
  simp only [p.length_oldest (Nat.le_trans (Nat.le_of_lt spells.1) within)]

theorem exists_spells_of_evaluateUpTo {p : Program} {vars : Variables} {stop remainder : Nat}
    {value : Float} (evaluated : p.evaluateUpTo vars stop = ⟨some value, remainder⟩) :
    ∃ e, p.Spells remainder stop e ∧ e.value? vars = some value := by
  rw [evaluateUpTo] at evaluated
  split at evaluated
  · cases evaluated
  next notBeyond =>
    have within := Nat.not_lt.1 notBeyond
    -- the walk finds the top of the stack of values, and this is the value of a tree
    have simulated := (Meaning.value vars).walk_simulates_run (p.oldest stop)
    rw [(Expression.tree_carries_value? vars).run_eq_map,
      (Expression.tree_carries_value? vars).top_map] at simulated
    split at evaluated
    next found below walked =>
      cases evaluated
      rw [walked] at simulated
      obtain ⟨e, top, valued⟩ := Option.bind_eq_some_iff.1 simulated.1
      obtain ⟨older, cut, _⟩ := Expression.exists_tokens_of_top_tree top
      rw [cut, Expression.walk_tokens_nil, Prod.mk.injEq] at walked
      obtain ⟨-, rfl⟩ := walked
      exact ⟨e, spells_of_oldest_eq within cut, valued⟩
    next => cases evaluated

/-! ## Programs whose variables are bound -/

theorem mem_of_mem_slice {p : Program} {start stop : Nat} {token : Token}
    (found : token ∈ p.slice start stop) : token ∈ p.toList :=
  List.mem_of_mem_take (List.mem_of_mem_drop found)

theorem exists_value_of_spells {p : Program} {vars : Variables} {start stop : Nat}
    {e : Expression} (spells : p.Spells start stop e)
    (bound : ∀ name, .reference name ∈ p.slice start stop → vars.contains name) :
    ∃ value, e.value? vars = some value := by
  rw [← Option.isSome_iff_exists, e.isSome_value?_iff vars]
  intro name mentioned
  apply bound name
  rw [spells.2.2]
  exact (e.reference_mem_tokens_iff name).2 mentioned

theorem exists_spells_size_iff (p : Program) (e : Expression) :
    (∃ start, p.Spells start p.size e) ↔ e.tokens <:+ p.toList := by
  have whole : p.toList.take p.size = p.toList := List.take_of_length_le (by simp)
  constructor
  · rintro ⟨start, -, -, same⟩
    rw [← same, slice, whole]
    exact List.drop_suffix start p.toList
  · rintro ⟨older, split⟩
    have some_token := List.length_pos_iff.2 e.tokens_ne_nil
    have size : older.length + e.tokens.length = p.size := by
      rw [← List.length_append, split, length_toList]
    refine ⟨older.length, by omega, Nat.le_refl _, ?_⟩
    rw [slice, whole, ← split, List.drop_left]

theorem evaluate_eq_none_iff {p : Program} {vars : Variables}
    (bound : ∀ name, .reference name ∈ p.toList → vars.contains name) :
    p.evaluate vars = none ↔ ¬∃ e : Expression, e.tokens <:+ p.toList := by
  rw [← value_evaluateUpTo_size]
  constructor
  · rintro failed ⟨e, onTop⟩
    obtain ⟨start, spells⟩ := (p.exists_spells_size_iff e).2 onTop
    obtain ⟨value, valued⟩ :=
      exists_value_of_spells spells fun name found => bound name (mem_of_mem_slice found)
    rw [evaluateUpTo_of_spells spells valued] at failed
    cases failed
  · intro nothing
    cases evaluated : p.evaluateUpTo vars p.size with
    | mk value remainder =>
      cases value with
      | none => rfl
      | some value =>
        obtain ⟨e, spells, -⟩ := exists_spells_of_evaluateUpTo evaluated
        exact absurd ⟨e, (p.exists_spells_size_iff e).1 ⟨remainder, spells⟩⟩ nothing

/-! ## The grammar -/

/-- Evaluation succeeds with a remainder exactly when the tokens above it are those of an expression
whose variables are all bound; the value is that of the expression. There is at most one such
expression. In every other case nothing is consumed, and no position outside the program is read. -/
theorem evaluateUpTo_iff_spells (p : Program) (vars : Variables) (stop : Nat) :
    (∀ value remainder, p.evaluateUpTo vars stop = ⟨some value, remainder⟩ ↔
      ∃ e, p.Spells remainder stop e ∧ (∀ name ∈ e.names, vars.contains name) ∧
        e.value? vars = some value) ∧
    (∀ start e other f, p.Spells start stop e → p.Spells other stop f → start = other ∧ e = f) ∧
    ((¬∃ start e, p.Spells start stop e ∧ ∀ name ∈ e.names, vars.contains name) →
      p.evaluateUpTo vars stop = ⟨none, stop⟩) ∧
    p.evaluateUpTo vars stop = (p.scanUpTo vars stop).evaluation stop ∧
    ∀ position, p.scanUpTo vars stop ≠ .outside position := by
  refine ⟨fun value remainder => ⟨fun evaluated => ?_, ?_⟩, fun _ _ _ _ => spells_inj,
    fun nothing => ?_, p.evaluateUpTo_eq_scan vars stop, p.scanUpTo_ne_outside vars stop⟩
  · obtain ⟨e, spells, valued⟩ := exists_spells_of_evaluateUpTo evaluated
    exact ⟨e, spells, (e.isSome_value?_iff vars).1 (by rw [valued]; rfl), valued⟩
  · rintro ⟨e, spells, -, valued⟩
    exact evaluateUpTo_of_spells spells valued
  · cases evaluated : p.evaluateUpTo vars stop with
    | mk value remainder =>
      cases value with
      | none =>
        rw [p.evaluateUpTo_eq_scan] at evaluated
        cases scanned : p.scanUpTo vars stop with
        | complete => rw [scanned] at evaluated; cases evaluated
        | outside => rw [scanned] at evaluated; cases evaluated; rfl
        | failed => rw [scanned] at evaluated; cases evaluated; rfl
      | some value =>
        obtain ⟨e, spells, valued⟩ := exists_spells_of_evaluateUpTo evaluated
        have bound := (e.isSome_value?_iff vars).1 (by rw [valued]; rfl)
        exact absurd ⟨remainder, e, spells, bound⟩ nothing

end StackCalculator.Program
