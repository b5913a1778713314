import StackCalculator.Program.Value
import StackCalculator.Proofs.StackMachine

/-! # Expressions

The expression trees that programs spell, with their tokens in postfix order. `walk_tokens` says that
a walk which meets the tokens of an expression goes on with what its meaning makes of the whole tree;
so an expression is found again in any tokens that end with it (`tokens_reverse_append_inj`).
-/

namespace StackCalculator

/-- A complete expression. The earlier operand of a binary operator is its second one, and the later
operand, which comes on top, its first. -/
inductive Expression where
  | operand (value : Float)
  | reference (name : String)
  | unary (op : UnaryOperator) (inner : Expression)
  | binary (op : BinaryOperator) (earlier later : Expression)

namespace Expression

variable {α : Type}

def tokens : Expression → List Token
  | operand value => [.operand value]
  | reference name => [.reference name]
  | unary op inner => inner.tokens ++ [.operator (.unary op)]
  | binary op earlier later => earlier.tokens ++ later.tokens ++ [.operator (.binary op)]

def names : Expression → List String
  | operand _ => []
  | reference name => [name]
  | unary _ inner => inner.names
  | binary _ earlier later => earlier.names ++ later.names

def value? (vars : Variables) : Expression → Option Float
  | operand value => some value
  | reference name => vars.get? name
  | unary op inner => do return op.apply (← inner.value? vars)
  | binary op earlier later => do return op.apply (← later.value? vars) (← earlier.value? vars)

def fold (m : Meaning α) : Expression → α
  | operand value => m.operand value
  | reference name => m.reference name
  | unary op inner => m.unary op (inner.fold m)
  | binary op earlier later => m.binary op (later.fold m) (earlier.fold m)

theorem tokens_ne_nil (e : Expression) : e.tokens ≠ [] := by
  cases e <;> simp [tokens]

theorem isSome_value?_iff (vars : Variables) (e : Expression) :
    (e.value? vars).isSome ↔ ∀ name ∈ e.names, vars.contains name := by
  induction e with
  | operand value => simp [value?, names]
  | reference name => simp [value?, names, Variables.contains]
  | unary op inner ih =>
    rw [names, ← ih, value?]
    cases inner.value? vars <;> simp
  | binary op earlier later ihEarlier ihLater =>
    simp only [names, List.forall_mem_append, ← ihEarlier, ← ihLater, value?]
    cases later.value? vars <;> cases earlier.value? vars <;> simp

theorem reference_mem_tokens_iff (e : Expression) (name : String) :
    .reference name ∈ e.tokens ↔ name ∈ e.names := by
  induction e with
  | operand value => simp [tokens, names]
  | reference other => simp [tokens, names]
  | unary op inner ih => simp [tokens, names, ih]
  | binary op earlier later ihEarlier ihLater => simp [tokens, names, ihEarlier, ihLater]

theorem value?_eq_fold (vars : Variables) (e : Expression) :
    e.value? vars = e.fold (Meaning.value vars) := by
  induction e with
  | operand value => rfl
  | reference name => rfl
  | unary op inner ih =>
    rw [value?, fold, ← ih]
    cases inner.value? vars <;> rfl
  | binary op earlier later ihEarlier ihLater =>
    rw [value?, fold, ← ihEarlier, ← ihLater]
    cases later.value? vars with
    | none => rfl
    | some first => cases earlier.value? vars <;> rfl

/-! ## Running the tokens of expressions -/

theorem foldl_tokens (m : Meaning α) (e : Expression) (stack : List α) :
    e.tokens.foldl m.step stack = e.fold m :: stack := by
  induction e generalizing stack with
  | operand value => rfl
  | reference name => rfl
  | unary op inner ih =>
    rw [tokens, List.foldl_append, ih]
    rfl
  | binary op earlier later ihEarlier ihLater =>
    rw [tokens, List.foldl_append, List.foldl_append, ihEarlier, ihLater]
    rfl

theorem run_flatMap_tokens (m : Meaning α) (trees : List Expression) :
    m.run (trees.flatMap tokens) = (trees.map (fold m)).reverse := by
  have onTop (stack : List α) :
      (trees.flatMap tokens).foldl m.step stack = (trees.map (fold m)).reverse ++ stack := by
    induction trees generalizing stack with
    | nil => rfl
    | cons e trees ih => simp [foldl_tokens, ih]
  rw [Meaning.run, onTop, List.append_nil]

/-! ## Walking over an expression -/

/-- A walk that meets an expression hands what its meaning makes of it to the waiting operators. -/
theorem walk_tokens (m : Meaning α) (e : Expression) (older : List Token)
    (pending : List (Pending α)) :
    m.walk (e.tokens.reverse ++ older) pending = m.resume (e.fold m) pending older := by
  induction e generalizing older pending with
  | operand value => rfl
  | reference name => rfl
  | unary op inner ih =>
    simp only [tokens, List.reverse_append, List.reverse_singleton, List.cons_append]
    exact ih older (.unary op :: pending)
  | binary op earlier later ihEarlier ihLater =>
    simp only [tokens, List.reverse_append, List.reverse_singleton, List.cons_append,
      List.append_assoc]
    calc m.walk (later.tokens.reverse ++ (earlier.tokens.reverse ++ older)) (.first op :: pending)
        = m.walk (earlier.tokens.reverse ++ older) (.second op (later.fold m) :: pending) :=
          ihLater _ _
      _ = m.resume (earlier.fold m) (.second op (later.fold m) :: pending) older :=
          ihEarlier _ _
      _ = m.resume ((binary op earlier later).fold m) pending older := rfl

theorem walk_tokens_nil (m : Meaning α) (e : Expression) (older : List Token) :
    m.walk (e.tokens.reverse ++ older) [] = (e.fold m, older) :=
  walk_tokens m e older []

end Expression

/-! ## Reading expressions back -/

/-- Makes the tree itself of an expression, and nothing of one that lacks operands. -/
def Meaning.tree : Meaning (Option Expression) where
  operand value := some (.operand value)
  reference name := some (.reference name)
  unary op inner := inner.map (.unary op)
  binary op first second :=
    match first, second with
    | some later, some earlier => some (.binary op earlier later)
    | _, _ => none
  missing := none

theorem Meaning.tree_binary_eq_some_iff {op : BinaryOperator} {first second : Option Expression}
    {e : Expression} :
    Meaning.tree.binary op first second = some e ↔
      ∃ later earlier, first = some later ∧ second = some earlier ∧ .binary op earlier later = e := by
  cases first <;> cases second <;> simp [tree]

namespace Expression

theorem fold_tree (e : Expression) : e.fold Meaning.tree = some e := by
  induction e with
  | operand value => rfl
  | reference name => rfl
  | unary op inner ih => rw [fold, ih]; rfl
  | binary op earlier later ihEarlier ihLater => rw [fold, ihEarlier, ihLater]; rfl

theorem tree_carries_value? (vars : Variables) :
    Meaning.Carries .tree (.value vars) fun e => e.bind (Expression.value? vars) where
  operand value := rfl
  reference name := rfl
  unary op inner := by
    cases inner with
    | none => rfl
    | some inner =>
      simp only [Meaning.value, Meaning.tree, Option.map_some, Option.bind_some, value?]
      cases inner.value? vars <;> rfl
  binary op first second := by
    cases first with
    | none => rfl
    | some later =>
      cases second with
      | none =>
        simp only [Meaning.value, Meaning.tree, Option.bind_some, Option.bind_none]
        cases later.value? vars <;> rfl
      | some earlier =>
        simp only [Meaning.value, Meaning.tree, Option.bind_some, value?]
        cases later.value? vars <;> cases earlier.value? vars <;> rfl
  missing := rfl

theorem tokens_reverse_append_inj {e other : Expression} {older rest : List Token}
    (same : e.tokens.reverse ++ older = other.tokens.reverse ++ rest) :
    e = other ∧ older = rest := by
  have walked := walk_tokens_nil Meaning.tree e older
  rw [same, walk_tokens_nil, fold_tree, fold_tree, Prod.mk.injEq, Option.some.injEq] at walked
  exact ⟨walked.1.symm, walked.2.symm⟩

/-- A tree on top of the machine's stack was spelled by the newest tokens, and the rest of the stack
by the older ones. -/
theorem exists_tokens_of_top_tree {tokens : List Token} {e : Expression}
    (found : Meaning.tree.top (Meaning.tree.run tokens.reverse) = some e) :
    ∃ older, tokens = e.tokens.reverse ++ older ∧
      (Meaning.tree.run tokens.reverse).tail = Meaning.tree.run older.reverse := by
  -- the earlier operand is spelled by what the later one leaves, so tokens are counted
  induction size : tokens.length using Nat.strongRecOn generalizing tokens e with
  | ind size ih =>
    subst size
    cases tokens with
    | nil => cases found
    | cons token rest =>
      rw [Meaning.run_reverse_cons] at found ⊢
      match token with
      | .operand value =>
        cases found
        exact ⟨rest, rfl, rfl⟩
      | .reference name =>
        cases found
        exact ⟨rest, rfl, rfl⟩
      | .operator (.unary op) =>
        obtain ⟨inner, spelled, rfl⟩ := Option.map_eq_some_iff.1 found
        obtain ⟨older, rfl, below⟩ := ih _ (Nat.lt_succ_self _) spelled rfl
        exact ⟨older, by simp [Expression.tokens], below⟩
      | .operator (.binary op) =>
        -- the earlier operand ends where the later one begins
        obtain ⟨later, earlier, onTop, under, rfl⟩ := Meaning.tree_binary_eq_some_iff.1 found
        obtain ⟨between, rfl, remains⟩ := ih _ (Nat.lt_succ_self _) onTop rfl
        rw [remains] at under
        have shorter : between.length < (later.tokens.reverse ++ between).length + 1 := by
          rw [List.length_append]
          omega
        obtain ⟨older, rfl, below⟩ := ih _ shorter under rfl
        refine ⟨older, by simp [Expression.tokens], ?_⟩
        rw [← below, ← remains]
        rfl

end Expression

end StackCalculator
