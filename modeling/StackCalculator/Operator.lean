/-! # Operators

An operator takes one operand or two. Of two operands the `first` is the newer one, the top of the
stack, and the `second` is the one below it. A table of operators knows each symbol at most once:
learning a symbol again replaces the operator that had it.
-/

namespace StackCalculator

structure UnaryOperator where
  symbol : String
  apply : Float → Float

/-- An operator with two operands, the newer one first. -/
structure BinaryOperator where
  symbol : String
  apply : Float → Float → Float

inductive Operator where
  | unary (op : UnaryOperator)
  | binary (op : BinaryOperator)

namespace Operator

def symbol : Operator → String
  | unary op => op.symbol
  | binary op => op.symbol

end Operator

/-- The operators a machine knows, no two of one symbol. -/
structure Operators where
  known : List Operator
  distinct : known.Pairwise fun a b => a.symbol ≠ b.symbol

namespace Operators

def empty : Operators := ⟨[], .nil⟩

def get? (ops : Operators) (symbol : String) : Option Operator :=
  ops.known.find? fun op => op.symbol = symbol

def contains (ops : Operators) (symbol : String) : Bool :=
  (ops.get? symbol).isSome

/-- Adds an operator in place of the one with its symbol, if there is one. -/
def learn (ops : Operators) (op : Operator) : Operators where
  known := op :: ops.known.filter fun other => op.symbol ≠ other.symbol
  distinct := by
    refine List.pairwise_cons.2 ⟨fun other found => ?_, ops.distinct.filter _⟩
    simpa using (List.mem_filter.1 found).2

theorem get?_learn (ops : Operators) (op : Operator) (symbol : String) :
    (ops.learn op).get? symbol = if op.symbol = symbol then some op else ops.get? symbol := by
  by_cases same : op.symbol = symbol
  · simp [get?, learn, same]
  · simp only [get?, learn, List.find?_cons, same, decide_false, if_false, List.find?_filter]
    congr 1
    funext other
    by_cases found : other.symbol = symbol
    · simp [found, same]
    · simp [found]

/-- Of several operators learned with one symbol, the last one counts. -/
theorem get?_foldl_learn (ops : Operators) (learned : List Operator) (symbol : String) :
    (learned.foldl learn ops).get? symbol =
      (learned.reverse.find? fun op => op.symbol = symbol).or (ops.get? symbol) := by
  induction learned generalizing ops with
  | nil => rfl
  | cons op learned ih =>
    rw [List.foldl_cons, ih, get?_learn, List.reverse_cons, List.find?_append, Option.or_assoc]
    by_cases same : op.symbol = symbol <;> simp [same]

theorem symbol_of_get? {ops : Operators} {symbol : String} {op : Operator}
    (found : ops.get? symbol = some op) : op.symbol = symbol := by
  simpa using List.find?_some found

def symbols (ops : Operators) : List String :=
  (ops.known.map Operator.symbol).mergeSort fun a b => a ≤ b

/-- The operators every machine starts with. The quotient and the difference take the second operand
by the first. -/
def builtin : Operators :=
  [.binary ⟨"×", fun first second => first * second⟩,
    .binary ⟨"÷", fun first second => second / first⟩,
    .binary ⟨"+", fun first second => first + second⟩,
    .binary ⟨"−", fun first second => second - first⟩,
    .unary ⟨"√", Float.sqrt⟩,
    .unary ⟨"sin", Float.sin⟩,
    .unary ⟨"cos", Float.cos⟩].foldl learn empty

end Operators

end StackCalculator
