import Mathlib.Data.List.Forall2
import StackCalculator.Machine
import StackCalculator.Proofs.Remainder

/-! # Late binding

A reference counts for what its variable is bound to when the program is evaluated. So references
may be replaced by the values of their variables, and binding a variable is as good as replacing all
references to it. It makes no difference to an expression that does not refer to this variable, and
which tokens these are is what a description takes (`evaluateUpTo_late_bound`).
-/

namespace StackCalculator

/-! ## Tokens that count for the same -/

/-- Two tokens that count for the same value, each under its own variables, or are one operator. -/
inductive Token.Alike (vars other : Variables) : Token → Token → Prop where
  | operand (value : Float) : Alike vars other (.operand value) (.operand value)
  | operator (op : Operator) : Alike vars other (.operator op) (.operator op)
  | reference {name : String} (same : vars.get? name = other.get? name) :
    Alike vars other (.reference name) (.reference name)
  | replaced {name : String} {value : Float} (bound : vars.get? name = some value) :
    Alike vars other (.reference name) (.operand value)

/-- The value of an expression depends on the variables that it refers to. -/
theorem Expression.value?_congr {vars other : Variables} (e : Expression)
    (agree : ∀ name ∈ e.names, vars.get? name = other.get? name) :
    e.value? vars = e.value? other := by
  induction e with
  | operand value => rfl
  | reference name => exact agree name (List.mem_singleton_self name)
  | unary op inner ih => rw [value?, value?, ih agree]
  | binary op earlier later ihEarlier ihLater =>
    obtain ⟨before, after⟩ := List.forall_mem_append.1 agree
    rw [value?, value?, ihEarlier before, ihLater after]

namespace Meaning

/-- What operators make of values does not depend on the variables. -/
theorem settle_value (vars other : Variables) (count : Option Float)
    (pending : List (Pending (Option Float))) :
    (value other).settle count pending = (value vars).settle count pending := by
  induction pending generalizing count with
  | nil => rfl
  | cons frame rest ih =>
    cases frame with
    | unary op => exact ih _
    | first op => rfl
    | second op first => exact ih _

theorem exhaust_value (vars other : Variables) (count : Option Float)
    (pending : List (Pending (Option Float))) :
    (value other).exhaust count pending = (value vars).exhaust count pending := by
  induction pending generalizing count with
  | nil => rfl
  | cons frame rest ih => cases frame <;> exact ih _

/-- Tokens that are alike are walked over in the same way. -/
theorem walk_value_of_alike {vars other : Variables} {tokens replaced : List Token}
    (alike : List.Forall₂ (Token.Alike vars other) tokens replaced)
    (pending : List (Pending (Option Float))) :
    ((value other).walk replaced pending).1 = ((value vars).walk tokens pending).1 ∧
      ((value other).walk replaced pending).2.length =
        ((value vars).walk tokens pending).2.length := by
  induction alike generalizing pending with
  | nil => exact ⟨exhaust_value vars other _ pending, rfl⟩
  | @cons token replacement rest later same alike ih =>
    -- whatever is no operator is handed on as the value it counts for
    have resumed {count replacing : Option Float} (same : count = replacing) :
        ((value other).resume replacing pending later).1 =
            ((value vars).resume count pending rest).1 ∧
          ((value other).resume replacing pending later).2.length =
            ((value vars).resume count pending rest).2.length := by
      rw [resume, resume, settle_value vars other, same]
      cases (value vars).settle replacing pending with
      | complete result => exact ⟨rfl, alike.length_eq.symm⟩
      | waiting pending => exact ih pending
    cases same with
    | operand count => exact resumed rfl
    | reference same => exact resumed same
    | replaced bound => exact resumed bound
    | operator op =>
      cases op with
      | unary op => exact ih (.unary op :: pending)
      | binary op => exact ih (.first op :: pending)

end Meaning

namespace Program

theorem evaluateUpTo_of_alike {p q : Program} {vars other : Variables}
    (alike : List.Forall₂ (Token.Alike vars other) p.toList q.toList) (stop : Nat) :
    q.evaluateUpTo other stop = p.evaluateUpTo vars stop := by
  have sizes : p.size = q.size := by simpa using alike.length_eq
  have newestFirst := List.forall₂_reverse_iff.1 alike
  have oldest : List.Forall₂ (Token.Alike vars other) (p.oldest stop) (q.oldest stop) := by
    rw [oldest, oldest, sizes]
    exact List.forall₂_drop _ newestFirst
  obtain ⟨found, below⟩ := Meaning.walk_value_of_alike oldest []
  rw [evaluateUpTo, evaluateUpTo, sizes]
  cases walked : (Meaning.value vars).walk (p.oldest stop) [] with
  | mk count rest =>
    cases replaced : (Meaning.value other).walk (q.oldest stop) [] with
    | mk replacing later =>
      rw [walked, replaced] at found below
      cases found
      cases count with
      | none => rfl
      | some value => simp only [show later.length = rest.length from below]

theorem evaluateUpTo_push (p : Program) (vars : Variables) (token : Token) {stop : Nat}
    (within : stop ≤ p.size) :
    (p.push token).evaluateUpTo vars stop = p.evaluateUpTo vars stop := by
  have size : (p.push token).size = p.size + 1 := by simp [push, size]
  have oldest : (p.push token).oldest stop = p.oldest stop := by
    rw [oldest, oldest, size, Nat.succ_sub within]
    rfl
  rw [evaluateUpTo, evaluateUpTo, oldest, size, if_neg (by omega), if_neg (by omega)]

/-! ## Variables that an expression does not refer to -/

theorem evaluateUpTo_of_agree_of_some {p : Program} {vars other : Variables} {style : OperandStyle}
    {stop : Nat}
    (agree : ∀ name, .reference name ∈ p.slice (p.renderUpTo style stop).remainder stop →
      vars.get? name = other.get? name)
    {value : Float} (found : (p.evaluateUpTo vars stop).value = some value) :
    p.evaluateUpTo vars stop = p.evaluateUpTo other stop := by
  have evaluated : p.evaluateUpTo vars stop =
      ⟨some value, (p.evaluateUpTo vars stop).remainder⟩ := by
    rw [← found]
  obtain ⟨e, spells, valued⟩ := exists_spells_of_evaluateUpTo evaluated
  have also : e.value? other = some value := by
    rw [← valued]
    apply e.value?_congr
    intro name mentioned
    refine (agree name ?_).symm
    rw [renderUpTo_of_spells spells, spells.2.2]
    exact (e.reference_mem_tokens_iff name).2 mentioned
  rw [evaluateUpTo_of_spells spells also, evaluated]

theorem evaluateUpTo_eq_of_none {p : Program} {vars : Variables} {stop : Nat}
    (failed : (p.evaluateUpTo vars stop).value = none) :
    p.evaluateUpTo vars stop = ⟨none, stop⟩ := by
  rw [evaluateUpTo] at failed ⊢
  split
  · rfl
  · split
    · simp_all
    · rfl

/-- The tokens that a description takes are all that a value depends on, or its absence. -/
theorem evaluateUpTo_of_agree {p : Program} {vars other : Variables} {style : OperandStyle}
    {stop : Nat}
    (agree : ∀ name, .reference name ∈ p.slice (p.renderUpTo style stop).remainder stop →
      vars.get? name = other.get? name) :
    p.evaluateUpTo vars stop = p.evaluateUpTo other stop := by
  cases found : (p.evaluateUpTo vars stop).value with
  | some value => exact evaluateUpTo_of_agree_of_some agree found
  | none =>
    cases also : (p.evaluateUpTo other stop).value with
    | some value =>
      exact (evaluateUpTo_of_agree_of_some (fun name found => (agree name found).symm) also).symm
    | none => rw [evaluateUpTo_eq_of_none found, evaluateUpTo_eq_of_none also]

end Program

/-! ## Binding -/

/-- A token, and the same with an operand in place of a reference to one variable. -/
def Token.substitute (name : String) (value : Float) : Token → Token
  | reference other => if other = name then operand value else reference other
  | token => token

/-- A token, or the value in place of a reference to a bound variable. -/
inductive Token.Settles (vars : Variables) : Token → Token → Prop where
  | kept (token : Token) : Settles vars token token
  | settled {name : String} {value : Float} (bound : vars.get? name = some value) :
    Settles vars (.reference name) (.operand value)

theorem Token.Settles.alike {vars : Variables} {token settled : Token}
    (settles : Settles vars token settled) : Alike vars vars token settled := by
  cases settles with
  | settled bound => exact .replaced bound
  | kept =>
    cases token with
    | operand value => exact .operand value
    | reference name => exact .reference rfl
    | operator op => exact .operator op

theorem Token.alike_substitute {vars other : Variables} {name : String} {value : Float}
    (bound : vars.get? name = some value)
    (agree : ∀ further, further ≠ name → vars.get? further = other.get? further) (token : Token) :
    Alike vars other token (token.substitute name value) := by
  cases token with
  | operand count => exact .operand count
  | operator op => exact .operator op
  | reference further =>
    rw [substitute]
    split
    · next same => exact .replaced (same ▸ bound)
    · next different => exact .reference (agree further different)

def Program.substitute (p : Program) (name : String) (value : Float) : Program :=
  ⟨p.newestFirst.map (Token.substitute name value)⟩

theorem Program.toList_substitute (p : Program) (name : String) (value : Float) :
    (p.substitute name value).toList = p.toList.map (Token.substitute name value) :=
  List.map_reverse.symm

theorem Program.evaluateUpTo_substitute {p : Program} {vars other : Variables} {name : String}
    {value : Float} (bound : vars.get? name = some value)
    (agree : ∀ further, further ≠ name → vars.get? further = other.get? further) (stop : Nat) :
    (p.substitute name value).evaluateUpTo other stop = p.evaluateUpTo vars stop := by
  apply evaluateUpTo_of_alike
  rw [toList_substitute, List.forall₂_map_right_iff, List.forall₂_same]
  exact fun token _ => Token.alike_substitute bound agree token

/-- References may be replaced by the values of their variables, however many of them, and nothing
changes. A variable may be bound, on its own or by the command that also refers to it, and nothing
changes unless the tokens that a description takes refer to it; in any case this is as good as
replacing each reference to it, whatever the variable is bound to then. -/
theorem Machine.evaluateUpTo_late_bound (m : Machine) (stop : Nat) :
    (∀ settled : Program,
      List.Forall₂ (Token.Settles m.variables) m.program.toList settled.toList →
        settled.evaluateUpTo m.variables stop = m.program.evaluateUpTo m.variables stop) ∧
    ∀ name value bound,
      bound = m.bind name value ∨ bound = m.perform (.set name value) ∧ stop ≤ m.program.size →
        (.reference name ∉ m.program.slice (m.program.renderUpTo m.style stop).remainder stop →
          bound.program.evaluateUpTo bound.variables stop =
            m.program.evaluateUpTo m.variables stop) ∧
        ∀ vars : Variables, (∀ other, other ≠ name → vars.get? other = m.variables.get? other) →
          bound.program.evaluateUpTo bound.variables stop =
            (m.program.substitute name value).evaluateUpTo vars stop := by
  constructor
  · intro settled settles
    exact Program.evaluateUpTo_of_alike (settles.imp fun _ _ => Token.Settles.alike) stop
  · intro name value bound binds
    have evaluated : bound.program.evaluateUpTo bound.variables stop =
        m.program.evaluateUpTo (m.variables.set name value) stop := by
      obtain rfl | ⟨rfl, within⟩ := binds
      · rfl
      · exact m.program.evaluateUpTo_push _ _ within
    rw [evaluated]
    constructor
    · intro absent
      have agree (other : String) (mentioned : .reference other ∈
          m.program.slice (m.program.renderUpTo m.style stop).remainder stop) :
          m.variables.get? other = (m.variables.set name value).get? other := by
        have different : other ≠ name := by
          rintro rfl
          exact absent mentioned
        rw [Variables.get?_set, if_neg different]
      exact (Program.evaluateUpTo_of_agree agree).symm
    · intro vars agree
      apply (Program.evaluateUpTo_substitute _ _ stop).symm
      · rw [Variables.get?_set, if_pos rfl]
      · intro other different
        rw [Variables.get?_set, if_neg different, agree other different]

end StackCalculator
