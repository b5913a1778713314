import StackCalculator.Binary64.Basic

/-! # Variables

The values that names are bound to. Every table binds the circle constant at the start, and a name
that is bound again has its latest value.
-/

namespace StackCalculator

structure Variables where
  bindings : List (String × Float)

namespace Variables

/-- The double nearest to the circle constant. -/
def circleConstant : Float := Float.ofBits 0x400921FB54442D18

def initial : Variables := ⟨[("π", circleConstant)]⟩

def get? (vars : Variables) (name : String) : Option Float :=
  vars.bindings.lookup name

def contains (vars : Variables) (name : String) : Bool :=
  (vars.get? name).isSome

/-- Binds a name, in place of its earlier value if it had one. -/
def set (vars : Variables) (name : String) (value : Float) : Variables :=
  ⟨(name, value) :: vars.bindings.filter fun binding => binding.1 ≠ name⟩

private theorem lookup_filter_ne (bindings : List (String × Float)) {name other : String}
    (different : other ≠ name) :
    (bindings.filter fun binding => binding.1 ≠ name).lookup other = bindings.lookup other := by
  induction bindings with
  | nil => rfl
  | cons binding rest ih =>
    obtain ⟨bound, value⟩ := binding
    by_cases same : bound = name
    · -- the entry that goes is not the one looked for
      have unequal : (other == bound) = false := by simpa [same] using different
      rw [List.filter_cons_of_neg (by simpa using same), ih, List.lookup_cons, unequal]
    · rw [List.filter_cons_of_pos (by simpa using same), List.lookup_cons, List.lookup_cons, ih]

theorem get?_set (vars : Variables) (name : String) (value : Float) (other : String) :
    (vars.set name value).get? other = if other = name then some value else vars.get? other := by
  by_cases same : other = name
  · simp [get?, set, same]
  · have unequal : (other == name) = false := by simpa using same
    rw [if_neg same, get?, set, List.lookup_cons, unequal]
    exact lookup_filter_ne vars.bindings same

theorem contains_set (vars : Variables) (name : String) (value : Float) (other : String) :
    (vars.set name value).contains other = (other == name || vars.contains other) := by
  by_cases same : other = name <;> simp [contains, get?_set, same]

end Variables

end StackCalculator
