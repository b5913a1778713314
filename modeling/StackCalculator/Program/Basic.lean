import StackCalculator.Token

/-! # Programs

A program is a stack of tokens: tokens are added on top, and everything that is said about a program
is read from the top down. So the tokens are kept newest first.
-/

namespace StackCalculator

structure Program where
  newestFirst : List Token

namespace Program

def empty : Program := ⟨[]⟩

def push (p : Program) (token : Token) : Program := ⟨token :: p.newestFirst⟩

def pushAll (p : Program) (tokens : List Token) : Program := ⟨tokens.reverse ++ p.newestFirst⟩

def toList (p : Program) : List Token := p.newestFirst.reverse

def size (p : Program) : Nat := p.newestFirst.length

def isEmpty (p : Program) : Bool := p.newestFirst.isEmpty

/-- The oldest `stop` tokens, newest first. -/
def oldest (p : Program) (stop : Nat) : List Token :=
  p.newestFirst.drop (p.size - stop)

@[simp] theorem toList_empty : empty.toList = [] := rfl

@[simp] theorem toList_push (p : Program) (token : Token) :
    (p.push token).toList = p.toList ++ [token] := by
  simp [push, toList]

@[simp] theorem toList_pushAll (p : Program) (tokens : List Token) :
    (p.pushAll tokens).toList = p.toList ++ tokens := by
  simp [pushAll, toList]

@[simp] theorem length_toList (p : Program) : p.toList.length = p.size := by
  simp [toList, size]

@[simp] theorem oldest_size (p : Program) : p.oldest p.size = p.newestFirst := by
  simp [oldest]

theorem oldest_eq_reverse_take (p : Program) (stop : Nat) :
    p.oldest stop = (p.toList.take stop).reverse := by
  simp [oldest, toList, size, List.take_reverse]

end Program

end StackCalculator
