import Mathlib.Data.List.Induction
import StackCalculator.Machine
import StackCalculator.Proofs.StackMachine

/-! # The description of a program on a stack machine

`TextStack.run` is a plain machine over texts, without any work stack. `describe_eq_join_run` says
that a description lists its final stack, and that this shows every token exactly once: the program
is cut into consecutive segments, and each listed text is made of the texts of the tokens of its
segment, one piece for each, of parentheses, and of marks for gaps.
-/

namespace StackCalculator

/-! ## The machine over texts -/

namespace TextStack

/-- The stack after one more token. A text that is not there is empty. -/
def push (style : OperandStyle) (stack : List String) : Token → List String
  | .operand value => style.write value :: stack
  | .reference name => name :: stack
  | .operator (.unary op) =>
    let (operand, stack) := Meaning.pop "" stack
    (op.symbol ++ "(" ++ operand ++ ")") :: stack
  | .operator (.binary op) =>
    let (first, stack) := Meaning.pop "" stack
    let (second, stack) := Meaning.pop "" stack
    let left := if second = "" then "?" else second
    let right := if isNumeric first ∨ '(' ∈ first.toList then first else "(" ++ first ++ ")"
    (left ++ op.symbol ++ right) :: stack

def run (style : OperandStyle) (tokens : List Token) : List String :=
  tokens.foldl (push style) []

theorem rightOperand_eq (text : String) :
    Description.rightOperand text =
      if isNumeric text ∨ '(' ∈ text.toList then text else "(" ++ text ++ ")" := by
  have same : Description.isBare text = true ↔ isNumeric text ∨ '(' ∈ text.toList := by
    simp [Description.isBare, or_comm]
  by_cases bare : isNumeric text ∨ '(' ∈ text.toList
  · rw [Description.rightOperand, if_pos bare, if_pos (same.2 bare)]
  · rw [Description.rightOperand, if_neg bare, if_neg fun found => bare (same.1 found)]

theorem push_eq_step (style : OperandStyle) (stack : List String) (token : Token) :
    push style stack token = (Meaning.description style).step stack token := by
  have pop (stack : List String) :
      Meaning.pop "" stack = ((Meaning.description style).top stack, stack.tail) :=
    (Meaning.description style).pop_missing stack
  match token with
  | .operand value => rfl
  | .reference name => rfl
  | .operator (.unary op) =>
    simp only [push, pop]
    rfl
  | .operator (.binary op) =>
    simp only [push, pop, ← rightOperand_eq]
    rfl

theorem run_eq_run (style : OperandStyle) (tokens : List Token) :
    run style tokens = (Meaning.description style).run tokens := by
  have same : push style = (Meaning.description style).step := by
    funext stack token
    exact push_eq_step style stack token
  rw [run, same, Meaning.run]

end TextStack

/-! ## Segments of a program -/

/-- Makes of an expression the tokens that belong to it, oldest first. -/
def Meaning.segment : Meaning (List Token) where
  operand value := [.operand value]
  reference name := [.reference name]
  unary op operand := operand ++ [.operator (.unary op)]
  binary op first second := second ++ first ++ [.operator (.binary op)]
  missing := []

theorem Meaning.flatten_run_segment (tokens : List Token) :
    (segment.run tokens).reverse.flatten = tokens := by
  -- an operator takes two segments off the stack, of which either may be empty or not there
  have uncover (stack : List (List Token)) :
      stack.reverse.flatten = stack.tail.reverse.flatten ++ segment.top stack := by
    cases stack with
    | nil => rfl
    | cons entry stack => simp
  have onStep (stack : List (List Token)) (token : Token) :
      (segment.step stack token).reverse.flatten = stack.reverse.flatten ++ [token] := by
    match token with
    | .operand value => simp [step, segment]
    | .reference name => simp [step, segment]
    | .operator (.unary op) =>
      rw [uncover stack]
      simp [step, segment]
    | .operator (.binary op) =>
      rw [uncover stack, uncover stack.tail]
      simp [step, segment]
  induction tokens using List.reverseRecOn with
  | nil => rfl
  | append_singleton tokens token ih => rw [run_concat, onStep, ih]

/-! ## What a text shows -/

inductive Piece where
  | token (token : Token)
  | opening
  | closing
  -- stands where the left operand of a binary operator is missing
  | gap

namespace Piece

/-- The text of a piece; a token has the text that it also has alone. -/
def write (style : OperandStyle) : Piece → String
  | token (.operand value) => style.write value
  | token (.reference name) => name
  | token (.operator op) => op.symbol
  | opening => "("
  | closing => ")"
  | gap => "?"

def token? : Piece → Option Token
  | token shown => some shown
  | _ => none

def text (style : OperandStyle) (pieces : List Piece) : String :=
  String.join (pieces.map (write style))

@[simp] theorem text_nil (style : OperandStyle) : text style [] = "" := rfl

theorem text_append (style : OperandStyle) (pieces more : List Piece) :
    text style (pieces ++ more) = text style pieces ++ text style more := by
  induction pieces with
  | nil => simp [text]
  | cons piece pieces ih =>
    simp only [text, List.cons_append, List.map_cons, String.join_cons] at ih ⊢
    rw [ih, String.append_assoc]

theorem text_cons (style : OperandStyle) (piece : Piece) (pieces : List Piece) :
    text style (piece :: pieces) = piece.write style ++ text style pieces := by
  simp [text]

def left (style : OperandStyle) (pieces : List Piece) : List Piece :=
  if text style pieces = "" then gap :: pieces else pieces

def right (style : OperandStyle) (pieces : List Piece) : List Piece :=
  if Description.isBare (text style pieces) then pieces else opening :: pieces ++ [closing]

theorem text_left (style : OperandStyle) (pieces : List Piece) :
    text style (left style pieces) = Description.leftOperand (text style pieces) := by
  rw [left, Description.leftOperand]
  split
  next empty => rw [text_cons, empty]; rfl
  next => rfl

theorem text_right (style : OperandStyle) (pieces : List Piece) :
    text style (right style pieces) = Description.rightOperand (text style pieces) := by
  rw [right, Description.rightOperand]
  split
  · rfl
  · rw [List.cons_append, text_cons, text_append, ← String.append_assoc]
    rfl

def shown (pieces : List Piece) : List Token :=
  pieces.filterMap token?

@[simp] theorem shown_nil : shown [] = [] := rfl

@[simp] theorem shown_append (pieces more : List Piece) :
    shown (pieces ++ more) = shown pieces ++ shown more :=
  List.filterMap_append

@[simp] theorem shown_token (entry : Token) (pieces : List Piece) :
    shown (token entry :: pieces) = entry :: shown pieces := rfl

@[simp] theorem shown_opening (pieces : List Piece) : shown (opening :: pieces) = shown pieces := rfl

@[simp] theorem shown_closing (pieces : List Piece) : shown (closing :: pieces) = shown pieces := rfl

@[simp] theorem shown_left (style : OperandStyle) (pieces : List Piece) :
    shown (left style pieces) = shown pieces := by
  rw [left]
  split <;> rfl

@[simp] theorem shown_right (style : OperandStyle) (pieces : List Piece) :
    shown (right style pieces) = shown pieces := by
  rw [right]
  split <;> simp

end Piece

/-- The pieces in which the tokens of a segment are shown, each of them once. -/
structure Exhibit where
  pieces : List Piece
  segment : List Token
  once : (Piece.shown pieces).Perm segment

def Meaning.exhibit (style : OperandStyle) : Meaning Exhibit where
  operand value := ⟨[.token (.operand value)], [.operand value], .refl _⟩
  reference name := ⟨[.token (.reference name)], [.reference name], .refl _⟩
  unary op operand :=
    { pieces := .token (.operator (.unary op)) :: .opening :: operand.pieces ++ [.closing]
      segment := operand.segment ++ [.operator (.unary op)]
      once := by
        simp only [List.cons_append, Piece.shown_token, Piece.shown_opening, Piece.shown_append,
          Piece.shown_closing, Piece.shown_nil, List.append_nil]
        exact (operand.once.cons _).trans (List.perm_append_singleton _ _).symm }
  binary op first second :=
    { pieces := Piece.left style second.pieces ++
        .token (.operator (.binary op)) :: Piece.right style first.pieces
      segment := second.segment ++ first.segment ++ [.operator (.binary op)]
      once := by
        simp only [Piece.shown_append, Piece.shown_token, Piece.shown_left, Piece.shown_right,
          List.append_assoc]
        exact second.once.append
          ((first.once.cons _).trans (List.perm_append_singleton _ _).symm) }
  missing := ⟨[], [], .nil⟩

namespace Exhibit

def text (style : OperandStyle) (shown : Exhibit) : String :=
  Piece.text style shown.pieces

theorem carries_text (style : OperandStyle) :
    Meaning.Carries (.exhibit style) (.description style) (text style) where
  operand value := by simp [text, Piece.text, Piece.write, Meaning.exhibit, Meaning.description]
  reference name := by simp [text, Piece.text, Piece.write, Meaning.exhibit, Meaning.description]
  unary op operand := by
    simp only [text, Meaning.exhibit, Meaning.description, List.cons_append, Piece.text_cons,
      Piece.text_append, Piece.text_nil, String.append_empty, ← String.append_assoc]
    rfl
  binary op first second := by
    simp only [text, Meaning.exhibit, Meaning.description, Piece.text_cons, Piece.text_append,
      Piece.text_left, Piece.text_right, ← String.append_assoc]
    rfl
  missing := rfl

theorem carries_segment (style : OperandStyle) :
    Meaning.Carries (.exhibit style) .segment segment where
  operand _ := rfl
  reference _ := rfl
  unary _ _ := rfl
  binary _ _ _ := rfl
  missing := rfl

end Exhibit

/-- A description lists the texts that the plain machine leaves, oldest first. These show every
token of the program exactly once, each in the one text whose segment it belongs to, and next to the
tokens nothing but parentheses and marks for gaps. An empty program has an empty description. -/
theorem describe_eq_join_run (m : Machine) :
    m.describe = ", ".intercalate (TextStack.run m.style m.program.toList).reverse ∧
      (∃ shown : List Exhibit,
        (TextStack.run m.style m.program.toList).reverse = shown.map (Exhibit.text m.style) ∧
          (shown.map Exhibit.segment).flatten = m.program.toList) ∧
      ({ m with program := .empty } : Machine).describe = "" := by
  have texts : (TextStack.run m.style m.program.toList).reverse =
      (Meaning.description m.style).expressions m.program := by
    rw [Meaning.expressions_eq_reverse_run, TextStack.run_eq_run]
  refine ⟨?_, ⟨((Meaning.exhibit m.style).run m.program.toList).reverse, ?_, ?_⟩, ?_⟩
  · rw [texts]
    rfl
  · rw [TextStack.run_eq_run, (Exhibit.carries_text m.style).run_eq_map, List.map_reverse]
  · rw [List.map_reverse, ← (Exhibit.carries_segment m.style).run_eq_map,
      Meaning.flatten_run_segment]
  · rw [Machine.describe, Program.describe, Meaning.expressions_eq_reverse_run]
    rfl

end StackCalculator
