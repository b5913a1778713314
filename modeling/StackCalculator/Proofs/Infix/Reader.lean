import StackCalculator.Operand
import StackCalculator.Script.Word
import StackCalculator.Proofs.Expression

/-! # Reading infix notation

A reader for the notation of descriptions. All binary operators bind alike and from the left,
parentheses group, a function stands in front of its operand in parentheses, and a number may have a
minus in front. `lexeme?` cuts one lexeme off a text, `Reading.step?` takes one lexeme from the left,
and `read?` is the expression that a whole text stands for. `pieces` cuts a list of expressions apart.
-/

namespace StackCalculator.Infix

/-! ## Lexemes -/

inductive Lexeme where
  | number (value : Float)
  | name (name : String)
  -- a function with the parenthesis that opens its operand
  | function (op : UnaryOperator)
  | opening
  | closing
  | operator (op : BinaryOperator)

def isNumberPart (c : Char) : Bool :=
  c.isDigit || c == '.'

def function? (name : String) : Option UnaryOperator :=
  match Operators.builtin.get? name with
  | some (.unary op) => some op
  | _ => none

/-- The lexeme of a name: a function if a parenthesis follows, and a variable otherwise. -/
def nameLexeme? (name : String) : List Char → Option (Lexeme × List Char)
  | '(' :: inner => (function? name).map fun op => (.function op, inner)
  | after => some (.name name, after)

/-- The lexeme of a symbol: a binary operator, or a function if a parenthesis follows. -/
def symbolLexeme? (symbol : String) (rest : List Char) : Option (Lexeme × List Char) :=
  match Operators.builtin.get? symbol, rest with
  | some (.binary op), rest => some (.operator op, rest)
  | some (.unary op), '(' :: inner => some (.function op, inner)
  | _, _ => none

def lexeme? (c : Char) (rest : List Char) : Option (Lexeme × List Char) :=
  if c = '(' then some (.opening, rest)
  else if c = ')' then some (.closing, rest)
  else if c.isDigit || c == '-' then
    (readFinite? (c :: rest.takeWhile isNumberPart)).map fun value =>
      (.number value, rest.dropWhile isNumberPart)
  else if Script.isNameStart c then
    nameLexeme? (String.ofList (c :: rest.takeWhile Script.isNamePart))
      (rest.dropWhile Script.isNamePart)
  else symbolLexeme? (String.singleton c) rest

theorem length_nameLexeme?_le {name : String} {rest after : List Char} {lexeme : Lexeme}
    (found : nameLexeme? name rest = some (lexeme, after)) : after.length ≤ rest.length := by
  unfold nameLexeme? at found
  split at found
  next inner =>
    obtain ⟨op, -, same⟩ := Option.map_eq_some_iff.1 found
    cases same
    simp
  next =>
    cases found
    exact Nat.le_refl _

theorem length_symbolLexeme?_le {symbol : String} {rest after : List Char} {lexeme : Lexeme}
    (found : symbolLexeme? symbol rest = some (lexeme, after)) : after.length ≤ rest.length := by
  unfold symbolLexeme? at found
  split at found
  · cases found; exact Nat.le_refl _
  · cases found; simp
  · cases found

theorem length_lexeme?_le {c : Char} {rest after : List Char} {lexeme : Lexeme}
    (found : lexeme? c rest = some (lexeme, after)) : after.length ≤ rest.length := by
  have dropped (p : Char → Bool) : (rest.dropWhile p).length ≤ rest.length :=
    (List.dropWhile_sublist p).length_le
  rw [lexeme?] at found
  split at found
  · cases found; exact Nat.le_refl _
  split at found
  · cases found; exact Nat.le_refl _
  split at found
  · obtain ⟨value, -, same⟩ := Option.map_eq_some_iff.1 found
    cases same
    exact dropped _
  split at found
  · exact Nat.le_trans (length_nameLexeme?_le found) (dropped _)
  · exact length_symbolLexeme?_le found

def lexemes? : List Char → Option (List Lexeme)
  | [] => some []
  | c :: rest =>
    match _found : lexeme? c rest with
    | some (lexeme, after) => (lexemes? after).map (lexeme :: ·)
    | none => none
termination_by cs => cs.length
decreasing_by exact Nat.lt_succ_of_le (length_lexeme?_le _found)

theorem lexemes?_nil : lexemes? [] = some [] := by
  rw [lexemes?]

theorem lexemes?_cons {c : Char} {rest after : List Char} {lexeme : Lexeme}
    (found : lexeme? c rest = some (lexeme, after)) :
    lexemes? (c :: rest) = (lexemes? after).map (lexeme :: ·) := by
  rw [lexemes?]
  split
  next lexeme' after' found' =>
    rw [found] at found'
    cases found'
    rfl
  next none =>
    rw [found] at none
    cases none

/-! ## Left to right -/

/-- A binary operator with its left operand waits for its right one. -/
abbrev Waiting := Option (Expression × BinaryOperator)

def Waiting.join : Waiting → Expression → Expression
  | none, e => e
  | some (left, op), e => .binary op left e

/-- A parenthesis that is open: what waits outside, and the function in front. -/
structure Level where
  waiting : Waiting
  function : Option UnaryOperator

def Level.close (level : Level) (e : Expression) : Expression :=
  match level.function with
  | some op => level.waiting.join (.unary op e)
  | none => level.waiting.join e

inductive Reading where
  -- an operand must follow
  | expecting (waiting : Waiting) (outer : List Level)
  -- an operator, a closing parenthesis or the end must follow
  | complete (e : Expression) (outer : List Level)

def Reading.step? : Reading → Lexeme → Option Reading
  | expecting waiting outer, .number value => some (complete (waiting.join (.operand value)) outer)
  | expecting waiting outer, .name name => some (complete (waiting.join (.reference name)) outer)
  | expecting waiting outer, .function op => some (expecting none (⟨waiting, some op⟩ :: outer))
  | expecting waiting outer, .opening => some (expecting none (⟨waiting, none⟩ :: outer))
  | complete e outer, .operator op => some (expecting (some (e, op)) outer)
  | complete e (level :: outer), .closing => some (complete (level.close e) outer)
  | _, _ => none

def read? (text : List Char) : Option Expression := do
  let lexemes ← lexemes? text
  match ← lexemes.foldlM Reading.step? (.expecting none []) with
  | .complete e [] => some e
  | _ => none

/-! ## Lists of expressions -/

/-- The pieces of a text between its commas with a space behind. -/
def pieces : List Char → List (List Char)
  | [] => [[]]
  | ',' :: ' ' :: rest => [] :: pieces rest
  | c :: rest =>
    match pieces rest with
    | [] => [[c]]
    | piece :: more => (c :: piece) :: more

theorem pieces_ne_nil (cs : List Char) : pieces cs ≠ [] := by
  fun_cases pieces cs <;> simp_all

theorem pieces_cons {c : Char} (other : c ≠ ',') (rest : List Char) :
    ∃ piece more, pieces rest = piece :: more ∧ pieces (c :: rest) = (c :: piece) :: more := by
  obtain ⟨piece, more, found⟩ := List.exists_cons_of_ne_nil (pieces_ne_nil rest)
  refine ⟨piece, more, found, ?_⟩
  rw [pieces.eq_def]
  split
  next => simp_all
  next => simp_all
  next => simp_all

theorem pieces_of_not_mem {text : List Char} (none : ',' ∉ text) : pieces text = [text] := by
  induction text with
  | nil => rfl
  | cons c rest ih =>
    rw [List.mem_cons, not_or] at none
    obtain ⟨piece, more, found, cut⟩ := pieces_cons (Ne.symm none.1) rest
    rw [ih none.2] at found
    cases found
    exact cut

theorem pieces_append {text : List Char} (none : ',' ∉ text) (rest : List Char) :
    pieces (text ++ ',' :: ' ' :: rest) = text :: pieces rest := by
  induction text with
  | nil => rw [List.nil_append, pieces]
  | cons c text ih =>
    rw [List.mem_cons, not_or] at none
    obtain ⟨piece, more, found, cut⟩ := pieces_cons (Ne.symm none.1) (text ++ ',' :: ' ' :: rest)
    rw [ih none.2] at found
    cases found
    exact cut

theorem pieces_intercalate {texts : List (List Char)} (nonempty : texts ≠ [])
    (none : ∀ text ∈ texts, ',' ∉ text) :
    pieces ([',', ' '].intercalate texts) = texts := by
  induction texts with
  | nil => exact absurd rfl nonempty
  | cons text rest ih =>
    have first := none text (by simp)
    cases rest with
    | nil => rw [List.intercalate_singleton, pieces_of_not_mem first]
    | cons next rest =>
      rw [List.intercalate_cons_cons, List.append_assoc, List.cons_append, List.cons_append,
        List.nil_append, pieces_append first]
      rw [ih (by simp) fun text member => none text (by simp [member])]

end StackCalculator.Infix
