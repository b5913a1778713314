import StackCalculator.Proofs.Infix.Grouping

/-! # Reading texts

The lexemes of a text are those of its expression (`lexemes?_text`), if the text goes on in a way
that ends the last of them. From the left, they read as the expression that `readAs` regroups
(`foldlM_lexemes`). So a reader finds just this in a text (`read?_text`).
-/

namespace StackCalculator

namespace Infix

/-! ## Cutting off one lexeme -/

/-- What can follow an expression: a closing parenthesis, an operator, or nothing. -/
def Ends (rest : List Char) : Prop :=
  ∀ c ∈ rest.head?, c ∈ ')' :: symbols

theorem ends_nil : Ends [] := by
  intro c member
  cases member

theorem ends_closing (rest : List Char) : Ends (')' :: rest) := by
  intro c member
  cases member
  exact List.mem_cons_self

theorem ends_symbol {s : Char} (symbol : s ∈ symbols) (rest : List Char) : Ends (s :: rest) := by
  intro c member
  cases member
  exact List.mem_cons_of_mem _ symbol

theorem Ends.not_isNumberPart {rest : List Char} (ends : Ends rest) :
    ∀ c ∈ rest.head?, ¬isNumberPart c := by
  intro c member
  obtain rfl | symbol := List.mem_cons.1 (ends c member)
  · decide
  · obtain rfl | rfl | rfl | rfl := eq_of_mem_symbols symbol <;> decide

theorem Ends.not_isNamePart {rest : List Char} (ends : Ends rest) :
    ∀ c ∈ rest.head?, ¬Script.isNamePart c := by
  intro c member
  obtain rfl | symbol := List.mem_cons.1 (ends c member)
  · decide +kernel
  · obtain rfl | rfl | rfl | rfl := eq_of_mem_symbols symbol <;> decide +kernel

theorem lexemes?_opening (rest : List Char) :
    lexemes? ('(' :: rest) = (lexemes? rest).map (.opening :: ·) :=
  lexemes?_cons rfl

theorem lexemes?_closing (rest : List Char) :
    lexemes? (')' :: rest) = (lexemes? rest).map (.closing :: ·) :=
  lexemes?_cons rfl

theorem lexemes?_number {c : Char} {others rest : List Char} (first : c.isDigit ∨ c = '-')
    (all : ∀ d ∈ others, isNumberPart d) {value : Float}
    (read : readFinite? (c :: others) = some value) (ends : Ends rest) :
    lexemes? (c :: others ++ rest) = (lexemes? rest).map (.number value :: ·) := by
  obtain ⟨taken, dropped⟩ := takeWhile_append_of_stop all ends.not_isNumberPart
  have noOpening : c ≠ '(' := by
    rintro rfl
    simp at first
  have noClosing : c ≠ ')' := by
    rintro rfl
    simp at first
  have number : (c.isDigit || c == '-') = true := by simpa using first
  rw [List.cons_append]
  apply lexemes?_cons
  rw [lexeme?, if_neg noOpening, if_neg noClosing, if_pos number, taken, dropped, read]
  rfl

theorem lexeme?_word {c : Char} {parts rest : List Char} (start : Script.isNameStart c)
    (all : ∀ d ∈ parts, Script.isNamePart d) (stop : ∀ d ∈ rest.head?, ¬Script.isNamePart d) :
    lexeme? c (parts ++ rest) = nameLexeme? (String.ofList (c :: parts)) rest := by
  obtain ⟨taken, dropped⟩ := takeWhile_append_of_stop all stop
  have notNumber : ¬(c.isDigit || c == '-') = true := by
    simp [Script.isDigit_of_isNameStart start,
      Script.ne_of_isNameStart start (show '-'.toNat < 0x41 by decide)]
  rw [lexeme?, if_neg (Script.ne_of_isNameStart start (by decide)),
    if_neg (Script.ne_of_isNameStart start (by decide)), if_neg notNumber, if_pos start, taken,
    dropped]

theorem lexemes?_name {name : String} (spelled : Script.isName name.toList) {rest : List Char}
    (ends : Ends rest) :
    lexemes? (name.toList ++ rest) = (lexemes? rest).map (.name name :: ·) := by
  obtain ⟨c, parts, same, start, all⟩ := Script.exists_of_isName spelled
  have lexeme : nameLexeme? name rest = some (.name name, rest) := by
    unfold nameLexeme?
    split
    next => exact absurd (ends '(' rfl) (by decide)
    next => rfl
  rw [same, List.cons_append]
  apply lexemes?_cons
  rw [lexeme?_word start all ends.not_isNamePart, ← same, String.ofList_toList, lexeme]

theorem lexeme?_symbol {s : Char} (member : s ∈ '√' :: symbols) (rest : List Char) :
    lexeme? s rest = symbolLexeme? (String.singleton s) rest := by
  have noStart : ¬Script.isNameStart s := by
    obtain rfl | symbol := List.mem_cons.1 member
    · decide +kernel
    · obtain rfl | rfl | rfl | rfl := eq_of_mem_symbols symbol <;> decide +kernel
  have noOther : s ≠ '(' ∧ s ≠ ')' ∧ ¬(s.isDigit || s == '-') = true := by
    obtain rfl | symbol := List.mem_cons.1 member
    · decide
    · obtain rfl | rfl | rfl | rfl := eq_of_mem_symbols symbol <;> decide
  rw [lexeme?, if_neg noOther.1, if_neg noOther.2.1, if_neg noOther.2.2, if_neg noStart]

theorem lexemes?_function {op : UnaryOperator}
    (known : Operators.builtin.get? op.symbol = some (.unary op)) (rest : List Char) :
    lexemes? (op.symbol.toList ++ '(' :: rest) = (lexemes? rest).map (.function op :: ·) := by
  have found : function? op.symbol = some op := by rw [function?, known]
  have noPart : ∀ d ∈ ('(' :: rest).head?, ¬Script.isNamePart d := by
    rintro d ⟨⟩
    decide +kernel
  have word (spelled : Script.isName op.symbol.toList) :
      lexemes? (op.symbol.toList ++ '(' :: rest) = (lexemes? rest).map (.function op :: ·) := by
    obtain ⟨_, _, same, start, all⟩ := Script.exists_of_isName spelled
    rw [same, List.cons_append]
    apply lexemes?_cons
    rw [lexeme?_word start all noPart, ← same, String.ofList_toList, nameLexeme?, found]
    rfl
  obtain symbol | symbol | symbol := function_symbol known
  · exact word (by rw [symbol]; decide +kernel)
  · exact word (by rw [symbol]; decide +kernel)
  · have lexeme : symbolLexeme? "√" ('(' :: rest) = some (.function op, rest) := by
      rw [symbol] at known
      unfold symbolLexeme?
      rw [known]
      rfl
    rw [symbol]
    apply lexemes?_cons
    exact (lexeme?_symbol List.mem_cons_self _).trans lexeme

theorem lexemes?_operator {op : BinaryOperator}
    (known : Operators.builtin.get? op.symbol = some (.binary op)) (rest : List Char) :
    lexemes? (op.symbol.toList ++ rest) = (lexemes? rest).map (.operator op :: ·) := by
  obtain ⟨s, member, symbol⟩ := exists_symbol known
  rw [symbol] at known
  have lexeme : symbolLexeme? (String.singleton s) rest = some (.operator op, rest) := by
    unfold symbolLexeme?
    rw [known]
  rw [symbol, String.toList_singleton, List.singleton_append]
  apply lexemes?_cons
  rw [lexeme?_symbol (List.mem_cons_of_mem _ member), lexeme]

end Infix

namespace Expression

open Infix (Ends Waiting Level Reading Lexeme lexemes? read?)

def lexemes : Expression → List Lexeme
  | operand value => [.number value]
  | reference name => [.name name]
  | unary op inner => .function op :: (inner.lexemes ++ [.closing])
  | binary op earlier later =>
    earlier.lexemes ++ .operator op ::
      if Description.isBare later.text then later.lexemes
      else .opening :: (later.lexemes ++ [.closing])

/-! ## The lexemes of a text -/

theorem lexemes?_text_operand {value : Float} (finite : Binary64.isFinite value)
    {rest : List Char} (ends : Ends rest) :
    lexemes? ((operand value).text.toList ++ rest) =
      (lexemes? rest).map (.number value :: ·) := by
  have read := readFinite?_chars finite
  rw [← toList_text_operand] at read
  obtain ⟨digits, unsigned, same | same⟩ := exists_text_operand finite
  · obtain ⟨c, others, rfl, digit⟩ := unsigned.exists_cons
    rw [same] at read ⊢
    refine Infix.lexemes?_number (.inl digit) (fun d member => ?_) read ends
    simpa [Infix.isNumberPart] using unsigned.isDigit_or_point (List.mem_cons_of_mem _ member)
  · rw [same] at read ⊢
    refine Infix.lexemes?_number (.inr rfl) (fun d member => ?_) read ends
    simpa [Infix.isNumberPart] using unsigned.isDigit_or_point member

theorem lexemes?_text {e : Expression} (formed : e.WellFormed) {rest : List Char}
    (ends : Ends rest) :
    lexemes? (e.text.toList ++ rest) = (lexemes? rest).map (e.lexemes ++ ·) := by
  induction e generalizing rest with
  | operand value => exact lexemes?_text_operand formed ends
  | reference name => exact Infix.lexemes?_name formed ends
  | unary op inner ih =>
    rw [toList_text_unary, List.append_assoc, List.cons_append, List.append_assoc,
      List.singleton_append, Infix.lexemes?_function formed.1, ih formed.2 (Infix.ends_closing _),
      Infix.lexemes?_closing]
    cases lexemes? rest <;> simp [lexemes]
  | binary op earlier later ihEarlier ihLater =>
    obtain ⟨s, member, symbol⟩ := Infix.exists_symbol formed.1
    have follows (after : List Char) : Ends (op.symbol.toList ++ after) := by
      rw [symbol, String.toList_singleton]
      exact Infix.ends_symbol member after
    rw [toList_text_binary formed.2.1, List.append_assoc, List.append_assoc,
      ihEarlier formed.2.1 (follows _), Infix.lexemes?_operator formed.1,
      Description.toList_rightOperand, lexemes]
    split
    · rw [ihLater formed.2.2 ends]
      cases lexemes? rest <;> simp
    · rw [List.cons_append, List.append_assoc, List.singleton_append, Infix.lexemes?_opening,
        ihLater formed.2.2 (Infix.ends_closing _), Infix.lexemes?_closing]
      cases lexemes? rest <;> simp

/-! ## Reading from the left -/

/-- From the left, the lexemes of an expression complete what `readAs` makes of it. -/
theorem foldlM_lexemes (e : Expression) (waiting : Waiting) (outer : List Level) :
    e.lexemes.foldlM Reading.step? (.expecting waiting outer) =
      some (.complete (readAs waiting e) outer) := by
  induction e generalizing waiting outer with
  | operand value => rfl
  | reference name => rfl
  | unary op inner ih =>
    simp only [lexemes, List.foldlM_cons, List.foldlM_append, Reading.step?, Option.bind_eq_bind,
      Option.bind_some, ih]
    rfl
  | binary op earlier later ihEarlier ihLater =>
    rw [lexemes, List.foldlM_append, ihEarlier, readAs]
    split
    · exact ihLater (some (readAs waiting earlier, op)) outer
    · simp only [List.foldlM_cons, List.foldlM_append, Reading.step?, Option.bind_eq_bind,
        Option.bind_some, ihLater]
      rfl

theorem read?_text {e : Expression} (formed : e.WellFormed) :
    read? e.text.toList = some (readAs none e) := by
  have cut : lexemes? e.text.toList = some e.lexemes := by
    have whole := lexemes?_text formed Infix.ends_nil
    rw [Infix.lexemes?_nil, List.append_nil, Option.map_some, List.append_nil] at whole
    exact whole
  rw [read?, cut]
  simp only [Option.bind_eq_bind, Option.bind_some, foldlM_lexemes]

end Expression

end StackCalculator
