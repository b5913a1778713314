import StackCalculator.Program.Description
import StackCalculator.Script.Word
import StackCalculator.Proofs.Decimal.ReadBack
import StackCalculator.Proofs.Expression

/-! # The text of an expression

`Expression.text` is what a description in full shows of one expression. If its operands are finite,
its variables have names as scripts spell them, and its operators are built in, then no comma is in
its text (`comma_not_mem_text`), and a binary expression is no number, so that it stands bare only
with a parenthesis in its text (`isBare_text_iff`).
-/

namespace StackCalculator

/-! ## Symbols and names -/

namespace Infix

def symbols : List Char :=
  ['×', '÷', '+', '−']

theorem eq_of_mem_symbols {s : Char} (symbol : s ∈ symbols) :
    s = '×' ∨ s = '÷' ∨ s = '+' ∨ s = '−' := by
  simpa [symbols] using symbol

theorem builtin_known :
    Operators.builtin.known =
      [.unary ⟨"cos", Float.cos⟩,
        .unary ⟨"sin", Float.sin⟩,
        .unary ⟨"√", Float.sqrt⟩,
        .binary ⟨"−", fun first second => second - first⟩,
        .binary ⟨"+", fun first second => first + second⟩,
        .binary ⟨"÷", fun first second => second / first⟩,
        .binary ⟨"×", fun first second => first * second⟩] := rfl

theorem exists_symbol {op : BinaryOperator}
    (known : Operators.builtin.get? op.symbol = some (.binary op)) :
    ∃ s ∈ symbols, op.symbol = String.singleton s := by
  have member := List.mem_of_find?_eq_some known
  rw [builtin_known] at member
  simp only [List.mem_cons, reduceCtorEq, Operator.binary.injEq, List.not_mem_nil, or_false,
    false_or] at member
  obtain rfl | rfl | rfl | rfl := member
  · exact ⟨'−', by simp [symbols], rfl⟩
  · exact ⟨'+', by simp [symbols], rfl⟩
  · exact ⟨'÷', by simp [symbols], rfl⟩
  · exact ⟨'×', by simp [symbols], rfl⟩

theorem function_symbol {op : UnaryOperator}
    (known : Operators.builtin.get? op.symbol = some (.unary op)) :
    op.symbol = "cos" ∨ op.symbol = "sin" ∨ op.symbol = "√" := by
  have member := List.mem_of_find?_eq_some known
  rw [builtin_known] at member
  simp only [List.mem_cons, reduceCtorEq, Operator.unary.injEq, List.not_mem_nil, or_false] at member
  obtain rfl | rfl | rfl := member
  · exact .inl rfl
  · exact .inr (.inl rfl)
  · exact .inr (.inr rfl)

end Infix

/-! ## Texts that are not numbers -/

namespace Numeral

theorem splitFraction_symbol {s : Char} (symbol : s ∈ Infix.symbols) (rest : List Char) :
    splitFraction (s :: rest) = ([], s :: rest) := by
  unfold splitFraction
  split
  next same =>
    cases same
    exact absurd symbol (by decide)
  next => rfl

theorem powerOfTen?_symbol {s : Char} (symbol : s ∈ Infix.symbols) (rest : List Char) :
    powerOfTen? (s :: rest) = none := by
  rw [powerOfTen?, if_neg]
  rintro (rfl | rfl) <;> exact absurd symbol (by decide)

theorem isDigit_of_mem_symbols {s : Char} (symbol : s ∈ Infix.symbols) : ¬s.isDigit := by
  obtain rfl | rfl | rfl | rfl := Infix.eq_of_mem_symbols symbol <;> decide

theorem decimal?_unsigned_symbol {digits : List Char} (unsigned : Unsigned digits) {s : Char}
    (symbol : s ∈ Infix.symbols) (rest : List Char) : decimal? (digits ++ s :: rest) = none := by
  have stops := isDigit_of_mem_symbols symbol
  obtain ⟨whole, fraction, -, inWhole, inFraction, rfl | rfl⟩ := unsigned
  · have dropped : (digits ++ s :: rest).dropWhile Char.isDigit = s :: rest := by
      rw [List.dropWhile_append_of_pos inWhole, List.dropWhile_cons_of_neg stops]
    simp [decimal?, dropped, splitFraction_symbol symbol, powerOfTen?_symbol symbol]
  · rw [List.append_assoc, List.cons_append]
    have dropped : (whole ++ '.' :: (fraction ++ s :: rest)).dropWhile Char.isDigit =
        '.' :: (fraction ++ s :: rest) := by
      rw [List.dropWhile_append_of_pos inWhole, List.dropWhile_cons_of_neg (by decide)]
    have droppedMore : (fraction ++ s :: rest).dropWhile Char.isDigit = s :: rest := by
      rw [List.dropWhile_append_of_pos inFraction, List.dropWhile_cons_of_neg stops]
    simp [decimal?, dropped, droppedMore, splitFraction, powerOfTen?_symbol symbol]

theorem splitSign_of_isNameStart {c : Char} (start : Script.isNameStart c) (rest : List Char) :
    splitSign (c :: rest) = (false, c :: rest) := by
  unfold splitSign
  split
  next same =>
    cases same
    exact absurd rfl (Script.ne_of_isNameStart start (by decide))
  next same =>
    cases same
    exact absurd rfl (Script.ne_of_isNameStart start (by decide))
  next => rfl

theorem decimal?_of_isNameStart {c : Char} (start : Script.isNameStart c) (rest : List Char) :
    decimal? (c :: rest) = none := by
  have notDigit := Script.isDigit_of_isNameStart start
  have fraction : splitFraction (c :: rest) = ([], c :: rest) := by
    unfold splitFraction
    split
    next same =>
      cases same
      exact absurd rfl (Script.ne_of_isNameStart start (by decide))
    next => rfl
  simp [decimal?, notDigit, fraction]

theorem word?_of_mem {s : Char} (symbol : s ∈ Infix.symbols) {cs : List Char} (member : s ∈ cs)
    (negative : Bool) : word? negative cs = none := by
  have kept : s.toLower = s := by
    obtain rfl | rfl | rfl | rfl := Infix.eq_of_mem_symbols symbol <;> rfl
  have lower : s ∈ cs.map Char.toLower := List.mem_map.2 ⟨s, member, kept⟩
  have apart {word : List Char} (letters : ∀ c ∈ word, c ∉ Infix.symbols) :
      cs.map Char.toLower ≠ word := by
    rintro rfl
    exact letters s lower symbol
  have noInf := (apart : _ → _ ≠ ['i', 'n', 'f']) (by simp [Infix.symbols])
  have noInfinity := (apart : _ → _ ≠ ['i', 'n', 'f', 'i', 'n', 'i', 't', 'y']) (by simp [Infix.symbols])
  have noNan := (apart : _ → _ ≠ ['n', 'a', 'n']) (by simp [Infix.symbols])
  simp [word?, noInf, noInfinity, noNan]

end Numeral

namespace Expression

/-! ## Texts -/

def text (e : Expression) : String :=
  e.fold (Meaning.description .exact)

/-- Finite operands, names as scripts spell them, and built-in operators. -/
def WellFormed : Expression → Prop
  | operand value => Binary64.isFinite value
  | reference name => Script.isName name.toList
  | unary op inner => Operators.builtin.get? op.symbol = some (.unary op) ∧ inner.WellFormed
  | binary op earlier later =>
    Operators.builtin.get? op.symbol = some (.binary op) ∧ earlier.WellFormed ∧ later.WellFormed

def isBinary : Expression → Bool
  | binary .. => true
  | _ => false

theorem toList_text_operand (value : Float) :
    (operand value).text.toList = Layout.plain.chars value :=
  String.toList_ofList

theorem toList_text_unary (op : UnaryOperator) (inner : Expression) :
    (unary op inner).text.toList = op.symbol.toList ++ '(' :: (inner.text.toList ++ [')']) :=
  Meaning.toList_description_unary .exact op inner.text

theorem exists_text_operand {value : Float} (finite : Binary64.isFinite value) :
    ∃ digits, Unsigned digits ∧
      ((operand value).text.toList = digits ∨ (operand value).text.toList = '-' :: digits) := by
  refine ⟨_, Layout.unsigned_magnitude (Binary64.isFinite_iff.1 finite), ?_⟩
  rw [toList_text_operand, Layout.plain_chars_of_isFinite finite]
  cases Binary64.isNegative value with
  | true => exact .inr rfl
  | false => exact .inl rfl

theorem text_ne_empty {e : Expression} (formed : e.WellFormed) : e.text ≠ "" := by
  intro empty
  have none : e.text.toList = [] := by rw [empty]; rfl
  cases e with
  | operand value =>
    obtain ⟨digits, unsigned, same | same⟩ := exists_text_operand formed
    · obtain ⟨c, rest, rfl, -⟩ := unsigned.exists_cons
      simp [same] at none
    · simp [same] at none
  | reference name =>
    obtain ⟨c, rest, same, -⟩ := Script.exists_of_isName formed
    have name_nil : name.toList = [] := none
    rw [same] at name_nil
    cases name_nil
  | unary op inner => simp [toList_text_unary] at none
  | binary op earlier later =>
    obtain ⟨s, -, symbol⟩ := Infix.exists_symbol formed.1
    simp [text, fold, Meaning.description, symbol] at none

theorem toList_text_binary {op : BinaryOperator} {earlier : Expression}
    (formed : earlier.WellFormed) (later : Expression) :
    (binary op earlier later).text.toList = earlier.text.toList ++
      (op.symbol.toList ++ (Description.rightOperand later.text).toList) := by
  refine (Meaning.toList_description_binary .exact op later.text earlier.text).trans ?_
  rw [Description.leftOperand, if_neg (text_ne_empty formed)]

theorem comma_not_mem_text {e : Expression} (formed : e.WellFormed) : ',' ∉ e.text.toList := by
  induction e with
  | operand value =>
    obtain ⟨digits, unsigned, same | same⟩ := exists_text_operand formed <;>
    · intro comma
      have inDigits : ',' ∈ digits := by simpa [same] using comma
      obtain digit | point := unsigned.isDigit_or_point inDigits
      · cases digit
      · cases point
  | reference name =>
    obtain ⟨c, rest, same, start, parts⟩ := Script.exists_of_isName formed
    show ',' ∉ name.toList
    rw [same, List.mem_cons, not_or]
    refine ⟨(Script.ne_of_isNameStart start (by decide)).symm, fun comma => ?_⟩
    have noPart : Script.isNamePart ',' = false := by decide +kernel
    rw [parts _ comma] at noPart
    cases noPart
  | unary op inner ih =>
    rw [toList_text_unary]
    have noComma := ih formed.2
    obtain symbol | symbol | symbol := Infix.function_symbol formed.1 <;>
      simp [symbol, noComma]
  | binary op earlier later ihEarlier ihLater =>
    have first := ihEarlier formed.2.1
    have second := ihLater formed.2.2
    obtain ⟨s, member, symbol⟩ := Infix.exists_symbol formed.1
    have apart : ',' ≠ s := by
      rintro rfl
      exact absurd member (by decide)
    rw [toList_text_binary formed.2.1, Description.toList_rightOperand]
    split <;> simp [symbol, first, second, apart]

/-! ## The text of a binary expression is not a number -/

/-- A number that may have a minus in front, or a name. -/
def Front (cs : List Char) : Prop :=
  (∃ digits, Unsigned digits ∧ (cs = digits ∨ cs = '-' :: digits)) ∨ Script.isName cs

theorem readFinite?_front {front : List Char} (atFront : Front front) {s : Char}
    (symbol : s ∈ Infix.symbols) (rest : List Char) : readFinite? (front ++ s :: rest) = none := by
  have noWord (negative : Bool) (cs : List Char) :
      Numeral.word? negative (cs ++ s :: rest) = none :=
    Numeral.word?_of_mem symbol (by simp) negative
  rw [readFinite?, Numeral.ofChars?]
  obtain ⟨digits, unsigned, rfl | rfl⟩ | spelled := atFront
  · obtain ⟨c, more, rfl, digit⟩ := unsigned.exists_cons
    rw [List.cons_append, Numeral.splitSign_of_isDigit digit, ← List.cons_append]
    simp only [Numeral.decimal?_unsigned_symbol unsigned symbol, noWord, Option.bind_none]
  · simp only [List.cons_append, Numeral.splitSign,
      Numeral.decimal?_unsigned_symbol unsigned symbol, noWord, Option.bind_none]
  · obtain ⟨c, more, rfl, start, -⟩ := Script.exists_of_isName spelled
    rw [List.cons_append, Numeral.splitSign_of_isNameStart start]
    simp only [Numeral.decimal?_of_isNameStart start]
    rw [← List.cons_append, noWord]
    rfl

/-- Without parentheses, the text of a binary expression begins with a number or a name and an
operator behind it. -/
theorem exists_front {op : BinaryOperator} {earlier later : Expression}
    (formed : (binary op earlier later).WellFormed)
    (noParen : '(' ∉ (binary op earlier later).text.toList) :
    ∃ front s rest, Front front ∧ s ∈ Infix.symbols ∧
      (binary op earlier later).text.toList = front ++ s :: rest := by
  induction earlier generalizing op later with
  | operand value =>
    obtain ⟨s, member, symbol⟩ := Infix.exists_symbol formed.1
    refine ⟨_, s, (Description.rightOperand later.text).toList,
      .inl (exists_text_operand formed.2.1), member, ?_⟩
    rw [toList_text_binary formed.2.1, symbol, String.toList_singleton]
    rfl
  | reference name =>
    obtain ⟨s, member, symbol⟩ := Infix.exists_symbol formed.1
    refine ⟨name.toList, s, (Description.rightOperand later.text).toList, .inr formed.2.1, member,
      ?_⟩
    rw [toList_text_binary formed.2.1, symbol, String.toList_singleton]
    rfl
  | unary inner =>
    rw [toList_text_binary formed.2.1, toList_text_unary] at noParen
    simp at noParen
  | binary inner first second ih =>
    rw [toList_text_binary formed.2.1] at noParen ⊢
    obtain ⟨front, s, rest, atFront, member, same⟩ :=
      ih formed.2.1 fun paren => noParen (List.mem_append_left _ paren)
    exact ⟨front, s, _, atFront, member, by rw [same, List.append_assoc, List.cons_append]⟩

/-- A binary expression is bare on the right only if its text shows a parenthesis. -/
theorem isBare_text_iff {later : Expression} (formed : later.WellFormed)
    (shape : later.isBinary) : Description.isBare later.text ↔ '(' ∈ later.text.toList := by
  cases later with
  | operand _ | reference _ | unary _ _ => cases shape
  | binary op first second =>
    by_cases paren : '(' ∈ (binary op first second).text.toList
    · simp [Description.isBare, paren]
    · obtain ⟨front, s, rest, atFront, member, same⟩ := exists_front formed paren
      have notNumeric : isNumeric (binary op first second).text = false := by
        rw [isNumeric, same, readFinite?_front atFront member]
        rfl
      simp [Description.isBare, paren, notNumeric]

end Expression

end StackCalculator
