import Mathlib.Data.List.Chain
import StackCalculator.Machine
import StackCalculator.Proofs.Decimal.ReadBack
import StackCalculator.Proofs.Remainder

/-! # Gaps in a description

An operand that is missing leaves a `?` or an empty pair of parentheses in a description, if it
leaves anything. `evaluate_eq_none_iff_shows_gap` says that these marks appear exactly where there
is no value, however deep the gap lies. A text without one is `Whole`, and stays so when it is put
next to another one or in parentheses; so the text of a complete expression is whole, and the others
carry the mark of a gap along.
-/

namespace StackCalculator

/-- A missing operand is marked. -/
def ShowsGap (text : String) : Prop :=
  '?' ∈ text.toList ∨ ['(', ')'] <:+: text.toList

/-! ## Whole texts -/

/-- Some text that could not be taken for a part of a mark. -/
structure Plain (cs : List Char) : Prop where
  nonempty : cs ≠ []
  apart : ∀ c ∈ cs, c ≠ '?' ∧ c ≠ '(' ∧ c ≠ ')'

/-- A text without marks, also when other such texts stand around it. -/
structure Whole (cs : List Char) : Prop where
  nonempty : cs ≠ []
  unmarked : '?' ∉ cs
  filled : cs.IsChain fun c d => c = '(' → d ≠ ')'
  begins : cs.head? ≠ some ')'
  ends : cs.getLast? ≠ some '('

theorem Whole.not_showsGap {text : String} (whole : Whole text.toList) : ¬ShowsGap text := by
  rintro (mark | pair)
  · exact whole.unmarked mark
  · have filled := whole.filled.infix pair
    simp at filled

theorem Plain.whole {cs : List Char} (plain : Plain cs) : Whole cs where
  nonempty := plain.nonempty
  unmarked found := (plain.apart _ found).1 rfl
  filled := by
    refine List.Pairwise.isChain (List.pairwise_of_forall_mem_list ?_)
    rintro c opening d - rfl
    exact absurd rfl (plain.apart _ opening).2.1
  begins first := (plain.apart _ (List.mem_of_mem_head? first)).2.2 rfl
  ends last := (plain.apart _ (List.mem_of_getLast? last)).2.1 rfl

theorem Whole.append {cs ds : List Char} (first : Whole cs) (second : Whole ds) :
    Whole (cs ++ ds) where
  nonempty := List.append_ne_nil_of_left_ne_nil first.nonempty ds
  unmarked := by
    rw [List.mem_append, not_or]
    exact ⟨first.unmarked, second.unmarked⟩
  filled := by
    refine List.isChain_append.2 ⟨first.filled, second.filled, ?_⟩
    rintro c - d begins - rfl
    exact second.begins begins
  begins := by
    rw [List.head?_append_of_ne_nil _ first.nonempty]
    exact first.begins
  ends := by
    rw [List.getLast?_append_of_ne_nil _ second.nonempty]
    exact second.ends

theorem Whole.parenthesized {cs : List Char} (inner : Whole cs) : Whole ('(' :: (cs ++ [')'])) where
  nonempty := List.cons_ne_nil _ _
  unmarked := by
    have unmarked := inner.unmarked
    simpa
  filled := by
    refine List.isChain_cons.2 ⟨?_, List.isChain_append.2 ⟨inner.filled, .singleton _, ?_⟩⟩
    · rintro d begins - rfl
      rw [List.head?_append_of_ne_nil _ inner.nonempty] at begins
      exact inner.begins begins
    · rintro c ends d - rfl
      exact absurd ends inner.ends
  begins := by simp
  ends := by
    rw [← List.cons_append, List.getLast?_concat]
    decide

/-! ## Operands -/

theorem plain_of_unsigned {cs : List Char} (unsigned : Unsigned cs) : Plain cs where
  nonempty := by
    obtain ⟨c, rest, rfl, -⟩ := unsigned.exists_cons
    exact List.cons_ne_nil c rest
  apart c found := by
    obtain digit | rfl := unsigned.isDigit_or_point found
    · refine ⟨?_, ?_, ?_⟩ <;>
      · rintro rfl
        cases digit
    · decide

theorem Plain.negated {cs : List Char} (plain : Plain cs) : Plain ('-' :: cs) where
  nonempty := List.cons_ne_nil _ _
  apart := List.forall_mem_cons.2 ⟨by decide, plain.apart⟩

theorem plain_toDigits (n : Nat) : Plain (Nat.toDigits 10 n) := by
  have digits := digits_toDigits n
  exact plain_of_unsigned ⟨_, [], digits.nonempty, digits.all, List.forall_mem_nil _, .inl rfl⟩

theorem plain_ofInt (n : Int) : Plain (Layout.ofInt n) := by
  rw [Layout.ofInt]
  split
  · exact (plain_toDigits _).negated
  · exact plain_toDigits _

theorem plain_magnitude {rank : Nat} (number : rank ≤ Binary64.infinityRank) :
    Plain (Layout.plain.magnitude rank) := by
  obtain finite | rfl := Nat.lt_or_eq_of_le number
  · exact plain_of_unsigned (Layout.unsigned_magnitude finite)
  · have infinite : Layout.plain.magnitude Binary64.infinityRank = ['i', 'n', 'f'] := by decide
    rw [infinite]
    exact ⟨by simp, by simp⟩

theorem plain_layout_chars (x : Float) : Plain (Layout.plain.chars x) := by
  rw [Layout.chars]
  split
  · exact ⟨by simp, by simp⟩
  · next number =>
    have plain := plain_magnitude (Nat.not_lt.1 number)
    split
    · exact plain.negated
    · exact plain

theorem plain_write (style : OperandStyle) (x : Float) : Plain (style.write x).toList := by
  rw [OperandStyle.write, String.toList_ofList]
  cases style with
  | exact => exact plain_layout_chars x
  | truncated =>
    rw [OperandStyle.chars]
    split
    · exact plain_ofInt _
    · exact plain_layout_chars x

/-! ## One operator -/

theorem ShowsGap.of_part {part text : String} (gap : ShowsGap part)
    (within : part.toList <:+: text.toList) : ShowsGap text :=
  gap.imp (fun mark => within.mem mark) fun pair => pair.trans within

/-- The operand of a text in parentheses may be missing. -/
theorem showsGap_of_parenthesized {operand text : String}
    (lacking : operand = "" ∨ ShowsGap operand)
    (within : '(' :: (operand.toList ++ [')']) <:+: text.toList) : ShowsGap text := by
  obtain rfl | gap := lacking
  · exact .inr within
  · exact gap.of_part (List.IsInfix.trans ⟨['('], [')'], rfl⟩ within)

theorem whole_leftOperand {text : String} (whole : Whole text.toList) :
    Whole (Description.leftOperand text).toList := by
  rw [Description.leftOperand, if_neg]
  · exact whole
  · rintro rfl
    exact whole.nonempty rfl

theorem whole_rightOperand {text : String} (whole : Whole text.toList) :
    Whole (Description.rightOperand text).toList := by
  rw [Description.toList_rightOperand]
  split
  · exact whole
  · exact whole.parenthesized

theorem showsGap_leftOperand {text : String} (lacking : text = "" ∨ ShowsGap text) :
    ShowsGap (Description.leftOperand text) := by
  rw [Description.leftOperand]
  split
  · exact .inl (by decide)
  · next some_text => exact lacking.resolve_left some_text

theorem showsGap_rightOperand {text : String} (lacking : text = "" ∨ ShowsGap text) :
    ShowsGap (Description.rightOperand text) := by
  by_cases bare : Description.isBare text
  · rw [Description.rightOperand, if_pos bare]
    refine lacking.resolve_left ?_
    rintro rfl
    exact absurd bare (by decide)
  · apply showsGap_of_parenthesized lacking
    rw [Description.toList_rightOperand, if_neg bare]

/-! ## One token -/

namespace Meaning

/-- The tree of an expression, and its text. -/
def account (style : OperandStyle) : Meaning (Option Expression × String) :=
  tree.both (description style)

theorem account_carries_fst (style : OperandStyle) : Carries (account style) tree Prod.fst :=
  both_carries_fst _ _

theorem account_carries_snd (style : OperandStyle) :
    Carries (account style) (description style) Prod.snd :=
  both_carries_snd _ _

end Meaning

/-- The text of a complete expression is whole. Where an operand is missing, the text shows it, or
there is none. -/
structure Candid (entry : Option Expression × String) : Prop where
  complete : entry.1.isSome → Whole entry.2.toList
  lacking : entry.1 = none → entry.2 = "" ∨ ShowsGap entry.2

namespace Candid

variable (style : OperandStyle)

theorem of_whole {e : Expression} {text : String} (whole : Whole text.toList) :
    Candid (some e, text) :=
  ⟨fun _ => whole, nofun⟩

theorem of_showsGap {text : String} (gap : ShowsGap text) : Candid (none, text) :=
  ⟨nofun, fun _ => .inr gap⟩

theorem eq_none_iff {entry : Option Expression × String} (candid : Candid entry) :
    entry.1 = none ↔ entry.2 = "" ∨ ShowsGap entry.2 := by
  refine ⟨candid.lacking, fun gap => ?_⟩
  cases tree : entry.1 with
  | none => rfl
  | some e =>
    have whole := candid.complete (by rw [tree]; rfl)
    cases gap with
    | inl empty => exact absurd (by rw [empty]; rfl) whole.nonempty
    | inr gap => exact absurd gap whole.not_showsGap

theorem unary {op : UnaryOperator} (plain : Plain op.symbol.toList)
    {operand : Option Expression × String} (candid : Candid operand) :
    Candid ((Meaning.account style).unary op operand) := by
  obtain ⟨tree, text⟩ := operand
  have shown := Meaning.toList_description_unary style op text
  cases tree with
  | some inner =>
    apply of_whole
    rw [shown]
    exact plain.whole.append (candid.complete rfl).parenthesized
  | none =>
    apply of_showsGap
    apply showsGap_of_parenthesized (candid.lacking rfl)
    rw [shown]
    exact (List.suffix_append _ _).isInfix

theorem binary {op : BinaryOperator} (plain : Plain op.symbol.toList)
    {first second : Option Expression × String} (candidFirst : Candid first)
    (candidSecond : Candid second) :
    Candid ((Meaning.account style).binary op first second) := by
  obtain ⟨firstTree, firstText⟩ := first
  obtain ⟨secondTree, secondText⟩ := second
  have shown := Meaning.toList_description_binary style op firstText secondText
  have left_shown : (Description.leftOperand secondText).toList <:+:
      ((Meaning.description style).binary op firstText secondText).toList := by
    rw [shown]
    exact (List.prefix_append _ _).isInfix
  have right_shown : (Description.rightOperand firstText).toList <:+:
      ((Meaning.description style).binary op firstText secondText).toList := by
    rw [shown, ← List.append_assoc]
    exact (List.suffix_append _ _).isInfix
  cases firstTree with
  | none =>
    exact of_showsGap ((showsGap_rightOperand (candidFirst.lacking rfl)).of_part right_shown)
  | some later =>
    cases secondTree with
    | none =>
      exact of_showsGap ((showsGap_leftOperand (candidSecond.lacking rfl)).of_part left_shown)
    | some earlier =>
      apply of_whole
      rw [shown]
      have left := whole_leftOperand (candidSecond.complete rfl)
      have right := whole_rightOperand (candidFirst.complete rfl)
      exact left.append (plain.whole.append right)

theorem missing : Candid (Meaning.account style).missing :=
  ⟨nofun, fun _ => .inl rfl⟩

theorem top {stack : List (Option Expression × String)} (candid : ∀ entry ∈ stack, Candid entry) :
    Candid ((Meaning.account style).top stack) :=
  (Meaning.account style).forall_top (missing style) candid

end Candid

/-! ## A whole program -/

theorem Expression.exists_top_tree_iff (tokens : List Token) :
    (∃ e, Meaning.tree.top (Meaning.tree.run tokens) = some e) ↔
      ∃ e : Expression, e.tokens <:+ tokens := by
  constructor
  · rintro ⟨e, found⟩
    rw [← tokens.reverse_reverse] at found
    obtain ⟨older, spelled, -⟩ := exists_tokens_of_top_tree found
    refine ⟨e, older.reverse, ?_⟩
    rw [← tokens.reverse_reverse, spelled, List.reverse_append, List.reverse_reverse]
  · rintro ⟨e, older, rfl⟩
    refine ⟨e, ?_⟩
    rw [Meaning.run, List.foldl_append, foldl_tokens, Meaning.top_cons, fold_tree]

namespace Program

theorem evaluate_eq_none_iff_top_tree {p : Program} {vars : Variables}
    (bound : ∀ name, .reference name ∈ p.toList → vars.contains name) :
    p.evaluate vars = none ↔ Meaning.tree.top (Meaning.tree.run p.toList) = none := by
  rw [evaluate_eq_none_iff bound, ← Expression.exists_top_tree_iff, not_exists,
    Option.eq_none_iff_forall_ne_some]

theorem text_renderUpTo_size (p : Program) (style : OperandStyle) :
    (p.renderUpTo style p.size).text =
      (Meaning.description style).top ((Meaning.description style).run p.toList) := by
  rw [p.renderUpTo_eq_walk style (Nat.le_refl _), p.oldest_size, Meaning.walk_newestFirst_fst]

end Program

theorem run_account_candid (style : OperandStyle) {tokens : List Token}
    (plain : ∀ token ∈ tokens, ∀ symbol ∈ token.symbol?, Plain symbol.toList) :
    ∀ entry ∈ (Meaning.account style).run tokens, Candid entry := by
  apply Meaning.run_forall
  · exact Candid.missing style
  · exact fun value _ => .of_whole (plain_write style value).whole
  · exact fun name found => .of_whole (plain _ found name rfl).whole
  · exact fun op found _ inner => .unary style (plain _ found op.symbol rfl) inner
  · exact fun op found _ _ first second => .binary style (plain _ found op.symbol rfl) first second

/-- Let every variable in the program of a machine be bound, and let no name and no symbol in it have
a character that marks a gap. Then there is no value if and only if the text of the newest
expression is empty or shows a gap. Of the expressions that a description lists, oldest first, only
the first one may show a gap. -/
theorem evaluate_eq_none_iff_shows_gap (m : Machine)
    (bound : ∀ name, .reference name ∈ m.program.toList → m.variables.contains name)
    (plain : ∀ token ∈ m.program.toList, ∀ symbol ∈ token.symbol?, Plain symbol.toList) :
    let newest := (m.program.renderUpTo m.style m.program.size).text
    let listed := (Meaning.description m.style).expressions m.program
    (m.evaluate = none ↔ newest = "" ∨ ShowsGap newest) ∧
      m.describe = ", ".intercalate listed ∧ ∀ text ∈ listed.tail, ¬ShowsGap text := by
  intro newest listed
  let entries := (Meaning.account m.style).run m.program.toList
  have candid : ∀ entry ∈ entries, Candid entry := run_account_candid m.style plain
  have trees : Meaning.tree.run m.program.toList = entries.map Prod.fst :=
    (Meaning.account_carries_fst m.style).run_eq_map m.program.toList
  have texts : (Meaning.description m.style).run m.program.toList = entries.map Prod.snd :=
    (Meaning.account_carries_snd m.style).run_eq_map m.program.toList
  refine ⟨?_, rfl, ?_⟩
  · have value : m.evaluate = none ↔ ((Meaning.account m.style).top entries).1 = none := by
      rw [Machine.evaluate, Program.evaluate_eq_none_iff_top_tree bound, trees,
        (Meaning.account_carries_fst m.style).top_map]
    have text : newest = ((Meaning.account m.style).top entries).2 := by
      show (m.program.renderUpTo m.style m.program.size).text = _
      rw [Program.text_renderUpTo_size, texts, (Meaning.account_carries_snd m.style).top_map]
    rw [value, text]
    exact (Candid.top m.style candid).eq_none_iff
  · intro text found
    have inListed : text ∈ (entries.map Prod.snd).reverse.tail := by
      rw [← texts, ← Meaning.expressions_eq_reverse_run]
      exact found
    rw [List.tail_reverse, List.mem_reverse, ← List.map_dropLast] at inListed
    obtain ⟨entry, newer, rfl⟩ := List.mem_map.1 inListed
    have complete : entry.1.isSome := by
      apply Meaning.run_tree_completeAboveOldest m.program.toList
      rw [trees, ← List.map_dropLast]
      exact List.mem_map_of_mem newer
    exact ((candid entry (List.mem_of_mem_dropLast newer)).complete complete).not_showsGap

/-- A sum without its left operand. -/
theorem evaluate_eq_none_of_gap_on_the_left :
    let plus : BinaryOperator := ⟨"+", fun first second => first + second⟩
    let m : Machine :=
      { program := Program.empty.pushAll [.reference "π", .operator (.binary plus)] }
    (m.program.renderUpTo m.style m.program.size).text = "?+(π)" ∧ m.evaluate = none := by
  intro plus m
  have shown : (m.program.renderUpTo m.style m.program.size).text = "?+(π)" := by decide +kernel
  have bound : ∀ name, .reference name ∈ m.program.toList → m.variables.contains name := by
    intro name found
    obtain rfl : name = "π" := by simpa [m] using found
    decide +kernel
  have plain_name : Plain "π".toList := ⟨by decide, by simp⟩
  have plain_symbol : Plain "+".toList := ⟨by decide, by simp⟩
  have plain : ∀ token ∈ m.program.toList, ∀ symbol ∈ token.symbol?, Plain symbol.toList := by
    refine List.forall_mem_cons.2 ⟨?_, List.forall_mem_singleton.2 ?_⟩
    · rintro symbol ⟨rfl⟩
      exact plain_name
    · rintro symbol ⟨rfl⟩
      exact plain_symbol
  refine ⟨shown, (evaluate_eq_none_iff_shows_gap m bound plain).1.2 (.inr ?_)⟩
  rw [shown]
  exact .inl (by decide)

end StackCalculator
