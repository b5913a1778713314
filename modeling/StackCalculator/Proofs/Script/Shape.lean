import StackCalculator.Proofs.Decimal.Literal
import StackCalculator.Proofs.Script.Spans

/-! # The shape of words

Whatever the source text is, each number among its words is a number literal, and the names that are
called or stored into are names as scripts spell them (`shaped_of_mem_words`).
-/

namespace StackCalculator.Script

open Literal (Power Denotes)

/-! ## Number literals -/

theorem take_digitCount (cs : List Char) : cs.take (digitCount cs) = cs.takeWhile Char.isDigit :=
  take_length_takeWhile Char.isDigit cs

theorem isDigit_of_mem_take {cs : List Char} {c : Char} (found : c ∈ cs.take (digitCount cs)) :
    c.isDigit := by
  rw [take_digitCount] at found
  exact List.mem_takeWhile_imp found

theorem digits_take {cs : List Char} (some_digit : digitCount cs ≠ 0) :
    Digits (cs.take (digitCount cs)) where
  nonempty empty := by
    rw [take_digitCount] at empty
    exact some_digit (List.length_eq_zero_iff.2 empty)
  all _ := isDigit_of_mem_take

theorem exists_power_take (cs : List Char) : ∃ n, Power (cs.take (powerLength cs)) n := by
  cases cs with
  | nil => exact ⟨0, .absent⟩
  | cons c rest =>
    rw [powerLength]
    split
    · next power =>
      obtain ⟨marks, some_digit⟩ := power
      have digits := digits_take some_digit
      rw [Nat.add_assoc, Nat.add_comm 1, List.take_succ_cons, List.take_add]
      revert digits
      unfold signLength
      split
      · exact fun digits => ⟨_, .plus marks digits⟩
      · exact fun digits => ⟨_, .minus marks digits⟩
      · exact fun digits => ⟨_, .unsigned marks digits⟩
    · exact ⟨0, .absent⟩

theorem take_fractionLength_cases (cs : List Char) :
    cs.take (fractionLength cs) = [] ∨
      ∃ fraction, (∀ c ∈ fraction, c.isDigit) ∧ cs.take (fractionLength cs) = '.' :: fraction := by
  unfold fractionLength
  split
  · next rest =>
    refine .inr ⟨rest.take (digitCount rest), fun c => isDigit_of_mem_take, ?_⟩
    rw [Nat.add_comm, List.take_succ_cons]
  · exact .inl rfl

theorem exists_denotes_whole {c : Char} (digit : c.isDigit) (rest : List Char) :
    ∃ d, Denotes (c :: rest.take (wholeLength rest)) d := by
  have front : Digits (c :: rest.take (digitCount rest)) :=
    ⟨List.cons_ne_nil _ _, List.forall_mem_cons.2 ⟨digit, fun d => isDigit_of_mem_take⟩⟩
  let behind := rest.drop (digitCount rest)
  obtain ⟨n, tens⟩ := exists_power_take (behind.drop (fractionLength behind))
  have read : c :: rest.take (wholeLength rest) =
      (c :: rest.take (digitCount rest)) ++ (behind.take (fractionLength behind) ++
        (behind.drop (fractionLength behind)).take
          (powerLength (behind.drop (fractionLength behind)))) := by
    rw [← List.take_add, List.cons_append, ← List.take_add]
    rfl
  rw [read, ← List.append_assoc]
  obtain none | ⟨fraction, digits, same⟩ := take_fractionLength_cases behind
  · rw [none, List.append_nil]
    exact ⟨_, .literal (.whole front) tens⟩
  · rw [same]
    exact ⟨_, .literal (.pointed front digits) tens⟩

theorem exists_denotes_pointed {rest : List Char} (some_digit : 0 < digitCount rest) :
    ∃ d, Denotes ('.' :: rest.take (pointedLength rest)) d := by
  have digits := digits_take (Nat.pos_iff_ne_zero.1 some_digit)
  obtain ⟨n, tens⟩ := exists_power_take (rest.drop (digitCount rest))
  rw [pointedLength, List.take_add, ← List.cons_append]
  exact ⟨_, .literal (.fraction digits) tens⟩

/-! ## Names -/

theorem isName_read {c : Char} (start : isNameStart c) (rest : List Char) :
    isName (c :: rest.take (namePartLength rest)) := by
  have parts : rest.take (namePartLength rest) = rest.takeWhile isNamePart :=
    take_length_takeWhile isNamePart rest
  rw [isName, start, Bool.true_and, parts, List.all_eq_true]
  exact fun d found => List.mem_takeWhile_imp found

/-! ## Words -/

def Word.Shaped : Word → Prop
  | .number literal => ∃ d, Denotes literal.toList d
  | .store text | .name text => isName text.toList
  | .operator _ | .arrow | .clear | .lineBreak | .unknown _ => True

theorem shaped_arrowPiece {drawn : Nat} {rest : List Char} {word : Word}
    (read : (arrowPiece drawn rest).word? = some word) : word.Shaped := by
  obtain arrow | ⟨c, more, -, start, store⟩ := arrowPiece_cases drawn rest
  · rw [arrow] at read
    cases read
    trivial
  · rw [store] at read
    cases read
    rw [Word.Shaped, String.toList_ofList]
    exact isName_read start more

theorem PieceForm.shaped {c : Char} {rest : List Char} {piece : Piece} {word : Word}
    (form : PieceForm c rest piece) (read : piece.word? = some word) : word.Shaped := by
  cases form with
  | lineBreak | operator | unknown =>
    cases read
    trivial
  | space | comment => cases read
  | whole digit =>
    cases read
    rw [Word.Shaped, String.toList_ofList]
    exact exists_denotes_whole digit rest
  | pointed digits =>
    cases read
    rw [Word.Shaped, String.toList_ofList]
    exact exists_denotes_pointed digits
  | arrow => exact shaped_arrowPiece read
  | @dash more =>
    obtain minus | arrow := dashPiece_cases more
    · rw [minus] at read
      cases read
      trivial
    · rw [arrow] at read
      exact shaped_arrowPiece read
  | name start =>
    obtain clear | name := namePiece_cases c rest
    · rw [clear] at read
      cases read
      trivial
    · rw [name] at read
      cases read
      rw [Word.Shaped, String.toList_ofList]
      exact isName_read start rest

theorem shaped_of_mem_wordsFrom {line start : Nat} {cs : List Char} {placed : PlacedWord}
    (found : placed ∈ wordsFrom line start cs) : placed.word.Shaped := by
  induction cs using drop_induction generalizing line start with
  | nil => simp [wordsFrom] at found
  | cons c rest ih =>
    obtain ⟨word, read, rfl⟩ | later := mem_wordsFrom_cons.1 found
    · exact (piece_form c rest).shaped read
    · exact ih _ later

theorem shaped_of_mem_words {source : String} {placed : PlacedWord}
    (found : placed ∈ words source) : placed.word.Shaped :=
  shaped_of_mem_wordsFrom found

end StackCalculator.Script
