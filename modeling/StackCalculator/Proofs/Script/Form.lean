import StackCalculator.Proofs.Script.Reads

/-! # What a piece may be

`PieceForm` has one case for each kind of piece, told by the first character (`piece_form`). Whatever
holds of every piece is shown by these cases: there is no line break in a piece, unless the piece is
one (`count_lineBreak_piece`).
-/

namespace StackCalculator.Script

/-! ## Pieces by their first character -/

theorem piece_comment (rest : List Char) :
    piece '#' rest = reading commentLength (fun _ => none) rest := rfl

theorem piece_digit {c : Char} (digit : c.isDigit) (rest : List Char) :
    piece c rest = reading wholeLength (number c) rest := by
  have noBreak : c ≠ '\n' := by rintro rfl; cases digit
  have noSpace : ¬isSpace c := by
    intro space
    simp only [isSpace, decide_eq_true_eq, List.mem_cons, List.not_mem_nil, or_false] at space
    obtain rfl | rfl | rfl | rfl := space <;> cases digit
  have noComment : c ≠ '#' := by rintro rfl; cases digit
  rw [piece, if_neg noBreak, if_neg noSpace, if_neg noComment, if_pos digit]

theorem piece_point {rest : List Char} (digits : 0 < digitCount rest) :
    piece '.' rest = reading pointedLength (number '.') rest := by
  simp only [piece, digits]
  rfl

theorem piece_lone_point {rest : List Char} (none : digitCount rest = 0) :
    piece '.' rest = ⟨some (.unknown '.'), 0⟩ := by
  have noName : isNameStart '.' = false := by decide +kernel
  simp [piece, none, noName, isSpace, operatorSymbol?]

theorem piece_arrow (rest : List Char) : piece '→' rest = arrowPiece 0 rest := rfl

theorem piece_dash (rest : List Char) : piece '-' ('>' :: rest) = dashPiece rest := rfl

theorem piece_minus {rest : List Char} (other : rest.head? ≠ some '>') :
    piece '-' rest = ⟨some (.operator "−"), 0⟩ := by
  have noName : isNameStart '-' = false := by decide +kernel
  simp [piece, other, noName, isSpace, operatorSymbol?]

theorem piece_name {c : Char} (start : isNameStart c) (noDigit : ¬c.isDigit) (rest : List Char) :
    piece c rest = namePiece c rest := by
  have apart {d : Char} (other : isNameStart d = false) : c ≠ d := by
    rintro rfl
    exact absurd start (by simp [other])
  have noSpace : ¬isSpace c := by
    intro space
    simp only [isSpace, decide_eq_true_eq, List.mem_cons, List.not_mem_nil, or_false] at space
    obtain rfl | rfl | rfl | rfl := space <;> exact absurd start (by decide +kernel)
  have noPoint : c ≠ '.' := apart (by decide +kernel)
  have noDash : c ≠ '-' := apart (by decide +kernel)
  rw [piece, if_neg (apart isNameStart_lineBreak), if_neg noSpace,
    if_neg (apart (by decide +kernel)), if_neg noDigit, if_neg fun point => noPoint point.1,
    if_neg (apart (by decide +kernel)), if_neg fun dash => noDash dash.1, if_pos start]

/-- What a piece may be. -/
inductive PieceForm : Char → List Char → Piece → Prop where
  | lineBreak {rest : List Char} : PieceForm '\n' rest ⟨some .lineBreak, 0⟩
  | space {c : Char} {rest : List Char} (space : isSpace c) : PieceForm c rest ⟨none, 0⟩
  | comment {rest : List Char} : PieceForm '#' rest (reading commentLength (fun _ => none) rest)
  | whole {c : Char} {rest : List Char} (digit : c.isDigit) :
    PieceForm c rest (reading wholeLength (number c) rest)
  | pointed {rest : List Char} (digits : 0 < digitCount rest) :
    PieceForm '.' rest (reading pointedLength (number '.') rest)
  | arrow {rest : List Char} : PieceForm '→' rest (arrowPiece 0 rest)
  | dash {rest : List Char} : PieceForm '-' ('>' :: rest) (dashPiece rest)
  | name {c : Char} {rest : List Char} (start : isNameStart c) :
    PieceForm c rest (namePiece c rest)
  | operator {c symbol : Char} {rest : List Char} (means : operatorSymbol? c = some symbol) :
    PieceForm c rest ⟨some (.operator (String.singleton symbol)), 0⟩
  | unknown {c : Char} {rest : List Char} : PieceForm c rest ⟨some (.unknown c), 0⟩

theorem piece_form (c : Char) (rest : List Char) : PieceForm c rest (piece c rest) := by
  rw [piece]
  split
  · next lineBreak =>
    subst lineBreak
    exact .lineBreak
  split
  · next space => exact .space space
  split
  · next comment =>
    subst comment
    exact .comment
  split
  · next digit => exact .whole digit
  split
  · next point =>
    obtain ⟨rfl, digits⟩ := point
    exact .pointed digits
  split
  · next arrow =>
    subst arrow
    exact .arrow
  split
  · next dash =>
    obtain ⟨rfl, tip⟩ := dash
    obtain ⟨more, rfl⟩ := List.head?_eq_some_iff.1 tip
    exact .dash
  split
  · next start => exact .name start
  split
  · next means => exact .operator means
  · exact .unknown

theorem arrowPiece_cases (drawn : Nat) (rest : List Char) :
    arrowPiece drawn rest = ⟨some .arrow, drawn⟩ ∨
      ∃ c more, rest = c :: more ∧ isNameStart c ∧
        arrowPiece drawn rest =
          ⟨some (.store (String.ofList (c :: more.take (namePartLength more)))),
            drawn + 1 + namePartLength more⟩ := by
  cases rest with
  | nil => exact .inl rfl
  | cons c more =>
    rw [arrowPiece]
    split
    · next start => exact .inr ⟨c, more, rfl, start, rfl⟩
    · exact .inl rfl

theorem dashPiece_cases (rest : List Char) :
    dashPiece rest = ⟨some (.operator "−"), 1⟩ ∨ dashPiece rest = arrowPiece 1 rest := by
  unfold dashPiece
  split
  · split
    · exact .inl rfl
    · exact .inr rfl
  · exact .inr rfl

theorem namePiece_cases (c : Char) (rest : List Char) :
    namePiece c rest = ⟨some .clear, namePartLength rest⟩ ∨
      namePiece c rest = ⟨some (.name (String.ofList (c :: rest.take (namePartLength rest)))),
        namePartLength rest⟩ := by
  rw [namePiece]
  split
  · exact .inl rfl
  · exact .inr rfl

theorem further_dashPiece_pos (rest : List Char) : 0 < (dashPiece rest).further := by
  obtain minus | same := dashPiece_cases rest
  · rw [minus]
    exact Nat.one_pos
  · obtain arrow | ⟨c, more, -, -, store⟩ := arrowPiece_cases 1 rest
    · rw [same, arrow]
      exact Nat.one_pos
    · rw [same, store]
      simp only
      omega

/-! ## Line breaks -/

section

variable {d : Char} (noPart : isNamePart d = false)

include noPart

theorem not_mem_take_namePartLength (rest : List Char) : d ∉ rest.take (namePartLength rest) := by
  rw [namePartLength, take_length_takeWhile]
  intro found
  have part := List.mem_takeWhile_imp found
  rw [noPart] at part
  cases part

/-- What is no part of a name is not in the name behind an arrow. -/
theorem arrowPiece_avoids (drawn : Nat) (rest : List Char) :
    ∃ read, (arrowPiece drawn rest).further = drawn + read ∧ d ∉ rest.take read := by
  obtain arrow | ⟨c, more, rfl, start, store⟩ := arrowPiece_cases drawn rest
  · exact ⟨0, by rw [arrow]; rfl, by simp⟩
  · refine ⟨namePartLength more + 1, by rw [store]; simp only; omega, ?_⟩
    rw [List.take_succ_cons, List.mem_cons, not_or]
    refine ⟨?_, not_mem_take_namePartLength noPart more⟩
    rintro rfl
    rw [isNameStart] at start
    simp [isNamePart, start] at noPart

theorem dashPiece_avoids (rest : List Char) :
    ∃ read, (dashPiece rest).further = 1 + read ∧ d ∉ rest.take read := by
  obtain minus | arrow := dashPiece_cases rest
  · exact ⟨0, by rw [minus], by simp⟩
  · rw [arrow]
    exact arrowPiece_avoids noPart 1 rest

end

theorem PieceForm.unbroken {c : Char} {rest : List Char} {piece : Piece}
    (form : PieceForm c rest piece) : '\n' ∉ rest.take piece.further := by
  cases form with
  | lineBreak | space | operator | unknown => simp
  | comment => exact reads_commentLength.unbroken rest
  | whole digit => exact reads_wholeLength.unbroken rest
  | pointed digits => exact reads_pointedLength.unbroken rest
  | arrow =>
    obtain ⟨read, same, unbroken⟩ := arrowPiece_avoids isNamePart_lineBreak 0 rest
    rwa [same, Nat.zero_add]
  | @dash more =>
    obtain ⟨read, same, unbroken⟩ := dashPiece_avoids isNamePart_lineBreak more
    rw [same, Nat.add_comm, List.take_succ_cons, List.mem_cons, not_or]
    exact ⟨by decide, unbroken⟩
  | name start =>
    obtain clear | name := namePiece_cases c rest
    · rw [clear]
      exact reads_namePartLength.unbroken rest
    · rw [name]
      exact reads_namePartLength.unbroken rest

theorem piece_unbroken (c : Char) (rest : List Char) :
    '\n' ∉ rest.take (piece c rest).further :=
  (piece_form c rest).unbroken

theorem word?_arrowPiece_ne_lineBreak (drawn : Nat) (rest : List Char) :
    (arrowPiece drawn rest).word? ≠ some .lineBreak := by
  obtain arrow | ⟨c, more, -, -, store⟩ := arrowPiece_cases drawn rest
  · simp [arrow]
  · simp [store]

theorem PieceForm.eq_lineBreak {c : Char} {rest : List Char} {piece : Piece}
    (form : PieceForm c rest piece) (word : piece.word? = some .lineBreak) : c = '\n' := by
  cases form with
  | lineBreak => rfl
  | space | comment | whole | pointed | operator | unknown => cases word
  | arrow => exact absurd word (word?_arrowPiece_ne_lineBreak 0 rest)
  | @dash more =>
    obtain minus | arrow := dashPiece_cases more
    · rw [minus] at word
      cases word
    · rw [arrow] at word
      exact absurd word (word?_arrowPiece_ne_lineBreak 1 more)
  | name start =>
    obtain clear | name := namePiece_cases c rest
    · rw [clear] at word
      cases word
    · rw [name] at word
      cases word

theorem word?_piece_eq_lineBreak_iff (c : Char) (rest : List Char) :
    (piece c rest).word? = some .lineBreak ↔ c = '\n' :=
  ⟨(piece_form c rest).eq_lineBreak, fun same => by rw [same]; rfl⟩

/-- The line breaks of a piece: one if it is a line break, and none otherwise. -/
theorem count_lineBreak_piece (c : Char) (rest : List Char) :
    (c :: rest.take (piece c rest).further).count '\n' =
      if (piece c rest).word? = some .lineBreak then 1 else 0 := by
  have others : (rest.take (piece c rest).further).count '\n' = 0 :=
    List.count_eq_zero.2 (piece_unbroken c rest)
  rw [List.count_cons, others]
  simp [word?_piece_eq_lineBreak_iff]

end StackCalculator.Script
