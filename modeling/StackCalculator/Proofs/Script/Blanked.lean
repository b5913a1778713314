import StackCalculator.Proofs.Script.Resumption
import StackCalculator.Proofs.Script.Written

/-! # Blanks in place of words

`blanked` puts a blank in place of some words of a source text. The other words are left, and no
new ones come up (`withoutBreaks_words_blanked`): a blank ends every piece in front of it but a
comment, and a comment goes on to the end of its line. The exception is a word that is read as
another one because of the word behind it (`Intact`).
-/

namespace StackCalculator.Script

/-- A text with a blank in place of each of its words that are dropped. -/
def blankedFrom (drops : Word → Bool) : List Char → List Char
  | [] => []
  | c :: rest =>
    let piece := piece c rest
    let later := blankedFrom drops (rest.drop piece.further)
    if piece.word?.any drops then ' ' :: later else c :: rest.take piece.further ++ later
termination_by cs => cs.length
decreasing_by simp only [List.length_drop, List.length_cons]; omega

def blanked (drops : Word → Bool) (source : String) : String :=
  String.ofList (blankedFrom drops source.toList)

example : blanked (fun word => word = .name "foo" ∨ word = .operator "×") "2 foo*foot\n3#foo*" =
    "2   foot\n3#foo*" := by
  decide +kernel

/-- No word that stays is misread because of a word right behind it that is dropped. -/
def Intact (drops : Word → Bool) (words : List PlacedWord) : Prop :=
  ∀ placed ∈ words, ∀ other ∈ words, ¬drops placed.word → drops other.word →
    placed.stop = other.start → ¬placed.Misread

instance (drops : Word → Bool) (words : List PlacedWord) : Decidable (Intact drops words) :=
  inferInstanceAs (Decidable (∀ placed ∈ words, ∀ other ∈ words, _ → _ → _ → _))

theorem Intact.of_subset {drops : Word → Bool} {words more : List PlacedWord}
    (intact : Intact drops more) (within : words ⊆ more) : Intact drops words :=
  fun placed found other also => intact placed (within found) other (within also)

/-! ## Blanks end pieces -/

theorem isNamePart_blank : isNamePart ' ' = false := by
  decide +kernel

theorem blank_not_mem_literal {c : Char} {cs : List Char}
    (literal : ∃ d, Literal.Denotes (c :: cs) d) : ' ' ∉ cs := by
  obtain ⟨d, denotes⟩ := literal
  intro found
  have part := denotes.isPart ' ' (List.mem_cons_of_mem c found)
  exact Literal.not_isBlank_of_isPart part (by decide)

theorem PieceForm.blank_not_mem {c : Char} {rest : List Char} {piece : Piece}
    (form : PieceForm c rest piece) (noComment : c ≠ '#') : ' ' ∉ rest.take piece.further := by
  cases form with
  | lineBreak | space | operator | unknown => simp
  | comment => exact absurd rfl noComment
  | whole digit => exact blank_not_mem_literal (exists_denotes_whole digit rest)
  | pointed digits => exact blank_not_mem_literal (exists_denotes_pointed digits)
  | arrow =>
    obtain ⟨read, same, absent⟩ := arrowPiece_avoids isNamePart_blank 0 rest
    rwa [same, Nat.zero_add]
  | @dash more =>
    obtain ⟨read, same, absent⟩ := dashPiece_avoids isNamePart_blank more
    rw [same, Nat.add_comm, List.take_succ_cons, List.mem_cons, not_or]
    exact ⟨by decide, absent⟩
  | name start =>
    obtain clear | name := namePiece_cases c rest
    · rw [clear]
      exact not_mem_take_namePartLength isNamePart_blank rest
    · rw [name]
      exact not_mem_take_namePartLength isNamePart_blank rest

theorem commentLength_append_le_iff {cs rest : List Char} :
    commentLength (cs ++ rest) ≤ cs.length ↔ '\n' ∈ cs ∨ commentLength rest = 0 := by
  induction cs with
  | nil => simp
  | cons c cs ih =>
    by_cases ends : c = '\n'
    · simp [commentLength, ends]
    · have longer : commentLength (c :: cs ++ rest) = commentLength (cs ++ rest) + 1 := by
        simp [commentLength, ends]
      rw [longer, List.length_cons, Nat.add_le_add_iff_right, ih, List.mem_cons]
      simp [Ne.symm ends]

/-- A piece that is cut off from a word is cut off from a blank in its place. -/
theorem further_le_of_blank {c : Char} {cs rest : List Char} (more : List Char)
    (goesOn : ∃ d ∈ rest.head?, d ≠ '\n') (within : (piece c (cs ++ rest)).further ≤ cs.length) :
    (piece c (cs ++ ' ' :: more)).further ≤ cs.length := by
  by_cases comment : c = '#'
  · subst comment
    have some_char : commentLength rest ≠ 0 := by
      obtain ⟨d, first, other⟩ := goesOn
      obtain ⟨tail, rfl⟩ := List.head?_eq_some_iff.1 first
      simp [commentLength, other]
    exact commentLength_append_le_iff.2
      (.inl ((commentLength_append_le_iff.1 within).resolve_right some_char))
  · exact le_length_of_not_mem_take ((piece_form c _).blank_not_mem comment)

/-- A text that is cut off from a word is cut off from a blank in its place. -/
theorem Cuts.blank {cs rest : List Char} (cuts : Cuts rest cs) (goesOn : ∃ d ∈ rest.head?, d ≠ '\n')
    (more : List Char) : Cuts (' ' :: more) cs := by
  induction cuts with
  | nil => exact .nil
  | @piece c cs within plain later ih =>
    have withinBlank := further_le_of_blank more goesOn within
    have plainBlank : ¬Distorted (c :: cs) (' ' :: more) := by
      have noPart : resemblesNamePart ' ' = false := by decide +kernel
      have noStart : resemblesNameStart ' ' = false := by decide +kernel
      simp [Distorted, noPart, noStart]
    refine .piece withinBlank plainBlank ?_
    rwa [piece_append withinBlank plainBlank, ← piece_append within plain]

/-! ## The words that are left -/

theorem spoken_append {cs rest : List Char} (cuts : Cuts rest cs) :
    spoken (cs ++ rest) = spoken cs ++ spoken rest := by
  rw [spoken, wordsFrom_append cuts, withoutBreaks, List.map_append, List.filter_append]
  exact congrArg (spoken cs ++ ·) (withoutBreaks_wordsFrom _ _ _)

variable {drops : Word → Bool}

/-- A text can be cut where a word begins that is dropped, if no word in front of it is. -/
theorem cuts_of_dropped {cs front : List Char} {line start : Nat} {placed : PlacedWord}
    {before later : List PlacedWord}
    (read : wordsFrom line start (front ++ cs) = before ++ placed :: later)
    (begins : placed.start = start + byteCount front) (dropped : drops placed.word)
    (stay : ∀ other ∈ before, ¬drops other.word)
    (intact : Intact drops (wordsFrom line start (front ++ cs))) : Cuts cs front := by
  have found : placed ∈ wordsFrom line start (front ++ cs) :=
    read ▸ List.mem_append_right _ List.mem_cons_self
  refine cuts_of_mem found begins fun other also ends => ?_
  have follow := pairwise_wordsFrom line start (front ++ cs)
  rw [read] at follow
  obtain earlier | behind := List.mem_append.1 (read ▸ also)
  · exact intact other also placed found (stay other earlier) dropped (ends.trans begins.symm)
  · have some_byte := (span_of_mem_wordsFrom also).2.1
    obtain rfl | further := List.mem_cons.1 behind
    · omega
    · have after := List.rel_of_pairwise_cons (List.pairwise_append.1 follow).2.1 further
      have some_byte_first := (span_of_mem_wordsFrom found).2.1
      omega

/-- Behind a blank in place of the first word that is dropped, the text may be another one. -/
theorem spoken_append_blank {cs front : List Char} {line start : Nat} {placed : PlacedWord}
    {before later : List PlacedWord}
    (read : wordsFrom line start (front ++ cs) =
      before ++ wordsFrom (line + front.count '\n') (start + byteCount front) cs)
    (first : wordsFrom (line + front.count '\n') (start + byteCount front) cs = placed :: later)
    (begins : placed.start = start + byteCount front) (dropped : drops placed.word)
    (stay : ∀ other ∈ before, ¬drops other.word)
    (intact : Intact drops (wordsFrom line start (front ++ cs)))
    (goesOn : ∃ d ∈ cs.head?, d ≠ '\n') (more : List Char) :
    spoken (front ++ ' ' :: more) = withoutBreaks before ++ spoken more := by
  have cuts : Cuts cs front :=
    cuts_of_dropped (read.trans (congrArg _ first)) begins dropped stay intact
  have front_words : spoken front = withoutBreaks before := by
    rw [wordsFrom_append cuts] at read
    rw [← List.append_cancel_right read, withoutBreaks_wordsFrom]
  have blank : spoken (' ' :: more) = spoken more := spoken_filler (.blank (by decide) .nil) more
  rw [spoken_append (cuts.blank goesOn more), front_words, blank]

/-- The induction goes along the pieces. In front of the text that is left to it are the pieces since
the last blank: they are read as before, and may only be cut off when the next blank comes. -/
theorem spoken_append_blankedFrom (breaks : ¬drops .lineBreak) {cs front : List Char}
    {line start : Nat} {before : List PlacedWord}
    (read : wordsFrom line start (front ++ cs) =
      before ++ wordsFrom (line + front.count '\n') (start + byteCount front) cs)
    (stay : ∀ placed ∈ before, ¬drops placed.word)
    (intact : Intact drops (wordsFrom line start (front ++ cs))) :
    spoken (front ++ blankedFrom drops cs) =
      withoutBreaks before ++ (spoken cs).filter fun word => !drops word := by
  induction cs using drop_induction generalizing front line start before with
  | nil =>
    rw [List.append_nil, wordsFrom, List.append_nil] at read
    rw [blankedFrom, spoken_nil, List.filter_nil, List.append_nil, List.append_nil, ← read,
      withoutBreaks_wordsFrom]
  | cons c rest ih =>
    let further := (piece c rest).further
    let taken := c :: rest.take further
    let after := line + front.count '\n' + taken.count '\n'
    let stop := start + byteCount front + byteCount taken
    let place (word : Word) : PlacedWord := ⟨word, after, start + byteCount front, stop⟩
    have words_cons : wordsFrom (line + front.count '\n') (start + byteCount front) (c :: rest) =
        ((piece c rest).word?.map place).toList ++ wordsFrom after stop (rest.drop further) :=
      wordsFrom_cons _ _ c rest
    rw [blankedFrom]
    by_cases dropped : (piece c rest).word?.any drops
    · obtain ⟨word, isWord, drop⟩ := (Option.any_eq_true _ _).1 dropped
      have unbroken : word ≠ .lineBreak := by
        rintro rfl
        exact breaks drop
      have goesOn : ∃ d ∈ (c :: rest).head?, d ≠ '\n' := by
        refine ⟨c, rfl, fun same => unbroken (Option.some.inj ?_)⟩
        rw [← isWord, (word?_piece_eq_lineBreak_iff c rest).2 same]
      rw [isWord] at words_cons
      have behind : wordsFrom after stop (rest.drop further) ⊆
          wordsFrom line start (front ++ c :: rest) := by
        rw [read, words_cons]
        exact fun other found => List.mem_append_right _ (List.mem_cons_of_mem _ found)
      have rest_words : spoken (blankedFrom drops (rest.drop further)) =
          (spoken (rest.drop further)).filter fun word => !drops word :=
        @ih further [] after stop [] rfl (List.forall_mem_nil _) (intact.of_subset behind)
      rw [if_pos dropped, spoken_append_blank read words_cons rfl drop stay intact goesOn,
        rest_words, spoken_cons, isWord]
      simp [unbroken, drop, further]
    · have whole : front ++ taken ++ rest.drop further = front ++ c :: rest := by
        rw [List.append_assoc, List.cons_append, List.take_append_drop]
      have longer : wordsFrom line start (front ++ taken ++ rest.drop further) =
          before ++ ((piece c rest).word?.map place).toList ++
            wordsFrom (line + (front ++ taken).count '\n') (start + byteCount (front ++ taken))
              (rest.drop further) := by
        rw [whole, read, words_cons, List.append_assoc, List.count_append, byteCount_append,
          ← Nat.add_assoc, ← Nat.add_assoc]
      rw [if_neg dropped, ← List.append_assoc]
      refine (ih further longer ?_ (whole ▸ intact)).trans ?_
      · refine List.forall_mem_append.2 ⟨stay, fun placed found => ?_⟩
        obtain ⟨word, isWord, rfl⟩ := Option.map_eq_some_iff.1 (Option.mem_toList.1 found)
        exact fun drop => dropped ((Option.any_eq_true _ _).2 ⟨word, isWord, drop⟩)
      · rw [spoken_cons, List.filter_append, withoutBreaks, List.map_append, List.filter_append,
          List.append_assoc]
        congr 2
        cases isWord : (piece c rest).word? with
        | none => rfl
        | some word =>
          have stays : ¬drops word := by simpa [isWord] using dropped
          by_cases broken : word = .lineBreak <;> simp [place, broken, stays]

/-- The words of a text with some of them replaced by blanks are the others. -/
theorem withoutBreaks_words_blanked {source : String} (breaks : ¬drops .lineBreak)
    (intact : Intact drops (words source)) :
    withoutBreaks (words (blanked drops source)) =
      (withoutBreaks (words source)).filter fun word => !drops word := by
  rw [words, blanked, String.toList_ofList, withoutBreaks_wordsFrom, words, withoutBreaks_wordsFrom]
  exact @spoken_append_blankedFrom drops breaks source.toList [] 1 0 [] rfl (List.forall_mem_nil _)
    intact

end StackCalculator.Script
