import Mathlib.Data.List.Pairwise
import StackCalculator.Proofs.Script.Resumption

/-! # Nothing of a source text is lost

Every word takes up some characters of the source text, and the line it is on is counted by the line
breaks up to its end (`PlacedWord.TakesUp`). The words stand one behind another, and between them
there are only spaces and comments (`words_cover_source`). A line break is in no comment and in no
other word than its own, so the lines in errors are right, too.
-/

namespace StackCalculator

open Script

/-- The line an error is on, unless it is not about a source text. -/
def InputError.line? : InputError → Option Nat
  | unexpectedText _ line | invalidNumber _ line | missingName line => some line
  | invalidAssignment _ => none

namespace Script

/-! ## Dropped pieces -/

theorem word?_arrowPiece_ne_none (drawn : Nat) (rest : List Char) :
    (arrowPiece drawn rest).word? ≠ none := by
  obtain arrow | ⟨c, more, -, -, store⟩ := arrowPiece_cases drawn rest
  · simp [arrow]
  · simp [store]

/-- What is no word is a space, or a comment up to the end of its line. -/
theorem PieceForm.dropped_cases {c : Char} {rest : List Char} {piece : Piece}
    (form : PieceForm c rest piece) (dropped : piece.word? = none) :
    isSpace c ∧ piece.further = 0 ∨ c = '#' ∧ piece.further = commentLength rest := by
  cases form with
  | space space => exact .inl ⟨space, rfl⟩
  | comment => exact .inr ⟨rfl, rfl⟩
  | lineBreak | whole | pointed | operator | unknown => cases dropped
  | arrow => exact absurd dropped (word?_arrowPiece_ne_none 0 rest)
  | @dash more =>
    obtain minus | arrow := dashPiece_cases more
    · rw [minus] at dropped
      cases dropped
    · rw [arrow] at dropped
      exact absurd dropped (word?_arrowPiece_ne_none 1 more)
  | name =>
    obtain clear | name := namePiece_cases c rest
    · rw [clear] at dropped
      cases dropped
    · rw [name] at dropped
      cases dropped

/-! ## Pieces -/

/-- The words of a text that stands behind another. -/
def wordsBehind (front cs : List Char) : List PlacedWord :=
  wordsFrom (1 + front.count '\n') (byteCount front) cs

theorem wordsBehind_cons (front : List Char) (c : Char) (rest : List Char) :
    wordsBehind front (c :: rest) =
      let read := front ++ c :: rest.take (piece c rest).further
      ((piece c rest).word?.map fun word =>
        (⟨word, 1 + read.count '\n', byteCount front, byteCount read⟩ : PlacedWord)).toList ++
        wordsBehind read (rest.drop (piece c rest).further) := by
  unfold wordsBehind
  rw [wordsFrom_cons]
  simp only [List.count_append, byteCount_append, Nat.add_assoc]

theorem span_of_mem_wordsBehind {front cs : List Char} {placed : PlacedWord}
    (found : placed ∈ wordsBehind front cs) :
    byteCount front ≤ placed.start ∧ placed.start < placed.stop :=
  ⟨(span_of_mem_wordsFrom found).1, (span_of_mem_wordsFrom found).2.1⟩

/-- A source is read piece by piece, and some pieces are read already. -/
inductive Reaches (source : List Char) : List Char → List Char → Prop where
  | start : Reaches source [] source
  | next {front rest : List Char} {c : Char} (earlier : Reaches source front (c :: rest)) :
    Reaches source (front ++ c :: rest.take (piece c rest).further)
      (rest.drop (piece c rest).further)

namespace Reaches

variable {source front behind : List Char}

theorem append_eq (reaches : Reaches source front behind) : front ++ behind = source := by
  induction reaches with
  | start => rfl
  | next earlier ih => rw [List.append_assoc, List.cons_append, List.take_append_drop, ih]

/-- The words of a source are those that are read already and those behind them. -/
theorem exists_words (reaches : Reaches source front behind) :
    ∃ earlier, wordsFrom 1 0 source = earlier ++ wordsBehind front behind ∧
      ∀ placed ∈ earlier, placed.stop ≤ byteCount front := by
  induction reaches with
  | start => exact ⟨[], rfl, List.forall_mem_nil _⟩
  | @next front rest c _ ih =>
    obtain ⟨earlier, split, within⟩ := ih
    rw [wordsBehind_cons, ← List.append_assoc] at split
    refine ⟨_, split, List.forall_mem_append.2 ⟨fun placed found => ?_, fun placed found => ?_⟩⟩
    · rw [byteCount_append]
      exact Nat.le_add_right_of_le (within placed found)
    · obtain ⟨word, -, rfl⟩ := Option.map_eq_some_iff.1 (Option.mem_toList.1 found)
      exact Nat.le_refl _

theorem mem_words (reaches : Reaches source front behind) {placed : PlacedWord}
    (found : placed ∈ wordsBehind front behind) : placed ∈ wordsFrom 1 0 source := by
  obtain ⟨earlier, split, -⟩ := reaches.exists_words
  exact split ▸ List.mem_append_right _ found

/-- A word is one of the pieces. -/
theorem exists_of_mem (reaches : Reaches source front behind) {placed : PlacedWord}
    (found : placed ∈ wordsBehind front behind) :
    ∃ before c rest word, Reaches source before (c :: rest) ∧ (piece c rest).word? = some word ∧
      let read := before ++ c :: rest.take (piece c rest).further
      placed = ⟨word, 1 + read.count '\n', byteCount before, byteCount read⟩ := by
  induction behind using drop_induction generalizing front with
  | nil => simp [wordsBehind, wordsFrom] at found
  | cons c rest ih =>
    rw [wordsBehind_cons, List.mem_append] at found
    obtain here | later := found
    · obtain ⟨word, read, rfl⟩ := Option.map_eq_some_iff.1 (Option.mem_toList.1 here)
      exact ⟨front, c, rest, word, reaches, read, rfl⟩
    · exact ih _ reaches.next later

/-- A character is in one of the pieces. -/
theorem exists_piece (reaches : Reaches source front behind) {before more : List Char} {d : Char}
    (split : source = before ++ d :: more) (beyond : front.length ≤ before.length) :
    ∃ front c rest, Reaches source front (c :: rest) ∧ front.length ≤ before.length ∧
      before.length < (front ++ c :: rest.take (piece c rest).further).length := by
  induction behind using drop_induction generalizing front with
  | nil =>
    have all := congrArg List.length (reaches.append_eq.trans split)
    simp only [List.length_append, List.length_nil, List.length_cons] at all
    omega
  | cons c rest ih =>
    by_cases inside : before.length < (front ++ c :: rest.take (piece c rest).further).length
    · exact ⟨front, c, rest, reaches, beyond, inside⟩
    · exact ih _ reaches.next (Nat.le_of_not_lt inside)

end Reaches

/-! ## Places -/

/-- A word takes up some text of a source, with some text in front of it and some behind it. -/
structure PlacedWord.TakesUp (placed : PlacedWord) (source front text behind : List Char) :
    Prop where
  split : source = front ++ (text ++ behind)
  nonempty : text ≠ []
  start : placed.start = byteCount front
  stop : placed.stop = byteCount (front ++ text)
  line : placed.line = 1 + (front ++ text).count '\n'
  broken : placed.word = .lineBreak → text = ['\n']
  unbroken : placed.word ≠ .lineBreak → '\n' ∉ text

/-- A piece that is a word. -/
theorem Reaches.exists_takesUp {source front rest : List Char} {c : Char} {word : Word}
    (reaches : Reaches source front (c :: rest)) (read : (piece c rest).word? = some word) :
    let text := c :: rest.take (piece c rest).further
    let placed : PlacedWord :=
      ⟨word, 1 + (front ++ text).count '\n', byteCount front, byteCount (front ++ text)⟩
    placed ∈ wordsFrom 1 0 source ∧
      placed.TakesUp source front text (rest.drop (piece c rest).further) := by
  refine ⟨reaches.mem_words ?_, ?_, List.cons_ne_nil _ _, rfl, rfl, rfl, ?_, ?_⟩
  · rw [wordsBehind_cons, read]
    exact List.mem_append_left _ (List.mem_singleton_self _)
  · rw [List.cons_append, List.take_append_drop, reaches.append_eq]
  · intro broken
    cases (word?_piece_eq_lineBreak_iff c rest).1 (read.trans (congrArg some broken))
    rfl
  · intro other
    have first : '\n' ≠ c := by
      rintro rfl
      exact other (Option.some.inj read).symm
    rw [List.mem_cons, not_or]
    exact ⟨first, piece_unbroken c rest⟩

theorem exists_takesUp {source : List Char} {placed : PlacedWord}
    (found : placed ∈ wordsFrom 1 0 source) :
    ∃ front text behind, placed.TakesUp source front text behind := by
  obtain ⟨front, c, rest, word, reaches, read, rfl⟩ := Reaches.start.exists_of_mem found
  exact ⟨front, _, _, (reaches.exists_takesUp read).2⟩

/-! ## Characters -/

/-- A word holds the byte at some offset. -/
def PlacedWord.Holds (placed : PlacedWord) (offset : Nat) : Prop :=
  placed.start ≤ offset ∧ offset < placed.stop

/-- A character behind the front of a text and not behind its end is in the text. -/
theorem exists_of_append_eq {front text behind before more : List Char} {c : Char}
    (same : front ++ (text ++ behind) = before ++ c :: more) (begins : front.length ≤ before.length)
    (ends : before.length < (front ++ text).length) :
    ∃ part rest, text = part ++ c :: rest ∧ before = front ++ part := by
  rw [List.length_append] at ends
  obtain ⟨part, rfl, inside⟩ | ⟨part, rfl, inside⟩ := List.append_eq_append_iff.1 same
  · rw [List.length_append] at ends
    obtain ⟨beyond, rfl, -⟩ | ⟨rest, rfl, last⟩ := List.append_eq_append_iff.1 inside
    · rw [List.length_append] at ends
      omega
    · cases rest with
      | nil =>
        rw [List.append_nil] at ends
        omega
      | cons d rest =>
        cases last
        exact ⟨part, rest, rfl, rfl⟩
  · -- the front is no longer than what stands before the character, so nothing is left over
    rw [List.length_append] at begins
    have none : part = [] := List.length_eq_zero_iff.1 (by omega)
    subst none
    cases text with
    | nil =>
      simp only [List.append_nil, List.length_nil] at ends
      omega
    | cons d rest =>
      cases inside
      exact ⟨[], rest, rfl, by simp⟩

/-- Of two fronts of a text, the longer one has more bytes. -/
theorem byteCount_le_iff {front behind before more : List Char}
    (same : front ++ behind = before ++ more) :
    byteCount front ≤ byteCount before ↔ front.length ≤ before.length := by
  have nothing (part : List Char) : byteCount part = 0 ↔ part.length = 0 := by
    cases part with
    | nil => simp [byteCount]
    | cons c part =>
      have some_byte := byteCount_cons_pos c part
      rw [List.length_cons]
      omega
  obtain ⟨part, rfl, -⟩ | ⟨part, rfl, -⟩ := List.append_eq_append_iff.1 same
  · rw [byteCount_append, List.length_append]
    omega
  · have none := nothing part
    rw [byteCount_append, List.length_append]
    omega

theorem PlacedWord.TakesUp.holds_iff {placed : PlacedWord}
    {source front text behind before more : List Char}
    (takes : placed.TakesUp source front text behind) (split : source = before ++ more) :
    placed.Holds (byteCount before) ↔
      front.length ≤ before.length ∧ before.length < (front ++ text).length := by
  have begins := byteCount_le_iff (takes.split.symm.trans split)
  have ends := byteCount_le_iff
    ((List.append_assoc front text behind).trans (takes.split.symm.trans split))
  rw [Holds, takes.start, takes.stop, begins, ← Nat.not_le, ends, Nat.not_le]

/-- A comment of a source: it goes on to the end of its line, and no word is in it. -/
structure IsComment (source front text behind : List Char) : Prop where
  split : source = front ++ ('#' :: text ++ behind)
  unbroken : '\n' ∉ text
  whole : ∀ c ∈ behind.head?, c = '\n'
  apart : ∀ placed ∈ wordsFrom 1 0 source,
    placed.stop ≤ byteCount front ∨ byteCount (front ++ '#' :: text) ≤ placed.start

theorem Reaches.isComment {source front rest : List Char} {c : Char}
    (reaches : Reaches source front (c :: rest)) (dropped : (piece c rest).word? = none)
    (mark : c = '#') (length : (piece c rest).further = commentLength rest) :
    IsComment source front (rest.take (commentLength rest)) (rest.drop (commentLength rest)) := by
  constructor
  · rw [← mark, List.cons_append, List.take_append_drop, reaches.append_eq]
  · exact reads_commentLength.unbroken rest
  · have behind : rest.drop (commentLength rest) = rest.dropWhile (· ≠ '\n') :=
      drop_length_takeWhile _ rest
    intro d first
    rw [behind] at first
    simpa using not_of_mem_head?_dropWhile d first
  · intro placed found
    obtain ⟨earlier, split, within⟩ := reaches.exists_words
    rw [split, wordsBehind_cons, dropped, length] at found
    obtain before | later := List.mem_append.1 found
    · exact .inl (within placed before)
    · -- the comment itself is dropped, so the words behind it are all that is left
      exact .inr (mark ▸ (span_of_mem_wordsBehind later).1)

/-- A character that stands behind some text is in a comment. -/
def InComment (source before : List Char) : Prop :=
  ∃ front text behind, IsComment source front text behind ∧
    front.length ≤ before.length ∧ before.length < (front ++ '#' :: text).length

/-- A character is held by a word, or is a space, or is in a comment. -/
theorem covered {source before more : List Char} {c : Char} (split : source = before ++ c :: more) :
    (∃ placed ∈ wordsFrom 1 0 source, placed.Holds (byteCount before)) ∨ isSpace c ∨
      InComment source before := by
  obtain ⟨front, d, rest, reaches, begins, ends⟩ := Reaches.start.exists_piece split (Nat.zero_le _)
  cases read : (piece d rest).word? with
  | some word =>
    obtain ⟨found, takes⟩ := reaches.exists_takesUp read
    exact .inl ⟨_, found, (takes.holds_iff split).2 ⟨begins, ends⟩⟩
  | none =>
    obtain ⟨space, alone⟩ | ⟨mark, length⟩ := (piece_form d rest).dropped_cases read
    · have parts : front ++ ([d] ++ rest) = before ++ c :: more := reaches.append_eq.trans split
      rw [alone, List.take_zero] at ends
      obtain ⟨part, later, same, -⟩ := exists_of_append_eq parts begins ends
      obtain ⟨-, first⟩ | ⟨-, none⟩ := List.singleton_eq_append_iff.1 same
      · cases first
        exact .inr (.inl space)
      · cases none
    · rw [length] at ends
      subst mark
      exact .inr (.inr ⟨front, _, _, reaches.isComment read rfl length, begins, ends⟩)

/-- No two words hold the same byte. -/
theorem eq_of_holds {source : List Char} {placed other : PlacedWord} {offset : Nat}
    (found : placed ∈ wordsFrom 1 0 source) (also : other ∈ wordsFrom 1 0 source)
    (holds : placed.Holds offset) (within : other.Holds offset) : placed = other := by
  have apart : (wordsFrom 1 0 source).Pairwise fun a b => a.stop ≤ b.start ∨ b.stop ≤ a.start :=
    (pairwise_wordsFrom 1 0 source).imp Or.inl
  have : Std.Symm fun a b : PlacedWord => a.stop ≤ b.start ∨ b.stop ≤ a.start :=
    ⟨fun a b => Or.symm⟩
  by_contra distinct
  have apart := apart.forall found also distinct
  obtain ⟨begins, ends⟩ := holds
  obtain ⟨otherBegins, otherEnds⟩ := within
  omega

/-- A line break is one word, and no other word holds it. -/
theorem exists_lineBreak {source before more : List Char}
    (split : source = before ++ '\n' :: more) :
    ∃ placed ∈ wordsFrom 1 0 source, placed.word = .lineBreak ∧
      placed.start = byteCount before ∧ placed.stop = byteCount before + 1 ∧
      ∀ other ∈ wordsFrom 1 0 source, other.Holds (byteCount before) → other = placed := by
  obtain ⟨placed, found, holds⟩ | space | comment := covered split
  · obtain ⟨front, text, behind, takes⟩ := exists_takesUp found
    obtain ⟨begins, ends⟩ := (takes.holds_iff split).1 holds
    obtain ⟨part, rest, same, rfl⟩ :=
      exists_of_append_eq (takes.split.symm.trans split) begins ends
    have broken : placed.word = .lineBreak := by
      by_contra other
      exact takes.unbroken other (same ▸ by simp)
    have whole := takes.broken broken
    have alone : part = [] := by
      obtain ⟨none, -⟩ | ⟨-, none⟩ := List.singleton_eq_append_iff.1 (whole.symm.trans same)
      · exact none
      · cases none
    refine ⟨placed, found, broken, ?_, ?_, ?_⟩
    · rw [alone, List.append_nil, takes.start]
    · rw [alone, List.append_nil, takes.stop, whole, byteCount_append]
      rfl
    · intro other also within
      exact eq_of_holds also found within holds
  · cases space
  · obtain ⟨front, text, behind, comment, begins, ends⟩ := comment
    obtain ⟨part, rest, same, -⟩ :=
      exists_of_append_eq (comment.split.symm.trans split) begins ends
    have inside : '\n' ∈ '#' :: text := same ▸ by simp
    obtain mark | inside := List.mem_cons.1 inside
    · cases mark
    · exact absurd inside comment.unbroken

/-! ## Errors -/

theorem firstWrong?_of_right {source : String} {before later : List PlacedWord} {wrong : PlacedWord}
    {error : InputError} (split : words source = before ++ wrong :: later) (right : Right before)
    (failed : wrong.error? = some error) : firstWrong? source = some wrong := by
  rw [firstWrong?, List.find?_eq_some_iff_append, failed]
  exact ⟨rfl, before, later, split, fun placed found => by simp [right placed found]⟩

theorem line?_of_error? {placed : PlacedWord} {error : InputError}
    (failed : placed.error? = some error) :
    error.line? = some placed.line ∧ placed.word ≠ .lineBreak := by
  obtain ⟨word, line, start, stop⟩ := placed
  cases word with
  | number literal =>
    simp only [PlacedWord.error?] at failed
    split at failed
    · cases failed
    · cases failed
      exact ⟨rfl, by simp⟩
  | arrow | unknown c =>
    cases failed
    exact ⟨rfl, by simp⟩
  | _ => cases failed

/-- The words of a source stand one behind another, each on the line that it ends on. Between them
there are only spaces and comments; each line break is a word, and in no other word. The line in an
error is that of the first wrong word. -/
theorem words_cover_source (source : String) :
    (∀ placed ∈ words source,
      ∃ front text behind, placed.TakesUp source.toList front text behind) ∧
    (words source).Pairwise (fun a b => a.start < b.start ∧ a.stop ≤ b.start) ∧
    (∀ before c more, source.toList = before ++ c :: more →
      (∃ placed ∈ words source, placed.Holds (byteCount before)) ∨ isSpace c ∨
        InComment source.toList before) ∧
    (∀ before more, source.toList = before ++ '\n' :: more →
      ∃ placed ∈ words source, placed.word = .lineBreak ∧
        placed.start = byteCount before ∧ placed.stop = byteCount before + 1 ∧
        ∀ other ∈ words source, other.Holds (byteCount before) → other = placed) ∧
    ∀ k error, (Keypad.replay k source).2 = .error error →
      ∃ wrong front text behind, firstWrong? source = some wrong ∧ wrong.error? = some error ∧
        wrong.TakesUp source.toList front text behind ∧
        error.line? = some (1 + front.count '\n') := by
  refine ⟨fun placed found => exists_takesUp found, ?_, fun before c more => covered,
    fun before more => exists_lineBreak, ?_⟩
  · refine (pairwise_wordsFrom 1 0 source.toList).imp_of_mem fun {a b} found _ follows => ?_
    have extent := (span_of_mem_wordsFrom found).2.1
    exact ⟨Nat.lt_of_lt_of_le extent follows, follows⟩
  · intro k error failed
    obtain right | ⟨before, wrong, later, reason, split, right, checked⟩ :=
      right_or_exists_wrong (words source)
    · rw [Keypad.replay_of_right right] at failed
      cases failed
    rw [Keypad.replay_of_wrong split right checked] at failed
    cases failed
    have found : wrong ∈ words source := split ▸ List.mem_append_right _ List.mem_cons_self
    obtain ⟨front, text, behind, takes⟩ := exists_takesUp found
    obtain ⟨line, other⟩ := line?_of_error? checked
    have first := firstWrong?_of_right split right checked
    refine ⟨wrong, front, text, behind, first, checked, takes, ?_⟩
    rw [line, takes.line, List.count_append, List.count_eq_zero.2 (takes.unbroken other),
      Nat.add_zero]

example : (words "1 # one\n½").map (fun placed => (placed.line, placed.start, placed.stop)) =
    [(1, 0, 1), (2, 7, 8), (2, 8, 10)] := by
  decide +kernel

end Script

end StackCalculator
