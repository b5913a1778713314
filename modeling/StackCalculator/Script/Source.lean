import StackCalculator.Script.Piece

/-! # The words of a source text

`words` cuts a source text into pieces and keeps those that are words, each with the line it ends on
and the bytes it takes up.
-/

namespace StackCalculator.Script

structure PlacedWord where
  word : Word
  -- the line at the end of the word: a line break belongs to the line it begins
  line : Nat
  -- the bytes before the word
  start : Nat
  -- the bytes up to the end of the word
  stop : Nat

def byteCount (cs : List Char) : Nat :=
  cs.foldr (fun c count => c.utf8Size + count) 0

def wordsFrom (line start : Nat) : List Char → List PlacedWord
  | [] => []
  | c :: rest =>
    let piece := piece c rest
    let stop := start + byteCount (c :: rest.take piece.further)
    let line := if piece.word? = some .lineBreak then line + 1 else line
    let later := wordsFrom line stop (rest.drop piece.further)
    match piece.word? with
    | some word => ⟨word, line, start, stop⟩ :: later
    | none => later
termination_by cs => cs.length
decreasing_by simp only [List.length_drop, List.length_cons]; omega

def words (source : String) : List PlacedWord :=
  wordsFrom 1 0 source.toList

end StackCalculator.Script
