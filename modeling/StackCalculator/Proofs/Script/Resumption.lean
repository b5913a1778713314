import StackCalculator.Proofs.Script.Sequence

/-! # Going on after a wrong word

A replay that stops at a wrong word leaves a keypad on which every word in front of it is pressed
and nothing else happened, not even the end of the typing. So a script that is run then does what it
does below those words (`replay_resumed`). What the wrong word is makes no difference, unless the
word in front of it is misread because of it (`Spoils`).
-/

namespace StackCalculator

open Script

namespace Script

instance (placed : PlacedWord) : Decidable placed.Misread :=
  inferInstanceAs (Decidable (_ ∨ _))

def firstWrong? (source : String) : Option PlacedWord :=
  (words source).find? fun placed => placed.error?.isSome

/-- The first wrong word of a source is `w`, between `p` and `q`. -/
def WrongAt (p w q : String) : Prop :=
  ∃ wrong ∈ firstWrong? (p ++ w ++ q),
    wrong.start = byteCount p.toList ∧ wrong.stop = byteCount (p ++ w).toList

/-- The word that ends where `w` begins is another one without it. -/
def Spoils (p w q : String) : Prop :=
  ∃ placed ∈ words (p ++ w ++ q), placed.stop = byteCount p.toList ∧ placed.Misread

instance (p w q : String) : Decidable (WrongAt p w q) :=
  inferInstanceAs (Decidable (∃ wrong ∈ firstWrong? (p ++ w ++ q), _))

instance (p w q : String) : Decidable (Spoils p w q) :=
  inferInstanceAs (Decidable (∃ placed ∈ words (p ++ w ++ q), _))

theorem firstWrong?_eq_some {source : String} {wrong : PlacedWord}
    (first : firstWrong? source = some wrong) :
    ∃ before later error, words source = before ++ wrong :: later ∧ Right before ∧
      wrong.error? = some error := by
  obtain ⟨failed, before, later, split, earlier⟩ := List.find?_eq_some_iff_append.1 first
  obtain ⟨error, failed⟩ := Option.isSome_iff_exists.1 failed
  refine ⟨before, later, error, split, fun placed found => ?_, failed⟩
  simpa using earlier placed found

/-- Words are split in one way only where one of them begins. -/
theorem eq_of_append_eq {front behind before later : List PlacedWord} {placed : PlacedWord}
    (same : front ++ behind = before ++ placed :: later)
    (ends : ∀ other ∈ front, other.stop ≤ placed.start)
    (begins : ∀ other ∈ behind, placed.start ≤ other.start)
    (extent : ∀ other ∈ front ++ behind, other.start < other.stop)
    (follow : (front ++ behind).Pairwise fun a b => a.stop ≤ b.start) :
    front = before ∧ behind = placed :: later := by
  obtain ⟨more, rfl, rest⟩ | ⟨more, rfl, rest⟩ := List.append_eq_append_iff.1 same
  · cases more with
    | nil => exact ⟨(List.append_nil front).symm, rest⟩
    | cons other more =>
      -- `other` begins behind the split, and ends in front of `placed`
      rw [rest, List.cons_append] at begins extent follow
      have after := begins other List.mem_cons_self
      have some_byte := extent other (List.mem_append_right _ List.mem_cons_self)
      have apart := (List.pairwise_append.1 follow).2.1
      have before := List.rel_of_pairwise_cons apart (List.mem_append_right _ List.mem_cons_self)
      omega
  · cases more with
    | nil => exact ⟨List.append_nil before, rest.symm⟩
    | cons other more =>
      rw [List.cons_append, List.cons.injEq] at rest
      have within := ends placed (rest.1 ▸ List.mem_append_right _ List.mem_cons_self)
      have some_byte := extent placed (same ▸ List.mem_append_right _ List.mem_cons_self)
      omega

/-- The words in front of the first wrong one are those of the text in front of it. -/
theorem words_of_wrongAt {p w q : String} (wrong : WrongAt p w q) (plain : ¬Spoils p w q) :
    ∃ placed later error, words (p ++ w ++ q) = words p ++ placed :: later ∧ Right (words p) ∧
      placed.error? = some error := by
  obtain ⟨placed, first, begins, -⟩ := wrong
  obtain ⟨before, later, error, split, right, failed⟩ := firstWrong?_eq_some first
  have text : words (p ++ w ++ q) = wordsFrom 1 0 (p.toList ++ (w ++ q).toList) := by
    rw [← String.toList_append, ← String.append_assoc, words]
  have cuts : Cuts (w ++ q).toList p.toList := by
    have found : placed ∈ words (p ++ w ++ q) := split ▸ List.mem_append_right _ List.mem_cons_self
    refine cuts_of_mem (text ▸ found) (by rw [begins, Nat.zero_add]) ?_
    intro other read ends misread
    exact plain ⟨other, text ▸ read, by rw [ends, Nat.zero_add], misread⟩
  have cut : words (p ++ w ++ q) = words p ++
      wordsFrom (1 + p.toList.count '\n') (0 + byteCount p.toList) (w ++ q).toList := by
    rw [text, wordsFrom_append cuts, words]
  obtain ⟨front, behind⟩ : words p = before ∧ _ = placed :: later := by
    apply eq_of_append_eq (cut ▸ split)
    · intro other read
      have span := span_of_mem_wordsFrom read
      omega
    · intro other read
      have span := span_of_mem_wordsFrom read
      omega
    · intro other read
      exact (span_of_mem_wordsFrom (cut ▸ read)).2.1
    · exact cut ▸ pairwise_wordsFrom 1 0 _
  exact ⟨placed, later, error, by rw [cut, behind], front ▸ right, failed⟩

end Script

namespace Keypad

/-- A script that is run after a wrong word does what it does below the words in front of it. They
are all pressed then, and a number right before the wrong word is still being typed. -/
theorem replay_resumed {p w q : String} (wrong : WrongAt p w q) (plain : ¬Spoils p w q)
    (k : Keypad) (s : String) :
    let left := k.pressWords (withoutBreaks (words p))
    (∃ error, k.replay (p ++ w ++ q) = (left, .error error)) ∧
    k.replay (p ++ "\n" ++ s) =
      ((left.replay s).1, (left.replay s).2.mapError (.moved (1 + p.toList.count '\n'))) ∧
    ∀ earlier literal, withoutBreaks (words p) = earlier ++ [.number literal] →
      left = { (k.pressWords earlier).endTyping with entry := some literal } := by
  obtain ⟨placed, later, error, split, right, failed⟩ := words_of_wrongAt wrong plain
  refine ⟨⟨error, replay_of_wrong split right failed k⟩, replay_append_line_of_right right k s, ?_⟩
  intro earlier literal last
  rw [last, pressWords_append, pressWords_cons, pressWords_nil, pressAll_number]

/-- The store takes the number in front of the arrow that has no name. -/
theorem replay_resumed_store :
    WrongAt "3 4 + 5" "→" " 6" ∧ ¬Spoils "3 4 + 5" "→" " 6" ∧
      (({} : Keypad).replay "3 4 + 5\n→M").1 =
        ((({} : Keypad).replay "3 4 + 5→ 6").1.replay "→M").1 := by
  have wrong : WrongAt "3 4 + 5" "→" " 6" := by decide +kernel
  have plain : ¬Spoils "3 4 + 5" "→" " 6" := by decide +kernel
  obtain ⟨⟨error, failed⟩, below, -⟩ := replay_resumed wrong plain {} "→M"
  refine ⟨wrong, plain, ?_⟩
  show (({} : Keypad).replay ("3 4 + 5" ++ "\n" ++ "→M")).1 =
    ((({} : Keypad).replay ("3 4 + 5" ++ "→" ++ " 6")).1.replay "→M").1
  rw [below, failed]

/-- A sign that is no word spoils the `clear` in front of it, which then clears nothing. -/
theorem replay_resumed_spoilt_clear :
    WrongAt "4 clear" "≠" "" ∧ Spoils "4 clear" "≠" "" ∧
      (({} : Keypad).replay ("4 clear" ++ "\n" ++ "")).1 ≠
        ((({} : Keypad).replay ("4 clear" ++ "≠" ++ "")).1.replay "").1 := by
  refine ⟨by decide +kernel, by decide +kernel, fun same => ?_⟩
  have sizes : (({} : Keypad).replay ("4 clear" ++ "\n" ++ "")).1.machine.program.size = 0 ∧
      ((({} : Keypad).replay ("4 clear" ++ "≠" ++ "")).1.replay "").1.machine.program.size = 1 := by
    decide +kernel
  rw [same] at sizes
  omega

end Keypad

end StackCalculator
