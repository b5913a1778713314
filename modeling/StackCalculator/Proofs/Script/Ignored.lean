import StackCalculator.Proofs.Script.Blanked
import StackCalculator.Proofs.Script.Entries
import StackCalculator.Proofs.Script.Result
import StackCalculator.Proofs.Script.Resumption

/-! # Words that do nothing

A machine ignores the symbol of an operator that it does not know, and a name that is neither that
of an operator nor bound (`Machine.ignores`). Yet such a word ends the typing and changes the
display, so the words around it meet another keypad than they do without it. It makes no difference
to the machine (`machine_pressWords`), and none to what is displayed in the end, unless it is an
unknown name and the last word (`replay_blanked`).

A blank in place of a word leaves the words around it as they are, with one exception: a command
that was read as another word because of the character behind it (`Intact`).
-/

namespace StackCalculator

open Script

/-! ## What the machine ignores -/

namespace Machine

/-- A word is the symbol of an operator that the machine does not know, or a name that is neither
that of an operator nor bound. -/
def ignores (m : Machine) : Word → Bool
  | .operator symbol => !m.operators.contains symbol
  | .name text => !m.operators.contains text && !m.variables.contains text
  | _ => false

/-- The machine after a word that is no store. -/
def follow (m : Machine) : Word → Machine
  | .number literal =>
    match entryValue? literal with
    | some value => m.perform (.operand value)
    | none => m
  | .operator symbol => m.perform (.operator symbol)
  | .name text =>
    if m.operators.contains text then m.perform (.operator text) else m.perform (.reference text)
  | .clear => m.perform .clear
  | .store _ | .arrow | .lineBreak | .unknown _ => m

theorem ignores_perform (m : Machine) {command : Command}
    (free : ∀ name value, command ≠ .set name value) :
    (m.perform command).ignores = m.ignores := by
  cases command with
  | operand value => rfl
  | clear => rfl
  | set name value => exact absurd rfl (free name value)
  | reference name | operator symbol =>
    rw [perform]
    split <;> rfl

theorem ignores_follow (m : Machine) (word : Word) : (m.follow word).ignores = m.ignores := by
  cases word with
  | number literal =>
    rw [follow]
    split
    · exact m.ignores_perform (by simp)
    · rfl
  | name text =>
    rw [follow]
    split <;> exact m.ignores_perform (by simp)
  | operator symbol | clear => exact m.ignores_perform (by simp)
  | store _ | arrow | lineBreak | unknown _ => rfl

theorem ignores_foldl_follow (words : List Word) (m : Machine) :
    (words.foldl follow m).ignores = m.ignores := by
  induction words generalizing m with
  | nil => rfl
  | cons word words ih => exact (ih _).trans (m.ignores_follow word)

theorem follow_of_ignored {m : Machine} {word : Word} (ignored : m.ignores word) :
    m.follow word = m := by
  cases word with
  | operator symbol =>
    rw [ignores, Bool.not_eq_true', Operators.contains, Option.isSome_eq_false_iff,
      Option.isNone_iff_eq_none] at ignored
    rw [follow, perform, ignored]
  | name text =>
    rw [ignores, Bool.and_eq_true, Bool.not_eq_true', Bool.not_eq_true'] at ignored
    simp [follow, perform, ignored.1, ignored.2]
  | _ => cases ignored

theorem foldl_follow_filter (words : List Word) (m : Machine) :
    (words.filter fun word => !m.ignores word).foldl follow m = words.foldl follow m := by
  induction words generalizing m with
  | nil => rfl
  | cons word words ih =>
    cases ignored : m.ignores word with
    | true =>
      rw [List.filter_cons_of_neg (by simp [ignored]), ih, List.foldl_cons,
        follow_of_ignored ignored]
    | false =>
      rw [List.filter_cons_of_pos (by simp [ignored]), List.foldl_cons, List.foldl_cons,
        ← m.ignores_follow word, ih]

end Machine

namespace Keypad

/-- A word does the same to the machine, whatever is typed or displayed before it. -/
theorem machine_pressAll {word : Word} (ends : word.endsTyping) (k : Keypad) :
    (k.pressAll (word.keys k)).endTyping.machine = k.endTyping.machine.follow word := by
  cases word with
  | number literal =>
    obtain ⟨value, read⟩ := Option.isSome_iff_exists.1 ends
    rw [endTyping_pressAll_number read, Machine.follow, read]
    rfl
  | operator symbol =>
    have idle : (k.pressAll ((Word.operator symbol).keys k)).entry = none := k.entry_endTyping
    rw [endTyping_of_idle idle]
    rfl
  | name text =>
    have idle : (k.pressAll ((Word.name text).keys k)).entry = none := by
      rw [Word.keys]
      split <;> exact k.entry_endTyping
    rw [endTyping_of_idle idle]
    refine (congrArg Driver.machine (k.pressAll_name text)).trans ?_
    exact apply_ite Driver.machine _ _ _
  | clear => exact k.perform_clear_endTyping.symm
  | store _ | arrow | lineBreak | unknown _ => cases ends

theorem machine_pressWords {words : List Word} (ends : ∀ word ∈ words, word.endsTyping)
    (k : Keypad) :
    (k.pressWords words).endTyping.machine = words.foldl Machine.follow k.endTyping.machine := by
  induction words generalizing k with
  | nil => rfl
  | cons word words ih =>
    obtain ⟨first, later⟩ := List.forall_mem_cons.1 ends
    rw [pressWords_cons, ih later, machine_pressAll first, List.foldl_cons]

theorem ignores_pressWords {words : List Word} (ends : ∀ word ∈ words, word.endsTyping)
    (k : Keypad) : (k.pressWords words).machine.ignores = k.machine.ignores := by
  have typed (k : Keypad) : k.endTyping.machine.ignores = k.machine.ignores :=
    endTyping_leaves Machine.ignores (fun _ _ => rfl) k
  rw [← typed, machine_pressWords ends, Machine.ignores_foldl_follow, typed]

/-! ## Scripts without stores -/

/-- A script stores nothing. -/
def Storeless (words : List PlacedWord) : Prop :=
  ∀ target, .store target ∉ withoutBreaks words

theorem endsTyping_of_right {words : List PlacedWord} (right : Right words)
    (storeless : Storeless words) : ∀ word ∈ withoutBreaks words, word.endsTyping := by
  intro word found
  obtain ⟨placed, member, rfl, spoken⟩ := exists_of_mem_withoutBreaks found
  have checked := right placed member
  obtain ⟨word, line, start, stop⟩ := placed
  cases word with
  | number literal =>
    obtain ⟨value, read⟩ := exists_value_of_right checked rfl
    exact Option.isSome_iff_exists.2 ⟨value, read⟩
  | operator _ | name _ | clear => rfl
  | store target => exact absurd found (storeless target)
  | lineBreak => exact absurd rfl spoken
  | arrow | unknown _ => cases checked

/-- The last of some words is a name that the machine ignores. -/
def EndsIgnored (m : Machine) (words : List PlacedWord) : Prop :=
  ∃ name, (withoutBreaks words).getLast? = some (.name name) ∧ m.ignores (.name name)

theorem lacks_iff {k : Keypad} {name : String} :
    k.Lacks name ↔ k.machine.ignores (.name name) := by
  rw [Lacks, Machine.ignores, Bool.and_eq_true, Bool.not_eq_true', Bool.not_eq_true']

theorem endsUnknown_iff {k : Keypad} {words : List PlacedWord} (right : Right words)
    (storeless : Storeless words) :
    k.EndsUnknown (withoutBreaks words) ↔ EndsIgnored k.machine words := by
  have ends := endsTyping_of_right right storeless
  have same {earlier later : List Word} (split : withoutBreaks words = earlier ++ later) :
      (k.pressWords earlier).machine.ignores = k.machine.ignores := by
    apply ignores_pressWords
    intro word found
    exact ends word (split ▸ List.mem_append_left _ found)
  constructor
  · rintro ⟨earlier, name, stores, split, storing, lacks⟩
    -- behind the unknown name there are only stores, so there is nothing
    have none : stores = [] := by
      apply List.eq_nil_iff_forall_not_mem.2
      intro word found
      obtain ⟨target, rfl⟩ := storing word found
      refine storeless target ?_
      rw [split]
      exact List.mem_append_right _ (List.mem_cons_of_mem _ found)
    subst none
    refine ⟨name, by rw [split, List.getLast?_concat], ?_⟩
    rw [← same split]
    exact lacks_iff.1 lacks
  · rintro ⟨name, last, ignored⟩
    obtain ⟨earlier, split⟩ := List.getLast?_eq_some_iff.1 last
    refine ⟨earlier, name, [], split, List.forall_mem_nil _, lacks_iff.2 ?_⟩
    rwa [same split]

/-- A script without stores, on a fresh keypad over a machine with an empty program. -/
theorem replay_storeless {m : Machine} (empty : m.program = .empty) {source : String}
    (right : Right (words source)) (storeless : Storeless (words source)) :
    ∃ result,
      ({ machine := m } : Keypad).replay source =
        ({ machine := (withoutBreaks (words source)).foldl Machine.follow m, display := result },
          .ok result) ∧
      (EndsIgnored m (words source) → result = none) ∧
      (¬EndsIgnored m (words source) →
        result = ((withoutBreaks (words source)).foldl Machine.follow m).evaluate) := by
  let k : Keypad := { machine := m }
  let left := k.pressWords (withoutBreaks (words source))
  have fresh : k.Telling := by
    refine telling_of_idle rfl ?_
    show none = m.program.evaluate m.variables
    rw [empty]
    rfl
  have machine : left.endTyping.machine = (withoutBreaks (words source)).foldl Machine.follow m :=
    machine_pressWords (endsTyping_of_right right storeless) k
  obtain ⟨blank, telling⟩ := pressWords_result fresh right
  rw [endsUnknown_iff right storeless] at blank telling
  refine ⟨left.endTyping.display, ?_, fun ends => ?_, fun ends => ?_⟩
  · have whole : left.endTyping =
        { machine := left.endTyping.machine, display := left.endTyping.display } :=
      congrArg (Keypad.mk _ · _) left.entry_endTyping
    rw [replay_of_right right]
    rw [machine] at whole
    exact congrArg (·, _) whole
  · obtain ⟨idle, dark⟩ := blank ends
    rw [endTyping_of_idle idle]
    exact dark
  · rw [← machine]
    exact (telling ends).endTyping

/-- Blanks in place of the words that a machine with an empty program ignores change nothing in what
a script without stores leaves of the machine. They change what it gives back only if its last word
is a name that is ignored: it gives back nothing then, and the value of the program without it. -/
theorem replay_blanked {m : Machine} (empty : m.program = .empty) {source : String}
    (storeless : Storeless (words source)) (intact : Intact m.ignores (words source))
    {after : Keypad} {result : Option Float}
    (ran : ({ machine := m } : Keypad).replay source = (after, .ok result)) :
    ({ machine := m } : Keypad).replay (blanked m.ignores source) =
        ({ machine := after.machine, display := after.machine.evaluate },
          .ok after.machine.evaluate) ∧
      (EndsIgnored m (words source) → result = none) ∧
      (¬EndsIgnored m (words source) → result = after.machine.evaluate) := by
  have right := right_of_replay ran
  have ends := endsTyping_of_right right storeless
  obtain ⟨_, left, dark, shown⟩ := replay_storeless empty right storeless
  rw [left] at ran
  cases ran
  refine ⟨?_, dark, shown⟩
  have kept : withoutBreaks (words (blanked m.ignores source)) =
      (withoutBreaks (words source)).filter fun word => !m.ignores word :=
    withoutBreaks_words_blanked (by simp [Machine.ignores]) intact
  have within {word : Word} (found : word ∈ withoutBreaks (words (blanked m.ignores source))) :
      word ∈ withoutBreaks (words source) ∧ m.ignores word = false := by
    rw [kept, List.mem_filter, Bool.not_eq_true'] at found
    exact found
  have rightBlanked : Right (words (blanked m.ignores source)) :=
    right_of_endsTyping fun word found => ends word (within found).1
  have storelessBlanked : Storeless (words (blanked m.ignores source)) :=
    fun target found => storeless target (within found).1
  have known : ¬EndsIgnored m (words (blanked m.ignores source)) := by
    rintro ⟨name, last, ignored⟩
    rw [(within (List.mem_of_getLast? last)).2] at ignored
    cases ignored
  obtain ⟨_, leftBlanked, -, shownBlanked⟩ :=
    replay_storeless empty rightBlanked storelessBlanked
  rw [leftBlanked, shownBlanked known, kept, Machine.foldl_follow_filter]

/-- The unknown operator displays the number again, and the unknown name displays nothing. Neither is
left when the known operator takes the number. -/
theorem replay_blanked_unknown_words :
    let k : Keypad := {}
    (k.replay "3 % foo sin foo").2 = .ok none ∧
      (k.replay "3     sin  ").2 = .ok (k.replay "3 % foo sin foo").1.machine.evaluate ∧
      (k.replay "3     sin  ").1.machine = (k.replay "3 % foo sin foo").1.machine := by
  intro k
  have spoken : withoutBreaks (words "3 % foo sin foo") =
      [.number "3", .operator "%", .name "foo", .name "sin", .name "foo"] := by
    decide +kernel
  have storeless : Storeless (words "3 % foo sin foo") := fun target found => by
    simp [spoken] at found
  have right : Right (words "3 % foo sin foo") := by
    unfold Right
    decide +kernel
  have ran := replay_of_right right k
  have text : blanked k.machine.ignores "3 % foo sin foo" = "3     sin  " := by decide +kernel
  have ends : EndsIgnored k.machine (words "3 % foo sin foo") :=
    ⟨"foo", by rw [spoken]; rfl, by decide +kernel⟩
  obtain ⟨blanks, dark, -⟩ := replay_blanked rfl storeless (by decide +kernel) ran
  rw [text] at blanks
  rw [ran, blanks]
  exact ⟨congrArg Except.ok (dark ends), rfl, rfl⟩

/-- The sign that the machine does not know spoils the `clear` in front of it, which is read as the
name of the variable then. -/
theorem replay_blanked_spoilt_clear :
    let k : Keypad := { machine := ({} : Machine).bind "clear" 5 }
    Storeless (words "3 clear±") ∧ (k.replay "3 clear±").2.isOk ∧
      blanked k.machine.ignores "3 clear±" = "3 clear " ∧
      (k.replay "3 clear±").1.machine.program.size = 2 ∧
      (k.replay "3 clear ").1.machine.program.size = 0 := by
  intro k
  have spoken : withoutBreaks (words "3 clear±") =
      [.number "3", .name "clear", .operator "±"] := by
    decide +kernel
  refine ⟨fun target found => ?_, by decide +kernel⟩
  simp [spoken] at found

end Keypad

end StackCalculator
