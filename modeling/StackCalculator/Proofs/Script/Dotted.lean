import StackCalculator.Proofs.Kinds
import StackCalculator.Proofs.Script.Entries
import StackCalculator.Proofs.Script.Points

/-! # Digits and points

Digits and points may be keyed in, or stand in a script. Keyed in, they are one entry, which is lost
if it has two points. A script cuts them into literals, and a point behind a number with a point
begins another number. So the two agree, unless a script severs the text like that
(`replay_dotted`).
-/

namespace StackCalculator.Script

open Literal (Denotes)

/-! ## What digits and points are worth -/

theorem eq_nil_of_powerOfTen? {cs : List Char} (dotted : Dotted cs) {n : Int}
    (read : Numeral.powerOfTen? cs = some n) : cs = [] := by
  cases cs with
  | nil => rfl
  | cons c rest =>
    have unmarked : ¬(c = 'e' ∨ c = 'E') := by
      rintro (rfl | rfl) <;> exact absurd (dotted _ List.mem_cons_self) (by decide)
    rw [Numeral.powerOfTen?, if_neg unmarked] at read
    cases read

theorem count_point_of_digits {digits : List Char} (all : ∀ c ∈ digits, c.isDigit) :
    digits.count '.' = 0 :=
  List.count_eq_zero.2 fun found => absurd (all _ found) (by decide)

/-- A decimal has one point at most. -/
theorem count_point_of_decimal? {cs : List Char} (dotted : Dotted cs) {d : Decimal}
    (read : Numeral.decimal? cs = some d) : cs.count '.' ≤ 1 := by
  have front : (cs.takeWhile Char.isDigit).count '.' = 0 :=
    count_point_of_digits fun _ => List.mem_takeWhile_imp
  have dottedBehind : Dotted (cs.dropWhile Char.isDigit) :=
    fun c found => dotted c ((List.dropWhile_sublist _).mem found)
  have atPoint := atPoint_dropWhile dotted
  have whole : cs.takeWhile Char.isDigit ++ cs.dropWhile Char.isDigit = cs :=
    List.takeWhile_append_dropWhile
  rw [← whole, List.count_append, front, Nat.zero_add]
  rw [Numeral.decimal?] at read
  cases behind : cs.dropWhile Char.isDigit with
  | nil => exact Nat.zero_le 1
  | cons c rest =>
    rw [behind] at dottedBehind atPoint read
    cases atPoint c rfl
    have dottedRest := (List.forall_mem_cons.1 dottedBehind).2
    have ended : rest.dropWhile Char.isDigit = [] := by
      simp only [Numeral.splitFraction] at read
      split at read
      · cases read
      · obtain ⟨n, power, -⟩ := Option.map_eq_some_iff.1 read
        exact eq_nil_of_powerOfTen?
          (fun c found => dottedRest c ((List.dropWhile_sublist _).mem found)) power
    rw [List.count_cons_self,
      count_point_of_digits (List.dropWhile_eq_nil_iff.1 ended)]

/-- An entry with two points is no number. -/
theorem entryValue?_dotted {text : String} (dotted : Dotted text.toList)
    (points : 2 ≤ text.toList.count '.') : entryValue? text = none := by
  have parts : ∀ c ∈ text.toList, ¬Text.isBlank c := by
    intro c found
    apply Literal.not_isBlank_of_isPart
    obtain digit | rfl := dotted c found
    · exact .inl digit
    · exact .inr (by decide)
  have unsigned : Numeral.splitSign text.toList = (false, text.toList) := by
    cases same : text.toList with
    | nil => rfl
    | cons c rest =>
      obtain digit | rfl := dotted c (same ▸ List.mem_cons_self)
      · exact Numeral.splitSign_of_isDigit digit rest
      · rfl
  have noDecimal : Numeral.decimal? text.toList = none := by
    cases read : Numeral.decimal? text.toList with
    | none => rfl
    | some d => exact absurd (count_point_of_decimal? dotted read) (Nat.not_le.2 points)
  rw [entryValue?, Text.trim_eq_self parts, readFinite?, Numeral.ofChars?, unsigned]
  simp only [noDecimal]
  exact Numeral.bind_word?_finite? false _

/-- A number with nothing in front of its point is less than one. -/
theorem IsFraction.not_overflows {part : List Char} (fraction : IsFraction part) :
    ¬Overflows (String.ofList part) := by
  obtain ⟨digits, number, rfl⟩ := fraction
  have literal := Denotes.literal (.fraction number) .absent
  rw [List.append_nil] at literal
  have one : (1 : ℚ) < 2 ^ 1024 - 2 ^ 970 := by
    have finite : Decimal.rank ⟨1, 0⟩ < Binary64.infinityRank := by decide +kernel
    simpa [Decimal.value] using (Decimal.rank_lt_infinityRank_iff _).1 finite
  have small : (Numeral.ofDigits digits : ℚ) < 10 ^ digits.length := by
    exact_mod_cast Numeral.ofDigits_lt number.all
  rintro ⟨d, denotes, large⟩
  rw [String.toList_ofList] at denotes
  rw [denotes.unique literal, Decimal.value, List.nil_append, Int.zero_sub, zpow_neg,
    zpow_natCast] at large
  have below : (Numeral.ofDigits digits : ℚ) * (10 ^ digits.length)⁻¹ < 1 := by
    rwa [← div_eq_mul_inv, div_lt_one (by positivity)]
  exact absurd (one.trans_le large) (not_lt.2 below.le)

/-- A text is cut into several numbers, and the first of them can be entered. The others can
anyway. -/
structure Severed (cs first : List Char) (later : List (List Char)) : Prop
    extends Chain cs first later where
  several : later ≠ []
  fits : ¬Overflows (String.ofList first)

/-- The values of some parts of a text as entries. -/
def Values (parts : List (List Char)) (values : List Float) : Prop :=
  List.Forall₂ (fun part value => entryValue? (String.ofList part) = some value) parts values

theorem exists_values {parts : List (List Char)}
    (readable : ∀ part ∈ parts, ∃ value, entryValue? (String.ofList part) = some value) :
    ∃ values, Values parts values := by
  induction parts with
  | nil => exact ⟨[], .nil⟩
  | cons part parts ih =>
    obtain ⟨⟨value, read⟩, further⟩ := List.forall_mem_cons.1 readable
    obtain ⟨values, later⟩ := ih further
    exact ⟨value :: values, .cons read later⟩

theorem exists_value {part : List Char} (literal : ∃ d, Denotes part d)
    (fits : ¬Overflows (String.ofList part)) :
    ∃ value, entryValue? (String.ofList part) = some value := by
  obtain ⟨d, denotes⟩ := literal
  rw [← String.toList_ofList (l := part)] at denotes
  exact Option.ne_none_iff_exists'.1 (mt (overflows_iff denotes).2 fits)

theorem Severed.exists_value {cs first : List Char} {later : List (List Char)}
    (severed : Severed cs first later) :
    ∀ part ∈ first :: later, ∃ value, entryValue? (String.ofList part) = some value := by
  refine List.forall_mem_cons.2 ⟨Script.exists_value severed.literal severed.fits, ?_⟩
  intro part found
  have fraction := severed.fractions part found
  exact Script.exists_value fraction.literal fraction.not_overflows

theorem Severed.two_le_count {cs first : List Char} {later : List (List Char)}
    (severed : Severed cs first later) : 2 ≤ cs.count '.' := by
  obtain ⟨part, more, rfl⟩ := List.exists_cons_of_ne_nil severed.several
  have second := (severed.fractions part List.mem_cons_self).pointed
  have front := List.count_pos_iff.2 (severed.pointed severed.several)
  have behind := List.count_pos_iff.2 second
  rw [severed.split, List.flatten_cons, List.count_append, List.count_append]
  omega

end StackCalculator.Script

namespace StackCalculator.Keypad

open Script
open Literal (Denotes)

/-! ## Scripts and keys -/

theorem exists_error_of_offends {source : String} {word : Word}
    (found : word ∈ withoutBreaks (words source)) (offends : word.Offends) (k : Keypad) :
    ∃ error, (k.replay source).2 = .error error := by
  obtain right | ⟨before, wrong, later, error, split, right, failed⟩ :=
    right_or_exists_wrong (words source)
  · obtain ⟨placed, member, rfl, -⟩ := exists_of_mem_withoutBreaks found
    exact absurd offends ((error?_eq_none_iff member).1 (right placed member))
  · exact ⟨error, congrArg Prod.snd (replay_of_wrong split right failed k)⟩

/-- Numbers that are pressed one after another are all entered in the end. -/
theorem endTyping_pressWords_numbers {parts : List (List Char)} {values : List Float}
    (read : Values parts values) (k : Keypad) :
    (k.pressWords (numbers parts)).endTyping =
      { machine := k.endTyping.machine.pushAll (values.map Token.operand)
        display := values.getLast?.or k.endTyping.display } := by
  induction read generalizing k with
  | nil => exact congrArg (Keypad.mk _ · _) k.entry_endTyping
  | @cons part value parts values first later ih =>
    let typing := k.pressAll ((Word.number (String.ofList part)).keys k)
    calc (k.pressWords (numbers (part :: parts))).endTyping
        = (typing.pressWords (numbers parts)).endTyping := rfl
      _ = { machine :=
              (k.endTyping.machine.push (.operand value)).pushAll (values.map Token.operand)
            display := values.getLast?.or (some value) } := by
        rw [ih, k.endTyping_pressAll_number first]
      _ = { machine := k.endTyping.machine.pushAll ((value :: values).map Token.operand)
            display := (value :: values).getLast?.or k.endTyping.display } := by
        simp [Machine.push, Machine.pushAll, Program.push, Program.pushAll, List.getLast?_cons]

/-- A number is typed and entered, unless it overflows. -/
theorem replay_number {t : String} (single : withoutBreaks (words t) = [.number t]) {k : Keypad}
    (idle : k.entry = none) :
    (∃ error, (k.replay t).2 = .error error) ∨
      (k.replay t).1 = k.pressAll [.typed t, .enter] := by
  obtain right | ⟨before, wrong, later, error, split, right, failed⟩ :=
    right_or_exists_wrong (words t)
  · right
    rw [replay_of_right right, single, pressWords_cons, pressWords_nil, pressAll_number,
      endTyping_of_idle idle]
    simp [pressAll, press, endTyping, isTyping, idle]
  · exact .inl ⟨error, congrArg Prod.snd (replay_of_wrong split right failed k)⟩

/-- A severed text is lost when it is keyed in, and each of its numbers is entered by a script. -/
theorem replay_severed {t : String} (dotted : Dotted t.toList) {first : List Char}
    {later : List (List Char)} (severed : Severed t.toList first later) {k : Keypad}
    (idle : k.entry = none) :
    k.pressAll [.typed t, .enter] = { k with display := none } ∧
      ∃ values, Values (first :: later) values ∧
        k.replay t = ({ k with machine := k.machine.pushAll (values.map Token.operand)
                               display := values.getLast? }, .ok values.getLast?) := by
  constructor
  · have unread := entryValue?_dotted dotted severed.two_le_count
    simp [pressAll, press, enter, current?, idle, unread]
  · obtain ⟨values, read⟩ := exists_values severed.exists_value
    have spoken : withoutBreaks (words t) = numbers (first :: later) := by
      rw [words, withoutBreaks_wordsFrom, severed.spoken_eq dotted severed.several]
    have right : Right (words t) := by
      refine right_of_endsTyping fun word found => ?_
      rw [spoken] at found
      obtain ⟨part, member, rfl⟩ := List.mem_map.1 found
      exact Option.isSome_iff_exists.2 (severed.exists_value part member)
    refine ⟨values, read, ?_⟩
    rw [replay_of_right right, spoken, endTyping_pressWords_numbers read, endTyping_of_idle idle]
    cases read with
    | cons => simp [List.getLast?_cons, idle]

/-- Digits and points that a script reads without an error do to a keypad what they do when they are
keyed in and entered, unless they are severed. Then they are lost on the keypad, and the script
enters every number that they are cut into. -/
theorem replay_dotted {t : String} (nonempty : t ≠ "") (dotted : Dotted t.toList) {k : Keypad}
    (idle : k.entry = none) :
    ((∃ error, (k.replay t).2 = .error error) ∨ (k.replay t).1 = k.pressAll [.typed t, .enter] ↔
      ¬∃ first later, Severed t.toList first later) ∧
    ∀ first later, Severed t.toList first later →
      k.pressAll [.typed t, .enter] = { k with display := none } ∧
        ∃ values, Values (first :: later) values ∧
          k.replay t = ({ k with machine := k.machine.pushAll (values.map Token.operand)
                                 display := values.getLast? }, .ok values.getLast?) := by
  refine ⟨⟨?_, fun whole => ?_⟩, fun first later severed => replay_severed dotted severed idle⟩
  · rintro agree ⟨first, later, severed⟩
    obtain ⟨keyed, values, read, ran⟩ := replay_severed dotted severed idle
    rw [keyed, ran] at agree
    obtain ⟨error, failed⟩ | same := agree
    · cases failed
    · -- the script has entered a number at least, and the keys none
      have longer := congrArg (fun k => k.machine.program.toList.length) same
      cases read with
      | cons => simp [Machine.pushAll] at longer
  · have some_char : t.toList ≠ [] := by simpa using nonempty
    have spoken : withoutBreaks (words t) = spoken t.toList := by
      rw [words, withoutBreaks_wordsFrom]
    obtain unknown | ⟨first, later, chain, read⟩ := exists_chain some_char dotted
    · rw [← spoken] at unknown
      exact .inl (exists_error_of_offends unknown trivial k)
    · cases later with
      | nil =>
        have single : t = String.ofList first := by
          rw [← String.ofList_toList (s := t), chain.split]
          simp
        refine replay_number ?_ idle
        rw [spoken, read, single]
        rfl
      | cons part later =>
        -- the text is not severed, so its first number is refused
        have overflows : Overflows (String.ofList first) := by
          by_contra fits
          exact whole ⟨first, _, chain, List.cons_ne_nil _ _, fits⟩
        have found : .number (String.ofList first) ∈ withoutBreaks (words t) := by
          rw [spoken, read]
          exact List.mem_cons_self
        exact .inl (exists_error_of_offends found overflows k)

/-- A number may end in its point. Each point behind it begins another number. -/
theorem replay_dotted_point_behind_point :
    let k : Keypad := {}
    k.pressAll [.typed "1..2.30", .enter] = k ∧
      ∃ values, Values [['1', '.'], ['.', '2'], ['.', '3', '0']] values ∧
        k.replay "1..2.30" = ({ k with machine := k.machine.pushAll (values.map Token.operand)
                                       display := values.getLast? }, .ok values.getLast?) := by
  have digits {cs : List Char} (nonempty : cs ≠ []) (all : cs.all Char.isDigit) : Digits cs :=
    ⟨nonempty, List.all_eq_true.1 all⟩
  have one : Denotes "1.".toList _ :=
    .literal (.pointed (digits (List.cons_ne_nil '1' []) rfl) (List.forall_mem_nil _)) .absent
  have severed : Severed "1..2.30".toList ['1', '.'] [['.', '2'], ['.', '3', '0']] := by
    refine ⟨⟨by decide, ⟨_, one⟩, ?_, fun _ => by decide⟩, by decide, ?_⟩
    · refine List.forall_mem_cons.2 ⟨⟨['2'], digits (by decide) rfl, rfl⟩, ?_⟩
      exact List.forall_mem_singleton.2 ⟨['3', '0'], digits (by decide) rfl, rfl⟩
    · exact mt (overflows_iff one).1 (by decide +kernel)
  exact (replay_dotted (by decide) (by decide +kernel) rfl).2 _ _ severed

/-- A script reads two numbers where a keypad has one entry that is no number. -/
theorem replay_severs_malformed_entry :
    let k : Keypad := {}
    Dotted "1.2.3".toList ∧
      ¬((∃ error, (k.replay "1.2.3").2 = .error error) ∨
        (k.replay "1.2.3").1 = k.pressAll [.typed "1.2.3", .enter]) := by
  intro k
  have ran : (k.replay "1.2.3").2.isOk ∧ (k.replay "1.2.3").1.machine.program.size = 2 ∧
      (k.pressAll [.typed "1.2.3", .enter]).machine.program.size = 0 := by
    decide +kernel
  obtain ⟨ok, two, none⟩ := ran
  refine ⟨by decide +kernel, ?_⟩
  rintro (⟨error, failed⟩ | same)
  · rw [failed] at ok
    cases ok
  · rw [same, none] at two
    cases two

end StackCalculator.Keypad
