import StackCalculator.Proofs.Script.Written

/-! # Cutting digits and points

A script cuts a text of digits and points into number literals: a first one, and further ones that
each begin with a point (`exists_chain`). A point behind a number with a point begins another number,
and these literals are all the words of the text (`Chain.spoken_eq`).
-/

namespace StackCalculator.Script

open Literal (Denotes)

/-- Digits and points, and nothing else. -/
def Dotted (cs : List Char) : Prop :=
  ∀ c ∈ cs, c.isDigit ∨ c = '.'

instance (cs : List Char) : Decidable (Dotted cs) :=
  List.decidableBAll (fun c : Char => c.isDigit ∨ c = '.') cs

/-- A text that is empty or goes on with a point. -/
def AtPoint (rest : List Char) : Prop :=
  ∀ c ∈ rest.head?, c = '.'

/-- A point and some digits. -/
def IsFraction (part : List Char) : Prop :=
  ∃ digits, Digits digits ∧ part = '.' :: digits

theorem AtPoint.not_isDigit {rest : List Char} (atPoint : AtPoint rest) :
    ∀ c ∈ rest.head?, ¬c.isDigit := by
  intro c first
  rw [atPoint c first]
  decide

theorem AtPoint.powerLength {rest : List Char} (atPoint : AtPoint rest) : powerLength rest = 0 := by
  cases rest with
  | nil => rfl
  | cons c rest =>
    cases atPoint c rfl
    simp [Script.powerLength]

theorem atPoint_dropWhile {cs : List Char} (dotted : Dotted cs) :
    AtPoint (cs.dropWhile Char.isDigit) := by
  intro c first
  have found := (List.dropWhile_sublist _).mem (List.mem_of_mem_head? first)
  exact (dotted c found).resolve_left (not_of_mem_head?_dropWhile c first)

theorem atPoint_drop_digitCount {cs : List Char} (dotted : Dotted cs) :
    AtPoint (cs.drop (digitCount cs)) := by
  have behind : cs.drop (digitCount cs) = cs.dropWhile Char.isDigit :=
    drop_length_takeWhile Char.isDigit cs
  exact behind ▸ atPoint_dropWhile dotted

/-! ## Words in front of a point -/

theorem spoken_number {length : List Char → Nat} {c : Char} {cs rest : List Char}
    (read : piece c (cs ++ rest) = reading length (number c) (cs ++ rest))
    (whole : length (cs ++ rest) = cs.length) :
    spoken (c :: (cs ++ rest)) = .number (String.ofList (c :: cs)) :: spoken rest := by
  rw [spoken_cons, read, reading_of_length whole, List.drop_left]
  rfl

theorem spoken_fraction {part rest : List Char} (fraction : IsFraction part)
    (atPoint : AtPoint rest) :
    spoken (part ++ rest) = .number (String.ofList part) :: spoken rest := by
  obtain ⟨digits, number, rfl⟩ := fraction
  have counted := digitCount_append number.all atPoint.not_isDigit
  have some_digit : 0 < digitCount (digits ++ rest) := by
    rw [counted]
    exact List.length_pos_iff.2 number.nonempty
  apply spoken_number (piece_point some_digit)
  rw [pointedLength, counted, List.drop_left, atPoint.powerLength, Nat.add_zero]

theorem atPoint_flatten_append {parts : List (List Char)}
    (fractions : ∀ part ∈ parts, IsFraction part) {rest : List Char} (atPoint : AtPoint rest) :
    AtPoint (parts.flatten ++ rest) := by
  cases parts with
  | nil => exact atPoint
  | cons part parts =>
    obtain ⟨digits, -, rfl⟩ := fractions part List.mem_cons_self
    rintro c ⟨⟩
    rfl

theorem eq_nil_of_flatten {parts : List (List Char)} (fractions : ∀ part ∈ parts, IsFraction part)
    (empty : parts.flatten = []) : parts = [] := by
  cases parts with
  | nil => rfl
  | cons part parts =>
    obtain ⟨digits, -, rfl⟩ := fractions part List.mem_cons_self
    cases empty

/-- The number words of some parts of a text. -/
def numbers (parts : List (List Char)) : List Word :=
  parts.map fun part => .number (String.ofList part)

theorem spoken_fractions {parts : List (List Char)} (fractions : ∀ part ∈ parts, IsFraction part)
    {rest : List Char} (atPoint : AtPoint rest) :
    spoken (parts.flatten ++ rest) = numbers parts ++ spoken rest := by
  induction parts with
  | nil => rfl
  | cons part parts ih =>
    obtain ⟨first, later⟩ := List.forall_mem_cons.1 fractions
    rw [List.flatten_cons, List.append_assoc,
      spoken_fraction first (atPoint_flatten_append later atPoint), ih later]
    rfl

theorem afterDigitsLength_point_eq {rest : List Char}
    (atPoint : AtPoint (rest.drop (digitCount rest))) :
    afterDigitsLength ('.' :: rest) = digitCount rest + 1 := by
  show 1 + digitCount rest + powerLength (('.' :: rest).drop (1 + digitCount rest)) = _
  rw [Nat.add_comm 1, List.drop_succ_cons, atPoint.powerLength, Nat.add_zero]

theorem wholeLength_pointed {digits fraction rest : List Char} (front : ∀ c ∈ digits, c.isDigit)
    (behind : ∀ c ∈ fraction, c.isDigit) (atPoint : AtPoint rest) :
    wholeLength (digits ++ '.' :: (fraction ++ rest)) = (digits ++ '.' :: fraction).length := by
  have stop : ∀ c ∈ ('.' :: (fraction ++ rest)).head?, ¬c.isDigit := by
    rintro c ⟨⟩
    decide
  have counted := digitCount_append front stop
  have after : afterDigitsLength ('.' :: (fraction ++ rest)) = fraction.length + 1 := by
    have counted := digitCount_append behind atPoint.not_isDigit
    rw [afterDigitsLength_point_eq, counted]
    rwa [counted, List.drop_left]
  rw [wholeLength, counted, List.drop_left, after, List.length_append, List.length_cons]

/-- A number that has a point ends in front of another point. -/
theorem spoken_pointed {first rest : List Char} {d : Decimal} (literal : Denotes first d)
    (dotted : Dotted first) (point : '.' ∈ first) (atPoint : AtPoint rest) :
    spoken (first ++ rest) = .number (String.ofList first) :: spoken rest := by
  obtain @⟨mantissa, whole, fraction, power, n, digits, tens⟩ := literal
  have absent : power = [] := by
    cases power with
    | nil => rfl
    | cons mark power =>
      have unmarked := dotted mark (List.mem_append_right _ List.mem_cons_self)
      obtain rfl | rfl := tens.head mark rfl <;> exact absurd unmarked (by decide)
  subst absent
  rw [List.append_nil] at dotted point ⊢
  cases digits with
  | whole front => exact absurd (front.all '.' point) (by decide)
  | fraction behind => exact spoken_fraction ⟨_, behind, rfl⟩ atPoint
  | pointed front behind =>
    obtain ⟨c, more, rfl, digit⟩ := front.exists_cons
    have all := (List.forall_mem_cons.1 front.all).2
    rw [List.cons_append, List.cons_append]
    apply spoken_number (piece_digit digit _)
    rw [List.append_assoc, List.cons_append]
    exact wholeLength_pointed all behind atPoint

/-! ## Cutting digits and points -/

/-- A text is a number and others behind it, which begin with their points. If there are others, the
first number has a point too. -/
structure Chain (cs first : List Char) (later : List (List Char)) : Prop where
  split : cs = first ++ later.flatten
  literal : ∃ d, Denotes first d
  fractions : ∀ part ∈ later, IsFraction part
  pointed : later ≠ [] → '.' ∈ first

/-- From a point on, a text is cut into numbers that begin with their points. The first point that is
not followed by a digit is no word. -/
theorem exists_fractions {cs : List Char} (dotted : Dotted cs) (atPoint : AtPoint cs) :
    ∃ (parts : List (List Char)) (stray : List Char), cs = parts.flatten ++ stray ∧
      (∀ part ∈ parts, IsFraction part) ∧ AtPoint stray ∧
        (stray = [] ∨ .unknown '.' ∈ spoken stray) := by
  induction cs using drop_induction with
  | nil => exact ⟨[], [], rfl, List.forall_mem_nil _, atPoint, .inl rfl⟩
  | cons c rest ih =>
    cases atPoint c rfl
    by_cases some_digit : 0 < digitCount rest
    · have dottedRest : Dotted rest := (List.forall_mem_cons.1 dotted).2
      have dottedMore : Dotted (rest.drop (digitCount rest)) :=
        fun c found => dottedRest c (List.mem_of_mem_drop found)
      obtain ⟨parts, stray, split, fractions, atStray, ends⟩ :=
        ih _ dottedMore (atPoint_drop_digitCount dottedRest)
      have first : IsFraction ('.' :: rest.take (digitCount rest)) :=
        ⟨_, digits_take (Nat.pos_iff_ne_zero.1 some_digit), rfl⟩
      refine ⟨_ :: parts, stray, ?_, List.forall_mem_cons.2 ⟨first, fractions⟩, atStray, ends⟩
      rw [List.flatten_cons, List.append_assoc, ← split, List.cons_append, List.take_append_drop]
    · have none : digitCount rest = 0 := Nat.eq_zero_of_not_pos some_digit
      refine ⟨[], '.' :: rest, rfl, List.forall_mem_nil _, atPoint, .inr ?_⟩
      rw [spoken_cons, piece_lone_point none]
      exact List.mem_cons_self

theorem IsFraction.literal {part : List Char} (fraction : IsFraction part) :
    ∃ d, Denotes part d := by
  obtain ⟨digits, number, rfl⟩ := fraction
  rw [← List.append_nil ('.' :: digits)]
  exact ⟨_, .literal (.fraction number) .absent⟩

theorem IsFraction.pointed {part : List Char} (fraction : IsFraction part) : '.' ∈ part := by
  obtain ⟨digits, -, rfl⟩ := fraction
  exact List.mem_cons_self

/-- Behind a number that a text of digits and points begins with, there is nothing or a point, and
nothing if it has no point itself. -/
theorem atPoint_drop_wholeLength {rest : List Char} (dotted : Dotted rest) :
    AtPoint (rest.drop (wholeLength rest)) ∧
      (rest.drop (wholeLength rest) ≠ [] → '.' ∈ rest.take (wholeLength rest)) := by
  have atBehind := atPoint_drop_digitCount dotted
  have dottedBehind : Dotted (rest.drop (digitCount rest)) :=
    fun c found => dotted c (List.mem_of_mem_drop found)
  rw [wholeLength, ← List.drop_drop, List.take_add]
  cases behind : rest.drop (digitCount rest) with
  | nil => exact ⟨by simp [AtPoint], by simp⟩
  | cons c more =>
    rw [behind] at atBehind dottedBehind
    cases atBehind c rfl
    have atPoint := atPoint_drop_digitCount (List.forall_mem_cons.1 dottedBehind).2
    rw [afterDigitsLength_point_eq atPoint, List.drop_succ_cons, List.take_succ_cons]
    exact ⟨atPoint, fun _ => List.mem_append_right _ List.mem_cons_self⟩

/-- Digits and points are numbers one after another, up to a point that is no word. -/
theorem exists_chain {cs : List Char} (nonempty : cs ≠ []) (dotted : Dotted cs) :
    .unknown '.' ∈ spoken cs ∨
      ∃ first later, Chain cs first later ∧ spoken cs = numbers (first :: later) := by
  obtain ⟨c, rest, rfl⟩ := List.exists_cons_of_ne_nil nonempty
  obtain ⟨first, dottedRest⟩ := List.forall_mem_cons.1 dotted
  by_cases digit : c.isDigit
  · obtain ⟨atPoint, pointed⟩ := atPoint_drop_wholeLength dottedRest
    have dottedMore : Dotted (rest.drop (wholeLength rest)) :=
      fun c found => dottedRest c (List.mem_of_mem_drop found)
    have read : spoken (c :: rest) =
        .number (String.ofList (c :: rest.take (wholeLength rest))) ::
          spoken (rest.drop (wholeLength rest)) := by
      rw [spoken_cons, piece_digit digit]
      rfl
    obtain ⟨parts, stray, split, fractions, atStray, ends⟩ := exists_fractions dottedMore atPoint
    rw [read, split, spoken_fractions fractions atStray]
    obtain rfl | unknown := ends
    · right
      refine ⟨_, parts, ⟨?_, exists_denotes_whole digit rest, fractions, ?_⟩, ?_⟩
      · rw [List.append_nil] at split
        rw [← split, List.cons_append, List.take_append_drop]
      · intro some_part
        apply List.mem_cons_of_mem
        apply pointed
        rw [split, List.append_nil]
        exact fun none => some_part (eq_nil_of_flatten fractions none)
      · rw [spoken_nil, List.append_nil]
        rfl
    · left
      exact List.mem_cons_of_mem _ (List.mem_append_right _ unknown)
  · have point : c = '.' := by tauto
    have atPoint : AtPoint (c :: rest) := by
      rintro d ⟨⟩
      exact point
    obtain ⟨parts, stray, split, fractions, atStray, ends⟩ := exists_fractions dotted atPoint
    rw [split, spoken_fractions fractions atStray]
    obtain rfl | unknown := ends
    · right
      cases parts with
      | nil => cases split
      | cons part parts =>
        obtain ⟨fraction, later⟩ := List.forall_mem_cons.1 fractions
        refine ⟨part, parts, ⟨?_, fraction.literal, later, fun _ => fraction.pointed⟩, ?_⟩
        · simp
        · rw [spoken_nil, List.append_nil]
    · left
      exact List.mem_append_right _ unknown

theorem Chain.spoken_eq {cs first : List Char} {later : List (List Char)}
    (chain : Chain cs first later) (dotted : Dotted cs) (several : later ≠ []) :
    spoken cs = numbers (first :: later) := by
  obtain ⟨d, literal⟩ := chain.literal
  have dottedFirst : Dotted first := by
    intro c found
    apply dotted
    rw [chain.split]
    exact List.mem_append_left _ found
  have atEnd : AtPoint [] := by
    rintro c ⟨⟩
  have split : cs = first ++ (later.flatten ++ []) := by rw [List.append_nil, chain.split]
  rw [split, spoken_pointed literal dottedFirst (chain.pointed several)
    (atPoint_flatten_append chain.fractions atEnd), spoken_fractions chain.fractions atEnd,
    spoken_nil, List.append_nil]
  rfl

end StackCalculator.Script
