import StackCalculator.Proofs.Decimal.ReadBack
import StackCalculator.Report

/-! # Assignments and what they bind

`Assignment.ofChars?_eq_some_iff` tells which texts are assignments. A name and the written form of a
finite number are read back from the assignment made of them, and of several assignments to one name
the last one counts.
-/

namespace StackCalculator

/-! ## What is read as an assignment -/

/-- There is no blank in a number that is written in full. -/
theorem Layout.not_isBlank_of_mem_chars {x : Float} (finite : Binary64.isFinite x) :
    ∀ c ∈ plain.chars x, ¬Text.isBlank c := by
  have unsigned := unsigned_magnitude (Binary64.isFinite_iff.1 finite)
  have digits : ∀ c ∈ plain.magnitude (Binary64.rank x), ¬Text.isBlank c := by
    intro c found
    refine Literal.not_isBlank_of_isPart ((unsigned.isDigit_or_point found).imp_right ?_)
    rintro rfl
    decide
  rw [plain_chars_of_isFinite finite]
  split
  · exact List.forall_mem_cons.2 ⟨by decide, digits⟩
  · exact digits

namespace Assignment

theorem split?_eq_some_iff {cs front back : List Char} :
    split? cs = some (front, back) ↔ cs = front ++ '=' :: back ∧ '=' ∉ front := by
  constructor
  · intro found
    have whole : cs.takeWhile (· ≠ '=') ++ cs.dropWhile (· ≠ '=') = cs :=
      List.takeWhile_append_dropWhile
    have stop : ∀ c ∈ (cs.dropWhile (· ≠ '=')).head?, ¬(c ≠ '=' : Bool) :=
      not_of_mem_head?_dropWhile
    rw [split?] at found
    split at found
    · cases found
    · next sign value rest =>
      cases found
      rw [rest] at stop whole
      obtain rfl : sign = '=' := by simpa using stop sign rfl
      refine ⟨whole.symm, fun found => ?_⟩
      simpa using List.mem_takeWhile_imp found
  · rintro ⟨rfl, unsplit⟩
    have all : ∀ c ∈ front, (c ≠ '=' : Bool) := fun c found =>
      decide_eq_true (ne_of_mem_of_not_mem found unsplit)
    have stop : ∀ c ∈ ('=' :: back).head?, ¬(c ≠ '=' : Bool) := by simp
    obtain ⟨taken, dropped⟩ := takeWhile_append_of_stop all stop
    rw [split?, dropped, taken]

theorem ofChars?_eq_some_iff {cs : List Char} {name : String} {value : Float} :
    ofChars? cs = some ⟨name, value⟩ ↔
      ∃ front back, cs = front ++ '=' :: back ∧ '=' ∉ front ∧ Text.TrimsTo front name.toList ∧
        name ≠ "" ∧ ∃ text, Text.TrimsTo back text ∧ readFloat? (String.ofList text) = some value ∧
          Binary64.isFinite value := by
  constructor
  · intro found
    obtain ⟨⟨front, back⟩, split, rest⟩ := Option.bind_eq_some_iff.1 found
    obtain ⟨nonempty, rest⟩ := Option.ite_none_left_eq_some.1 rest
    obtain ⟨read, number, same⟩ := Option.bind_eq_some_iff.1 rest
    cases same
    obtain ⟨rfl, unsplit⟩ := split?_eq_some_iff.1 split
    refine ⟨front, back, rfl, unsplit, ?_, ?_, _, Text.trimsTo_trim back,
      readFinite?_eq_some_iff.1 number⟩
    · rw [String.toList_ofList]
      exact Text.trimsTo_trim front
    · rwa [Ne, String.ofList_eq_empty_iff]
  · rintro ⟨front, back, rfl, unsplit, nameTrims, nonempty, text, textTrims, number⟩
    have nonempty : ¬name.toList = [] := mt String.toList_eq_nil_iff.1 nonempty
    rw [ofChars?, split?_eq_some_iff.2 ⟨rfl, unsplit⟩]
    simp only [Option.bind_eq_bind, Option.bind_some, nameTrims.trim_eq, textTrims.trim_eq,
      if_neg nonempty, readFinite?_eq_some_iff.2 number, String.ofList_toList]
    rfl

theorem ofString_eq_ok_iff {setting : String} {assignment : Assignment} :
    ofString setting = .ok assignment ↔ ofChars? setting.toList = some assignment := by
  rw [ofString]
  cases ofChars? setting.toList <;> simp

theorem ofString_of_not_ok {setting : String}
    (refused : ∀ assignment, ofString setting ≠ .ok assignment) :
    ofString setting = .error (.invalidAssignment setting) := by
  rw [ofString]
  split
  · next assignment found => exact absurd (ofString_eq_ok_iff.2 found) (refused assignment)
  · rfl

/-- A name and a finite number, written in full, are read back from the assignment made of them. -/
theorem ofString_written {name : String} {value : Float} (nonempty : name ≠ "")
    (unsplit : '=' ∉ name.toList) (first : ∀ c ∈ name.toList.head?, ¬Text.isBlank c)
    (last : ∀ c ∈ name.toList.getLast?, ¬Text.isBlank c) (finite : Binary64.isFinite value)
    {before behind leading trailing : String}
    (blank : ∀ c ∈ (before ++ behind ++ leading ++ trailing).toList, Text.isBlank c) :
    ofString (before ++ name ++ behind ++ "=" ++ leading ++ Layout.plain.write value ++ trailing) =
      .ok ⟨name, value⟩ := by
  simp only [String.toList_append, List.forall_mem_append] at blank
  obtain ⟨⟨⟨before_blank, behind_blank⟩, leading_blank⟩, trailing_blank⟩ := blank
  have sign : ¬Text.isBlank '=' := by decide
  have number := Layout.not_isBlank_of_mem_chars finite
  refine ofString_eq_ok_iff.2 (ofChars?_eq_some_iff.2 ⟨_, _, ?_, ?_,
    .blanks before_blank behind_blank first last, nonempty, Layout.plain.chars value,
    .blanks leading_blank trailing_blank (fun c head => number c (List.mem_of_mem_head? head))
      (fun c tail => number c (List.mem_of_mem_getLast? tail)),
    readFinite?_eq_some_iff.1 (readFinite?_chars finite)⟩)
  · simp [Layout.write]
  · simp only [List.mem_append, not_or]
    exact ⟨mt (before_blank _) sign, unsplit, mt (behind_blank _) sign⟩

end Assignment

/-! ## What assignments bind -/

theorem Variables.get?_initial (name : String) :
    Variables.initial.get? name = if name = "π" then some circleConstant else none := by
  have nothing : (⟨[]⟩ : Variables).get? name = none := rfl
  rw [← nothing, ← get?_set]
  rfl

theorem Machine.get?_assign (m : Machine) (assignments : List Assignment) (name : String) :
    (m.assign assignments).variables.get? name =
      ((assignments.reverse.find? (·.name = name)).map (·.value)).or (m.variables.get? name) := by
  rw [assign]
  induction assignments generalizing m with
  | nil => rfl
  | cons assignment later ih =>
    rw [List.foldl_cons, ih, List.reverse_cons, List.find?_append, bind, Variables.get?_set]
    -- a later assignment counts, and without one this assignment does if it is one to the name
    cases later.reverse.find? (·.name = name) with
    | some found => rfl
    | none =>
      by_cases same : assignment.name = name
      · simp [same]
      · simp [same, Ne.symm same]

/-- A text is an assignment where its first equals sign stands between a name and a finite number,
blanks around both apart. Any other text is refused as it is. The written form of a name and a finite
number is read back, with any blanks around both. A name is bound to its last assignment, and without
one only the circle constant is bound. -/
theorem assignment_read_and_bound :
    (∀ (setting name : String) (value : Float), Assignment.ofString setting = .ok ⟨name, value⟩ ↔
      ∃ front back, setting.toList = front ++ '=' :: back ∧ '=' ∉ front ∧
        Text.TrimsTo front name.toList ∧ name ≠ "" ∧
          ∃ text, Text.TrimsTo back text ∧ readFloat? (String.ofList text) = some value ∧
            Binary64.isFinite value) ∧
    (∀ setting, (∀ assignment, Assignment.ofString setting ≠ .ok assignment) →
      Assignment.ofString setting = .error (.invalidAssignment setting)) ∧
    (∀ (name : String) (value : Float), name ≠ "" → '=' ∉ name.toList →
      (∀ c ∈ name.toList.head?, ¬Text.isBlank c) → (∀ c ∈ name.toList.getLast?, ¬Text.isBlank c) →
      Binary64.isFinite value → ∀ before behind leading trailing : String,
        (∀ c ∈ (before ++ behind ++ leading ++ trailing).toList, Text.isBlank c) →
        Assignment.ofString (before ++ name ++ behind ++ "=" ++ leading ++
          Layout.plain.write value ++ trailing) = .ok ⟨name, value⟩) ∧
    ∀ (settings : Settings) (name : String), settings.machine.variables.get? name =
      ((settings.assignments.reverse.find? (·.name = name)).map (·.value)).or
        (if name = "π" then some Variables.circleConstant else none) := by
  refine ⟨fun setting name value => ?_, fun setting => Assignment.ofString_of_not_ok, ?_, ?_⟩
  · rw [Assignment.ofString_eq_ok_iff, Assignment.ofChars?_eq_some_iff]
  · intro name value nonempty unsplit first last finite before behind leading trailing
    exact Assignment.ofString_written nonempty unsplit first last finite
  · intro settings name
    rw [← Variables.get?_initial]
    exact Machine.get?_assign _ settings.assignments name

end StackCalculator
