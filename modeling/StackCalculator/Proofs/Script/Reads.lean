import StackCalculator.Script.Piece
import StackCalculator.Proofs.Runs

/-! # How much of a text is read

The lengths by which pieces are read depend on nothing behind what is read, and no line break is
read (`Reads`). Lengths that are read one behind the other keep this (`Reads.followed`).
-/

namespace StackCalculator.Script

/-- The length of something that is read at the front of a text. Nothing behind its end matters, and
there is no line break in it. -/
structure Reads (length : List Char → Nat) : Prop where
  behind : ∀ cs rest, length (cs ++ rest) ≤ cs.length → length (cs ++ rest) = length cs
  unbroken : ∀ cs : List Char, '\n' ∉ cs.take (length cs)

theorem reads_takeWhile {p : Char → Bool} (stops : p '\n' = false) :
    Reads fun cs => (cs.takeWhile p).length where
  behind cs rest within := by
    induction cs with
    | nil => exact Nat.le_zero.1 within
    | cons c cs ih =>
      by_cases taken : p c
      · simp only [List.cons_append, List.takeWhile_cons_of_pos taken, List.length_cons,
          Nat.add_le_add_iff_right] at within ⊢
        rw [ih within]
      · simp [taken]
  unbroken cs broken := by
    rw [take_length_takeWhile] at broken
    exact absurd (List.mem_takeWhile_imp broken) (by simp [stops])

/-- What is read, and then what is read behind it. -/
theorem Reads.followed {first second : List Char → Nat} (readsFirst : Reads first)
    (readsSecond : Reads second) : Reads fun cs => first cs + second (cs.drop (first cs)) where
  behind cs rest within := by
    have same := readsFirst.behind cs rest (Nat.le_trans (Nat.le_add_right _ _) within)
    rw [same] at within
    have inside : first cs ≤ cs.length := Nat.le_trans (Nat.le_add_right _ _) within
    simp only [same]
    rw [List.drop_append_of_le_length inside] at within ⊢
    rw [readsSecond.behind]
    rw [List.length_drop]
    omega
  unbroken cs := by
    rw [List.take_add, List.mem_append, not_or]
    exact ⟨readsFirst.unbroken cs, readsSecond.unbroken _⟩

theorem reads_digitCount : Reads digitCount :=
  reads_takeWhile rfl

theorem reads_namePartLength : Reads namePartLength :=
  reads_takeWhile isNamePart_lineBreak

theorem signLength_cons_append (c : Char) (cs rest : List Char) :
    signLength (c :: cs ++ rest) = signLength (c :: cs) := by
  unfold signLength
  split <;> simp_all

theorem signLength_le_length (c : Char) (cs : List Char) :
    signLength (c :: cs) ≤ (c :: cs).length := by
  unfold signLength
  split <;> simp

theorem reads_signLength : Reads signLength where
  behind cs rest within := by
    cases cs with
    | nil => exact Nat.le_zero.1 within
    | cons c cs => exact signLength_cons_append c cs rest
  unbroken cs := by
    unfold signLength
    split <;> simp

theorem reads_powerLength : Reads powerLength where
  behind cs rest within := by
    match cs with
    | [] => exact Nat.le_zero.1 within
    | [c] =>
      have short : powerLength [c] = 0 := by simp [powerLength, digitCount]
      rw [short]
      rw [List.singleton_append, powerLength] at within ⊢
      split at within
      · next power =>
        have some_digit := power.2
        simp only [List.length_singleton] at within
        omega
      · next none => rw [if_neg none]
    | c :: s :: cs =>
      have beyond : (s :: cs ++ rest).drop (signLength (s :: cs)) =
          (s :: cs).drop (signLength (s :: cs)) ++ rest :=
        List.drop_append_of_le_length (signLength_le_length s cs)
      rw [List.cons_append, powerLength, signLength_cons_append, beyond] at within ⊢
      rw [powerLength]
      have digits := reads_digitCount.behind ((s :: cs).drop (signLength (s :: cs))) rest
      rw [List.length_drop] at digits
      by_cases read : digitCount ((s :: cs).drop (signLength (s :: cs)) ++ rest) ≤
          (s :: cs).length - signLength (s :: cs)
      · rw [digits read]
      · -- there are too many digits for a power of ten, so `c` does not begin one
        have unmarked : ¬(c = 'e' ∨ c = 'E') := by
          intro marked
          simp only [marked, true_and, List.length_cons] at within read
          split at within <;> omega
        simp only [unmarked, false_and, if_false]
  unbroken cs := by
    cases cs with
    | nil => simp
    | cons c rest =>
      rw [powerLength]
      split
      · next power =>
        rw [Nat.add_assoc, Nat.add_comm 1, List.take_succ_cons, List.mem_cons, not_or]
        refine ⟨?_, (reads_signLength.followed reads_digitCount).unbroken rest⟩
        rintro rfl
        simp at power
      · simp

theorem reads_fractionLength : Reads fractionLength where
  behind cs rest within := by
    cases cs with
    | nil => exact Nat.le_zero.1 within
    | cons c cs =>
      by_cases point : c = '.'
      · subst point
        simp only [List.cons_append, fractionLength, List.length_cons] at within ⊢
        rw [reads_digitCount.behind cs rest (by omega)]
      · simp [fractionLength, point]
  unbroken cs := by
    unfold fractionLength
    split
    · rw [Nat.add_comm, List.take_succ_cons, List.mem_cons, not_or]
      exact ⟨by decide, reads_digitCount.unbroken _⟩
    · simp

theorem reads_afterDigitsLength : Reads afterDigitsLength :=
  reads_fractionLength.followed reads_powerLength

theorem reads_wholeLength : Reads wholeLength :=
  reads_digitCount.followed reads_afterDigitsLength

theorem reads_pointedLength : Reads pointedLength :=
  reads_digitCount.followed reads_powerLength

theorem reads_commentLength : Reads commentLength :=
  reads_takeWhile (by decide)

end StackCalculator.Script
