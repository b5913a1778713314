import Mathlib.Data.List.TakeWhile
import StackCalculator.Text.Blank

/-! # Runs at the front of a text

A run takes what satisfies a predicate from the front of a list, and stops in front of what does not.
With the runs of blanks at both ends, `Text.TrimsTo` tells what is left of a text without the blanks
around it.
-/

namespace StackCalculator

variable {α : Type}

theorem takeWhile_append_of_stop {p : α → Bool} {run rest : List α} (all : ∀ c ∈ run, p c)
    (stop : ∀ c ∈ rest.head?, ¬p c) :
    (run ++ rest).takeWhile p = run ∧ (run ++ rest).dropWhile p = rest := by
  rw [List.takeWhile_append_of_pos all, List.dropWhile_append_of_pos all]
  cases rest with
  | nil => simp
  | cons c rest =>
    have here := stop c rfl
    rw [List.takeWhile_cons_of_neg here, List.dropWhile_cons_of_neg here, List.append_nil]
    exact ⟨rfl, rfl⟩

theorem not_of_mem_head?_dropWhile {p : α → Bool} {cs : List α} :
    ∀ c ∈ (cs.dropWhile p).head?, ¬p c := by
  intro c head
  have stop := List.head?_dropWhile_not p cs
  rw [Option.mem_def.1 head] at stop
  simpa using stop

theorem take_length_takeWhile (p : α → Bool) (cs : List α) :
    cs.take (cs.takeWhile p).length = cs.takeWhile p :=
  (List.prefix_iff_eq_take.1 (List.takeWhile_prefix p)).symm

theorem drop_length_takeWhile (p : α → Bool) (cs : List α) :
    cs.drop (cs.takeWhile p).length = cs.dropWhile p :=
  (congrArg (List.drop _) List.takeWhile_append_dropWhile.symm).trans List.drop_left

/-- What is taken without something that stands behind a list is taken from the list. -/
theorem le_length_of_not_mem_take {d : α} {cs more : List α} {n : Nat}
    (absent : d ∉ (cs ++ d :: more).take n) : n ≤ cs.length := by
  apply Nat.le_of_not_lt
  intro beyond
  apply absent
  rw [List.take_append, List.mem_append]
  right
  obtain ⟨read, same⟩ : ∃ read, n - cs.length = read + 1 :=
    ⟨_, (Nat.succ_pred_eq_of_pos (Nat.sub_pos_of_lt beyond)).symm⟩
  rw [same, List.take_succ_cons]
  exact List.mem_cons_self

/-- Induction on what is left behind the front of a list, however much the front takes. -/
theorem drop_induction {P : List α → Prop} (nil : P [])
    (cons : ∀ c rest, (∀ n, P (rest.drop n)) → P (c :: rest)) (cs : List α) : P cs := by
  induction size : cs.length using Nat.strongRecOn generalizing cs with
  | ind size ih =>
    subst size
    cases cs with
    | nil => exact nil
    | cons c rest =>
      refine cons c rest fun n => ih _ ?_ _ rfl
      simp only [List.length_drop, List.length_cons]
      omega

/-! ## Blanks around a text -/

namespace Text

/-- A text with blanks around it, and this text itself, which has no blank at its ends. -/
inductive TrimsTo : List Char → List Char → Prop where
  | blanks {before behind inner : List Char} (leading : ∀ c ∈ before, isBlank c)
    (trailing : ∀ c ∈ behind, isBlank c) (first : ∀ c ∈ inner.head?, ¬isBlank c)
    (last : ∀ c ∈ inner.getLast?, ¬isBlank c) : TrimsTo (before ++ (inner ++ behind)) inner

theorem trimsTo_trim (cs : List Char) : TrimsTo cs (trim cs) := by
  have front : cs.takeWhile isBlank ++ cs.dropWhile isBlank = cs := List.takeWhile_append_dropWhile
  -- the blanks behind are those in front of the reversed text
  have back : trim cs ++ ((cs.dropWhile isBlank).reverse.takeWhile isBlank).reverse =
      cs.dropWhile isBlank := by
    rw [trim, ← List.reverse_append, List.takeWhile_append_dropWhile, List.reverse_reverse]
  have leading : ∀ c ∈ cs.takeWhile isBlank, isBlank c := fun c => List.mem_takeWhile_imp
  have trailing : ∀ c ∈ ((cs.dropWhile isBlank).reverse.takeWhile isBlank).reverse, isBlank c :=
    fun c found => List.mem_takeWhile_imp (List.mem_reverse.1 found)
  have first : ∀ c ∈ (trim cs).head?, ¬isBlank c := by
    have stop : ∀ c ∈ (cs.dropWhile isBlank).head?, ¬isBlank c := not_of_mem_head?_dropWhile
    intro c head
    apply stop
    rw [← back, List.head?_append, Option.mem_def.1 head]
    rfl
  have last : ∀ c ∈ (trim cs).getLast?, ¬isBlank c := by
    rw [trim, List.getLast?_reverse]
    exact not_of_mem_head?_dropWhile
  have trims := TrimsTo.blanks leading trailing first last
  rwa [back, front] at trims

theorem TrimsTo.trim_eq {cs inner : List Char} (trims : TrimsTo cs inner) : trim cs = inner := by
  obtain @⟨before, behind, inner, leading, trailing, first, last⟩ := trims
  cases inner with
  | nil =>
    have blank : (before ++ ([] ++ behind)).dropWhile isBlank = [] :=
      List.dropWhile_eq_nil_iff.2 (List.forall_mem_append.2 ⟨leading, trailing⟩)
    rw [trim, blank]
    rfl
  | cons c rest =>
    have stop : ∀ d ∈ (c :: rest ++ behind).head?, ¬isBlank d := first
    have last : ∀ d ∈ (c :: rest).reverse.head?, ¬isBlank d := by rwa [List.head?_reverse]
    have trailing : ∀ d ∈ behind.reverse, isBlank d := fun d found =>
      trailing d (List.mem_reverse.1 found)
    rw [trim, (takeWhile_append_of_stop leading stop).2, List.reverse_append,
      (takeWhile_append_of_stop trailing last).2, List.reverse_reverse]

theorem trim_eq_self {cs : List Char} (none : ∀ c ∈ cs, ¬isBlank c) : trim cs = cs := by
  have trims := @TrimsTo.blanks [] [] cs nofun nofun
    (fun c head => none c (List.mem_of_mem_head? head))
    (fun c tail => none c (List.mem_of_mem_getLast? tail))
  rw [List.append_nil] at trims
  exact trims.trim_eq

end Text

end StackCalculator
