import Lavril.HeapOrder
import Mathlib.Data.List.Perm.Basic

/-!
# Sorting an array

`array.sort` is a heap sort over the elements of the array, in place. Its comparison is a
function of the script, which may fail, answer anything, and change the array that is
being sorted. The children of a node `r` are `2r` and `2r + 1`, so the first node is its
own left child.

The elements are read and written unchecked; a run that does so outside of the array
is `outside`.
-/

namespace Lavril

universe u v

/-- The elements of the array, the state of the script, and for each comparison that has
answered the `bottom` of its sift and how many elements it has left in the array. -/
structure Sorting (A : Type u) (S : Type v) where
  values : List A
  script : S
  answered : List (Nat × Nat)

/-- A comparison of the script: its answer, unless it fails, and what it leaves. -/
abbrev Comparator (A : Type u) (S : Type v) := A → A → List A → S → Option Int × List A × S

inductive Compared (A : Type u) (S : Type v) where
  | outside
  | failed (st : Sorting A S)
  | answered (ret : Int) (st : Sorting A S)

/-- What a part of the sort comes to: an access outside the array, or its answer. -/
inductive SortRun (A : Type u) (S : Type v) where
  | outside (st : Sorting A S)
  | returned (ok : Bool) (st : Sorting A S)

section sort

variable {A : Type u} {S : Type v} (cmp : Comparator A S)

/-- `_sort_compare` of the elements at `i` and `j`. -/
def _sort_compare (bottom i j : Nat) (st : Sorting A S) : Compared A S :=
  match st.values[i]?, st.values[j]? with
  | some a, some b =>
    match cmp a b st.values st.script with
    | (none, values, script) => .failed { st with values := values, script := script }
    | (some ret, values, script) =>
      .answered ret ⟨values, script, st.answered ++ [(bottom, values.length)]⟩
  | _, _ => .outside

/-- The comparison that chooses `maxChild`; a last child that is alone is chosen without one. -/
def compareChildren (bottom root2 : Nat) (st : Sorting A S) : Compared A S :=
  if root2 = bottom then .answered 1 st else _sort_compare cmp bottom root2 (root2 + 1) st

def maxChild (root : Nat) (ret : Int) : Nat := if ret > 0 then root * 2 else root * 2 + 1

/-- `_Swap(_values[i], _values[j])`. -/
def Sorting.swap (st : Sorting A S) (i j : Nat) : Option (Sorting A S) :=
  match st.values[i]?, st.values[j]? with
  | some a, some b => some { st with values := (st.values.set i b).set j a }
  | _, _ => none

/-- The elements by index, with `d` after the last one. -/
def Sorting.nodes (d : A) (st : Sorting A S) (k : Nat) : A := st.values.getD k d

theorem root_lt_maxChild {root : Nat} {ret : Int} (ne : ¬ root = maxChild root ret) :
    root < maxChild root ret := by
  by_cases left : ret > 0
  · rw [maxChild, if_pos left] at *
    omega
  · rw [maxChild, if_neg left]
    omega

def _hsort_sift_down (bottom root : Nat) (st : Sorting A S) : SortRun A S :=
  if root * 2 ≤ bottom then
    match compareChildren cmp bottom (root * 2) st with
    | .outside => .outside st
    | .failed st => .returned false st
    | .answered ret st =>
      match _sort_compare cmp bottom root (maxChild root ret) st with
      | .outside => .outside st
      | .failed st => .returned false st
      | .answered order st =>
        if order < 0 then
          -- "inconsistent compare function"
          if _ : root = maxChild root ret then .returned false st
          else
            match st.swap root (maxChild root ret) with
            | none => .outside st
            | some st => _hsort_sift_down bottom (maxChild root ret) st
        else .returned true st
  else .returned true st
termination_by bottom + 1 - root
decreasing_by
  have := root_lt_maxChild ‹_›
  omega

/-- The first loop of `_hsort`, from `i` down. -/
def buildHeap (bottom : Nat) : Nat → Sorting A S → SortRun A S
  | 0, st => _hsort_sift_down cmp bottom 0 st
  | i + 1, st =>
    match _hsort_sift_down cmp bottom (i + 1) st with
    | .returned true st => buildHeap bottom i st
    | ended => ended

/-- The second loop of `_hsort`, from `i` down. -/
def sortDown : Nat → Sorting A S → SortRun A S
  | 0, st => .returned true st
  | i + 1, st =>
    match st.swap 0 (i + 1) with
    | none => .outside st
    | some st =>
      match _hsort_sift_down cmp i 0 st with
      | .returned true st => sortDown i st
      | ended => ended

def _hsort (st : Sorting A S) : SortRun A S :=
  let array_size := st.values.length
  match buildHeap cmp (array_size - 1) (array_size / 2) st with
  | .returned true st => sortDown cmp (array_size - 1) st
  | ended => ended

/-- `array_sort`; whether it raises no error. -/
def array_sort (st : Sorting A S) : SortRun A S :=
  if st.values.length > 1 then _hsort cmp st else .returned true st

end sort

variable {A : Type u} {S : Type v} {cmp : Comparator A S} {st st' : Sorting A S}
  {bottom i j root : Nat} {ret : Int}

theorem compare_outside (came : _sort_compare cmp bottom i j st = .outside) :
    st.values.length ≤ i ∨ st.values.length ≤ j := by
  rw [_sort_compare] at came
  cases first : st.values[i]? with
  | none => exact Or.inl (List.getElem?_eq_none_iff.mp first)
  | some a =>
    cases second : st.values[j]? with
    | none => exact Or.inr (List.getElem?_eq_none_iff.mp second)
    | some b =>
      rcases compared : cmp a b st.values st.script with ⟨_ | ret, values, script⟩ <;>
        simp [first, second, compared] at came

theorem compare_answered (came : _sort_compare cmp bottom i j st = .answered ret st') :
    ∃ a b, st.values[i]? = some a ∧ st.values[j]? = some b ∧
      cmp a b st.values st.script = (some ret, st'.values, st'.script) ∧
      st'.answered = st.answered ++ [(bottom, st'.values.length)] := by
  rw [_sort_compare] at came
  cases first : st.values[i]? with
  | none => simp [first] at came
  | some a =>
    cases second : st.values[j]? with
    | none => simp [first, second] at came
    | some b =>
      rcases compared : cmp a b st.values st.script with ⟨_ | answer, values, script⟩
      · simp [first, second, compared] at came
      · simp only [first, second, compared, Compared.answered.injEq] at came
        obtain ⟨rfl, rfl⟩ := came
        exact ⟨a, b, rfl, rfl, compared, rfl⟩

theorem compare_failed (came : _sort_compare cmp bottom i j st = .failed st') :
    ∃ a b, cmp a b st.values st.script = (none, st'.values, st'.script) := by
  rw [_sort_compare] at came
  cases first : st.values[i]? with
  | none => simp [first] at came
  | some a =>
    cases second : st.values[j]? with
    | none => simp [first, second] at came
    | some b =>
      rcases compared : cmp a b st.values st.script with ⟨_ | answer, values, script⟩
      · simp only [first, second, compared, Compared.failed.injEq] at came
        obtain rfl := came
        exact ⟨a, b, compared⟩
      · simp [first, second, compared] at came

theorem maxChild_half : maxChild root ret / 2 = root := by
  rw [maxChild]
  split <;> omega

theorem maxChild_le (within : root * 2 ≤ bottom)
    (came : compareChildren cmp bottom (root * 2) st = .answered ret st') :
    maxChild root ret ≤ bottom := by
  rw [compareChildren] at came
  by_cases alone : root * 2 = bottom
  · rw [if_pos alone] at came
    cases came
    exact within
  · rw [maxChild]
    split <;> omega

theorem swap_none (came : st.swap i j = none) :
    st.values.length ≤ i ∨ st.values.length ≤ j := by
  rw [Sorting.swap] at came
  cases first : st.values[i]? with
  | none => exact Or.inl (List.getElem?_eq_none_iff.mp first)
  | some a =>
    cases second : st.values[j]? with
    | none => exact Or.inr (List.getElem?_eq_none_iff.mp second)
    | some b => simp [first, second] at came

theorem swap_some (came : st.swap i j = some st') :
    st'.values.Perm st.values ∧ st'.answered = st.answered ∧
      ∀ d, st'.nodes d = st.nodes d ∘ Equiv.swap i j := by
  rw [Sorting.swap] at came
  cases first : st.values[i]? with
  | none => simp [first] at came
  | some a =>
    cases second : st.values[j]? with
    | none => simp [first, second] at came
    | some b =>
      simp only [first, second, Option.some.injEq] at came
      obtain rfl := came
      obtain ⟨hi, rfl⟩ := List.getElem?_eq_some_iff.mp first
      obtain ⟨hj, rfl⟩ := List.getElem?_eq_some_iff.mp second
      refine ⟨List.set_set_perm hi hj, rfl, ?_⟩
      intro d
      funext k
      simp only [Sorting.nodes, Function.comp_apply, List.getD_eq_getElem?_getD,
        Equiv.swap_apply_def]
      grind

section safety

/-- A comparison has left no more elements than its sift relies on. -/
def Shrunk (st : Sorting A S) : Prop := ∃ b n, (b, n) ∈ st.answered ∧ n ≤ b

/-- The element at `bottom` is in the array, as long as no comparison has shrunk it. -/
def InReach (bottom : Nat) (st : Sorting A S) : Prop := Shrunk st ∨ bottom < st.values.length

theorem InReach.mono {b : Nat} (inside : InReach bottom st) (le : b ≤ bottom) : InReach b st :=
  inside.imp_right fun lt => by omega

theorem InReach.answered (inside : InReach bottom st)
    (came : _sort_compare cmp bottom i j st = .answered ret st') : InReach bottom st' := by
  obtain ⟨_, _, _, _, _, answered⟩ := compare_answered came
  rcases inside with ⟨b, n, mem, le⟩ | _
  · exact Or.inl ⟨b, n, by simp [answered, mem], le⟩
  · by_cases lt : bottom < st'.values.length
    · exact Or.inr lt
    · exact Or.inl ⟨bottom, st'.values.length, by simp [answered], by omega⟩

theorem InReach.chosen (inside : InReach bottom st)
    (came : compareChildren cmp bottom i st = .answered ret st') : InReach bottom st' := by
  rw [compareChildren] at came
  split at came
  · cases came
    exact inside
  · exact inside.answered came

theorem InReach.swapped_outside (inside : InReach bottom st) (hi : i ≤ bottom) (hj : j ≤ bottom)
    (came : st.swap i j = none) : Shrunk st := by
  rcases inside with shrunk | lt
  · exact shrunk
  · rcases swap_none came with _ | _ <;> omega

theorem InReach.compared (inside : InReach bottom st) (hi : i ≤ bottom) (hj : j ≤ bottom)
    (came : _sort_compare cmp bottom i j st = .outside) : Shrunk st := by
  rcases inside with shrunk | lt
  · exact shrunk
  · rcases compare_outside came with _ | _ <;> omega

theorem InReach.chosen_outside (inside : InReach bottom st) (within : i ≤ bottom)
    (came : compareChildren cmp bottom i st = .outside) : Shrunk st := by
  rw [compareChildren] at came
  split at came
  · cases came
  · exact inside.compared within (by omega) came

theorem InReach.swapped (inside : InReach bottom st) (came : st.swap i j = some st') :
    InReach bottom st' := by
  obtain ⟨perm, answered, _⟩ := swap_some came
  rw [InReach, Shrunk, answered, perm.length_eq]
  exact inside

/-- An access outside comes after a comparison that has shrunk the array, and a part of the
sort that has gone through leaves the element at `bottom` where it is. -/
def InReachAfter (bottom : Nat) : SortRun A S → Prop
  | .outside st => Shrunk st
  | .returned true st => InReach bottom st
  | .returned false _ => True

/-- A part of the sort that goes on with `k` where `r` has gone through. -/
def SortRun.andThen (r : SortRun A S) (k : Sorting A S → SortRun A S) : SortRun A S :=
  match r with
  | .returned true st => k st
  | ended => ended

theorem InReachAfter.next {b : Nat} {r : SortRun A S} {k : Sorting A S → SortRun A S}
    (first : InReachAfter bottom r) (rest : ∀ st, InReach bottom st → InReachAfter b (k st)) :
    InReachAfter b (r.andThen k) := by
  cases r with
  | outside st => exact first
  | returned ok st =>
    cases ok with
    | false => trivial
    | true => exact rest st first

theorem sift_guarded (inside : InReach bottom st) :
    InReachAfter bottom (_hsort_sift_down cmp bottom root st) := by
  fun_induction _hsort_sift_down cmp bottom root st with
  | case1 root st within came => exact inside.chosen_outside within came
  | case2 | case4 | case5 => trivial
  | case3 root st within ret st' chose came =>
    exact (inside.chosen chose).compared (by omega) (maxChild_le within chose) came
  | case6 root st within ret st₁ chose order st₂ compared _ _ came =>
    exact ((inside.chosen chose).answered compared).swapped_outside (by omega)
      (maxChild_le within chose) came
  | case7 root st within ret st₁ chose order st₂ compared _ _ st₃ swapped ih =>
    exact ih (((inside.chosen chose).answered compared).swapped swapped)
  | case8 root st within ret st₁ chose order st₂ compared =>
    exact (inside.chosen chose).answered compared
  | case9 => exact inside

theorem build_guarded {n : Nat} (inside : InReach bottom st) :
    InReachAfter bottom (buildHeap cmp bottom n st) := by
  induction n generalizing st with
  | zero => exact sift_guarded inside
  | succ n ih =>
    rw [buildHeap]
    exact (sift_guarded inside).next fun _ inside => ih inside

/-- The array has the element at `bottom` before the loop extracts it. -/
theorem sortDown_guarded {n : Nat} (inside : InReach n st) :
    InReachAfter 0 (sortDown cmp n st) := by
  induction n generalizing st with
  | zero => exact inside
  | succ n ih =>
    rw [sortDown]
    cases swapped : st.swap 0 (n + 1) with
    | none => exact inside.swapped_outside (Nat.zero_le _) (Nat.le_refl _) swapped
    | some st₁ =>
      have sifted : InReachAfter n (_hsort_sift_down cmp n 0 st₁) :=
        sift_guarded ((inside.swapped swapped).mono (Nat.le_succ n))
      exact sifted.next fun _ inside => ih inside

theorem hsort_guarded (nonempty : 0 < st.values.length) : InReachAfter 0 (_hsort cmp st) := by
  have inside : InReach (st.values.length - 1) st := Or.inr (by omega)
  have built : InReachAfter (st.values.length - 1)
      (buildHeap cmp (st.values.length - 1) (st.values.length / 2) st) := build_guarded inside
  exact built.next fun _ inside => sortDown_guarded inside

/-- The sort stays inside the array in every run in which each comparison that answers has
left more elements than the `bottom` of its sift. -/
theorem sort_inside (values : List A) (script : S) (st : Sorting A S)
    (enough : ∀ b n, (b, n) ∈ st.answered → b < n) :
    array_sort cmp ⟨values, script, []⟩ ≠ .outside st := by
  intro came
  rw [array_sort] at came
  split at came
  · have guarded : InReachAfter 0 (_hsort cmp ⟨values, script, []⟩) :=
      hsort_guarded (Nat.lt_of_succ_lt ‹_›)
    rw [came] at guarded
    obtain ⟨b, n, mem, le⟩ := guarded
    exact absurd (enough b n mem) (Nat.not_lt.mpr le)
  · cases came

theorem sort_inside_growing :
    array_sort (fun x y a s => (some (x - y), a ++ [0], s)) ⟨[2, 1], (), []⟩ ≠
      .outside ⟨[1, 2, 0, 0, 0], (), [(1, 3), (1, 4), (0, 5)]⟩ :=
  sort_inside [2, 1] () ⟨[1, 2, 0, 0, 0], (), [(1, 3), (1, 4), (0, 5)]⟩ (by
    intro b n mem
    simp at mem
    omega)

/-- A comparison that clears the array. -/
theorem sort_cleared :
    array_sort (fun _ _ _ s => (some (-1), [], s)) ⟨[1, 2, 3], (), []⟩ =
      .outside ⟨[], (), [(2, 0)]⟩ := by
  simp [array_sort, _hsort, buildHeap, _hsort_sift_down, compareChildren, _sort_compare,
    maxChild, Sorting.swap]

end safety

end Lavril
