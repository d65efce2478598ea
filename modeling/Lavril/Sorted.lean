import Lavril.HeapSort

/-!
# What sorting leaves in the array

A comparison that leaves the array alone can fail or answer anything, and the sort still
returns with the elements it was given. When it is a total preorder, the first loop makes
a heap of the array and the second settles its elements from the last one on.
-/

namespace Lavril

universe u v

variable {A : Type u} {S : Type v} {cmp : Comparator A S} {st st' : Sorting A S}
  {bottom i j root : Nat} {ret : Int}

section elements

/-- The comparison leaves the array as it is, whatever it answers. -/
def Untouched (cmp : Comparator A S) : Prop := ∀ x y a s, (cmp x y a s).2.1 = a

theorem Untouched.answered (untouched : Untouched cmp)
    (came : _sort_compare cmp bottom i j st = .answered ret st') : st'.values = st.values := by
  obtain ⟨a, b, _, _, compared, _⟩ := compare_answered came
  rw [← untouched a b st.values st.script, compared]

theorem Untouched.failed (untouched : Untouched cmp)
    (came : _sort_compare cmp bottom i j st = .failed st') : st'.values = st.values := by
  obtain ⟨a, b, compared⟩ := compare_failed came
  rw [← untouched a b st.values st.script, compared]

theorem Untouched.chosen (untouched : Untouched cmp)
    (came : compareChildren cmp bottom i st = .answered ret st') : st'.values = st.values := by
  rw [compareChildren] at came
  split at came
  · cases came
    rfl
  · exact untouched.answered came

theorem Untouched.chosen_failed (untouched : Untouched cmp)
    (came : compareChildren cmp bottom i st = .failed st') : st'.values = st.values := by
  rw [compareChildren] at came
  split at came
  · cases came
  · exact untouched.failed came

/-- What has returned, and with the elements it was given. -/
def Rearranged (values : List A) : SortRun A S → Prop
  | .outside _ => False
  | .returned _ st => st.values.Perm values

theorem Rearranged.trans {values values' : List A} {r : SortRun A S}
    (rearranged : Rearranged values r) (perm : values.Perm values') : Rearranged values' r := by
  cases r with
  | outside st => exact rearranged
  | returned ok st => exact List.Perm.trans rearranged perm

theorem Rearranged.next {values : List A} {r : SortRun A S} {k : Sorting A S → SortRun A S}
    (first : Rearranged values r)
    (rest : ∀ st, st.values.Perm values → Rearranged st.values (k st)) :
    Rearranged values (r.andThen k) := by
  cases r with
  | outside st => exact first
  | returned ok st =>
    cases ok with
    | false => exact first
    | true => exact (rest st first).trans first

theorem chosen_inside (within : i ≤ bottom) (lt : bottom < st.values.length)
    (came : compareChildren cmp bottom i st = .outside) : False := by
  rw [compareChildren] at came
  split at came
  · cases came
  · rcases compare_outside came with _ | _ <;> omega

theorem sift_rearranges (untouched : Untouched cmp) (lt : bottom < st.values.length) :
    Rearranged st.values (_hsort_sift_down cmp bottom root st) := by
  fun_induction _hsort_sift_down cmp bottom root st with
  | case1 root st within came => exact chosen_inside within lt came
  | case2 root st within st' came => exact List.Perm.of_eq (untouched.chosen_failed came)
  | case3 root st within ret st' chose came =>
    have le := maxChild_le within chose
    have same := untouched.chosen chose
    rcases compare_outside came with le' | le' <;> rw [same] at le' <;> omega
  | case4 root st within ret st₁ chose st₂ came =>
    exact List.Perm.of_eq ((untouched.failed came).trans (untouched.chosen chose))
  | case5 root st within ret st₁ chose order st₂ compared
  | case8 root st within ret st₁ chose order st₂ compared =>
    exact List.Perm.of_eq ((untouched.answered compared).trans (untouched.chosen chose))
  | case6 root st within ret st₁ chose order st₂ compared _ _ came =>
    have le := maxChild_le within chose
    have same := (untouched.answered compared).trans (untouched.chosen chose)
    rcases swap_none came with le' | le' <;> rw [same] at le' <;> omega
  | case7 root st within ret st₁ chose order st₂ compared _ _ st₃ swapped ih =>
    have same := (untouched.answered compared).trans (untouched.chosen chose)
    have perm := (swap_some swapped).1
    rw [same] at perm
    exact (ih (by rwa [perm.length_eq])).trans perm
  | case9 => exact List.Perm.refl _

theorem build_rearranges {n : Nat} (untouched : Untouched cmp) (lt : bottom < st.values.length) :
    Rearranged st.values (buildHeap cmp bottom n st) := by
  induction n generalizing st with
  | zero => exact sift_rearranges untouched lt
  | succ n ih =>
    have sifted : Rearranged st.values (_hsort_sift_down cmp bottom (n + 1) st) :=
      sift_rearranges untouched lt
    rw [buildHeap]
    apply sifted.next
    intro st₁ perm
    exact ih (by rwa [perm.length_eq])

theorem sortDown_rearranges {n : Nat} (untouched : Untouched cmp) (lt : n < st.values.length) :
    Rearranged st.values (sortDown cmp n st) := by
  induction n generalizing st with
  | zero => exact List.Perm.refl _
  | succ n ih =>
    rw [sortDown]
    cases swapped : st.swap 0 (n + 1) with
    | none => rcases swap_none swapped with _ | _ <;> omega
    | some st₁ =>
      have perm := (swap_some swapped).1
      have sifted : Rearranged st₁.values (_hsort_sift_down cmp n 0 st₁) := by
        apply sift_rearranges untouched
        rw [perm.length_eq]
        exact Nat.lt_of_succ_lt lt
      apply (sifted.trans perm).next
      intro st₂ perm₂
      exact ih (by rw [perm₂.length_eq]; omega)

theorem array_sort_rearranges (untouched : Untouched cmp) :
    Rearranged st.values (array_sort cmp st) := by
  rw [array_sort]
  split
  · have built : Rearranged st.values
        (buildHeap cmp (st.values.length - 1) (st.values.length / 2) st) :=
      build_rearranges untouched (by omega)
    apply built.next
    intro st₁ perm
    exact sortDown_rearranges untouched (by rw [perm.length_eq]; omega)
  · exact List.Perm.refl _

end elements

section order

variable {le : A → A → Prop} {lo : Nat} {d : A}

/-- The comparison never fails and is a total preorder: an answer up to 0 says that the first
element is at most the second, one from 0 on the converse. -/
structure Orders (cmp : Comparator A S) (le : A → A → Prop) : Prop where
  answers : ∀ x y a s, ∃ ret, (cmp x y a s).1 = some ret ∧ (ret ≤ 0 ↔ le x y) ∧ (0 ≤ ret ↔ le y x)
  trans : ∀ x y z, le x y → le y z → le x z

theorem Orders.refl (orders : Orders cmp le) (s : S) (x : A) : le x x := by
  obtain ⟨ret, _, below, above⟩ := orders.answers x x [] s
  rcases Int.le_total ret 0 with nonpos | nonneg
  · exact below.mp nonpos
  · exact above.mp nonneg

theorem Orders.answered (orders : Orders cmp le)
    (came : _sort_compare cmp bottom i j st = .answered ret st') :
    (ret ≤ 0 ↔ le (st.nodes d i) (st.nodes d j)) ∧
      (0 ≤ ret ↔ le (st.nodes d j) (st.nodes d i)) := by
  obtain ⟨a, b, first, second, compared, _⟩ := compare_answered came
  obtain ⟨answer, same, order⟩ := orders.answers a b st.values st.script
  rw [compared, Option.some.injEq] at same
  subst same
  simpa [Sorting.nodes, List.getD_eq_getElem?_getD, first, second] using order

theorem Orders.failed (orders : Orders cmp le)
    (came : _sort_compare cmp bottom i j st = .failed st') : False := by
  obtain ⟨a, b, compared⟩ := compare_failed came
  obtain ⟨answer, same, _⟩ := orders.answers a b st.values st.script
  rw [compared] at same
  cases same

theorem Orders.chosen_failed (orders : Orders cmp le)
    (came : compareChildren cmp bottom i st = .failed st') : False := by
  rw [compareChildren] at came
  split at came
  · cases came
  · exact orders.failed came

theorem Orders.chosen (orders : Orders cmp le) (within : root * 2 ≤ bottom)
    (came : compareChildren cmp bottom (root * 2) st = .answered ret st') :
    HeapOrder.Greatest le (st.nodes d) bottom root (maxChild root ret) where
  half := maxChild_half
  le_last := maxChild_le within came
  above := by
    rintro c ⟨_, half⟩ upto
    rw [compareChildren] at came
    by_cases alone : root * 2 = bottom
    · rw [if_pos alone] at came
      cases came
      have : c = root * 2 := by omega
      rw [this]
      exact orders.refl st.script _
    · rw [if_neg alone] at came
      have compared := orders.answered (d := d) came
      have child : c = root * 2 ∨ c = root * 2 + 1 := by omega
      by_cases left : ret > 0
      · rw [maxChild, if_pos left]
        rcases child with rfl | rfl
        · exact orders.refl st.script _
        · exact compared.2.mp (by omega)
      · rw [maxChild, if_neg left]
        rcases child with rfl | rfl
        · exact compared.1.mp (by omega)
        · exact orders.refl st.script _

theorem nodes_eq (same : st'.values = st.values) : st'.nodes d = st.nodes d := by
  funext k
  rw [Sorting.nodes, same, Sorting.nodes]

/-- What has gone through, and to an array with the property. -/
def Achieves (P : Sorting A S → Prop) : SortRun A S → Prop
  | .returned true st => P st
  | _ => False

theorem Achieves.mono {P Q : Sorting A S → Prop} {r : SortRun A S} (achieves : Achieves P r)
    (weaker : ∀ st, P st → Q st) : Achieves Q r := by
  cases r with
  | outside st => exact achieves
  | returned ok st =>
    cases ok with
    | false => exact achieves
    | true => exact weaker st achieves

theorem Achieves.next {P Q : Sorting A S → Prop} {values : List A} {r : SortRun A S}
    {k : Sorting A S → SortRun A S} (first : Achieves P r) (rearranged : Rearranged values r)
    (rest : ∀ st, P st → st.values.Perm values → Achieves Q (k st)) :
    Achieves Q (r.andThen k) := by
  cases r with
  | outside st => exact first
  | returned ok st =>
    cases ok with
    | false => exact first
    | true => exact rest st first rearranged

open HeapOrder in
/-- A sift makes a heap of the nodes up to `bottom`, and the elements after them stay on top. -/
theorem sift_heap (orders : Orders cmp le) (untouched : Untouched cmp)
    (lt : bottom < st.values.length) (sifting : Sifting le (st.nodes d) lo bottom root) :
    Achieves (fun st' => Heap le (st'.nodes d) lo bottom ∧
        ∀ n, Settled le (st.nodes d) bottom n → Settled le (st'.nodes d) bottom n)
      (_hsort_sift_down cmp bottom root st) := by
  fun_induction _hsort_sift_down cmp bottom root st with
  | case1 root st within came => exact chosen_inside within lt came
  | case2 root st within st' came => exact orders.chosen_failed came
  | case3 root st within ret st' chose came =>
    have le := maxChild_le within chose
    have same := untouched.chosen chose
    rcases compare_outside came with le' | le' <;> rw [same] at le' <;> omega
  | case4 root st within ret st₁ chose st₂ came => exact orders.failed came
  | case5 root st within ret st₁ chose order st₂ compared neg self =>
    have order := (orders.answered (d := d) compared).2
    rw [← self] at order
    have := order.mpr (orders.refl st.script _)
    omega
  | case6 root st within ret st₁ chose order st₂ compared _ _ came =>
    have le := maxChild_le within chose
    have same := (untouched.answered compared).trans (untouched.chosen chose)
    rcases swap_none came with le' | le' <;> rw [same] at le' <;> omega
  | case7 root st within ret st₁ chose order st₂ compared neg other st₃ swapped ih =>
    have greatest := orders.chosen (d := d) within chose
    have same := nodes_eq (d := d) (untouched.chosen chose)
    have same₂ := (untouched.answered compared).trans (untouched.chosen chose)
    have below := (orders.answered (d := d) compared).1.mp (by omega)
    obtain ⟨perm, _, nodes⟩ := swap_some swapped
    rw [same] at below
    have moved := sifting.move greatest other below
    rw [← nodes_eq same₂, ← nodes d] at moved
    apply (ih (by rwa [perm.length_eq, same₂]) moved).mono
    rintro st₄ ⟨heap, kept⟩
    refine ⟨heap, fun n settled => kept n ?_⟩
    rw [nodes d, nodes_eq same₂]
    exact settled.swap (by omega) greatest.le_last
  | case8 root st within ret st₁ chose order st₂ compared nonneg =>
    have greatest := orders.chosen (d := d) within chose
    have above := (orders.answered (d := d) compared).2.mp (by omega)
    rw [nodes_eq (untouched.chosen chose)] at above
    have same := nodes_eq (d := d) ((untouched.answered compared).trans (untouched.chosen chose))
    refine ⟨?_, fun n settled => ?_⟩
    · rw [same]
      exact sifting.finish fun c edge upto => orders.trans _ _ _ (greatest.above c edge upto) above
    · rwa [same]
  | case9 root st leaf => exact ⟨sifting.leaf (Nat.not_le.mp leaf), fun _ settled => settled⟩

open HeapOrder in
theorem build_heap {n : Nat} (orders : Orders cmp le) (untouched : Untouched cmp)
    (lt : bottom < st.values.length) (heap : Heap le (st.nodes d) (n + 1) bottom) :
    Achieves (fun st' => Heap le (st'.nodes d) 0 bottom) (buildHeap cmp bottom n st) := by
  induction n generalizing st with
  | zero =>
    exact (sift_heap (d := d) orders untouched lt heap.sifting).mono fun _ sifted => sifted.1
  | succ n ih =>
    have sifted := sift_heap (d := d) orders untouched lt heap.sifting
    have perm : Rearranged st.values (_hsort_sift_down cmp bottom (n + 1) st) :=
      sift_rearranges untouched lt
    rw [buildHeap]
    apply sifted.next perm
    intro st₁ sifted₁ perm₁
    exact ih (by rwa [perm₁.length_eq]) sifted₁.1

open HeapOrder in
theorem sortDown_settles {n : Nat} (orders : Orders cmp le) (untouched : Untouched cmp)
    (lt : n < st.values.length) (heap : Heap le (st.nodes d) 0 n)
    (settled : Settled le (st.nodes d) n st.values.length) :
    Achieves (fun st' => Settled le (st'.nodes d) 0 st.values.length) (sortDown cmp n st) := by
  induction n generalizing st with
  | zero => exact settled
  | succ n ih =>
    have : Std.Refl le := ⟨orders.refl st.script⟩
    have : IsTrans A le := ⟨orders.trans⟩
    rw [sortDown]
    cases swapped : st.swap 0 (n + 1) with
    | none => rcases swap_none swapped with _ | _ <;> omega
    | some st₁ =>
      obtain ⟨perm, _, nodes⟩ := swap_some swapped
      have lt₁ : n < st₁.values.length := by
        rw [perm.length_eq]
        exact Nat.lt_of_succ_lt lt
      have extracted := heap.extract
      have top := Settled.extract heap settled
      rw [← nodes d] at extracted top
      have sifted := sift_heap orders untouched lt₁ extracted
      have rearranged : Rearranged st₁.values (_hsort_sift_down cmp n 0 st₁) :=
        sift_rearranges untouched lt₁
      apply sifted.next rearranged
      rintro st₂ ⟨heap₂, kept⟩ perm₂
      have length : st₂.values.length = st.values.length := perm₂.length_eq.trans perm.length_eq
      have settled₂ := kept _ top
      rw [← length] at settled₂ ⊢
      exact ih (by omega) heap₂ settled₂

open HeapOrder in
theorem array_sort_settles (orders : Orders cmp le) (untouched : Untouched cmp) :
    Achieves (fun st' => Settled le (st'.nodes d) 0 st.values.length) (array_sort cmp st) := by
  rw [array_sort]
  by_cases many : st.values.length > 1
  · have heap : Heap le (st.nodes d) (st.values.length / 2 + 1) (st.values.length - 1) := by
      rintro c p ⟨_, half⟩ upto from_lo
      omega
    have lt : st.values.length - 1 < st.values.length := by omega
    have built := build_heap orders untouched lt heap
    have rearranged := build_rearranges (n := st.values.length / 2) untouched lt
    rw [if_pos many]
    apply built.next rearranged
    intro st₁ heap₁ perm
    rw [← perm.length_eq] at heap₁ ⊢
    apply sortDown_settles orders untouched (by rw [perm.length_eq]; omega) heap₁
    intro i j _ after upto
    omega
  · rw [if_neg many]
    intro i j _ after upto
    omega

end order

section sorted

/-- A comparison that leaves the array alone: the sort returns, with the same elements. When it
is a total preorder that never fails, no error is raised and the array is ascending. -/
theorem array_sort_sorts (untouched : Untouched cmp) :
    ∃ ok st', array_sort cmp st = .returned ok st' ∧ st'.values.Perm st.values ∧
      ∀ le, Orders cmp le → ok = true ∧ ∀ (i j : Nat) (x y : A), i < j → st'.values[i]? = some x →
        st'.values[j]? = some y → ∀ a s, ∃ ret, (cmp y x a s).1 = some ret ∧ 0 ≤ ret := by
  have rearranged : Rearranged st.values (array_sort cmp st) := array_sort_rearranges untouched
  cases came : array_sort cmp st with
  | outside st' =>
    rw [came] at rearranged
    exact rearranged.elim
  | returned ok st' =>
    rw [came] at rearranged
    have perm : st'.values.Perm st.values := rearranged
    refine ⟨ok, st', rfl, perm, fun le orders => ?_⟩
    cases ok with
    | false =>
      cases elements : st.values with
      | nil => simp [array_sort, elements] at came
      | cons d rest =>
        have settled := @array_sort_settles _ _ _ st le d orders untouched
        rw [came] at settled
        exact settled.elim
    | true =>
      refine ⟨rfl, fun i j x y lt first second a s => ?_⟩
      have settled := @array_sort_settles _ _ _ st le x orders untouched
      rw [came] at settled
      obtain ⟨ret, answer, _, nonneg⟩ := orders.answers y x a s
      refine ⟨ret, answer, nonneg.mpr ?_⟩
      have within := (List.getElem?_eq_some_iff.mp second).1
      have ordered := settled i j lt (by omega) (by rwa [← perm.length_eq])
      simpa [Sorting.nodes, List.getD_eq_getElem?_getD, first, second] using ordered

theorem array_sort_sorts_integers :
    ∃ ok st', array_sort (fun (x y : Int) a (s : Unit) => (some (x - y), a, s))
        ⟨[3, 1, 2], (), []⟩ = .returned ok st' ∧ st'.values.Perm [3, 1, 2] ∧ ok = true ∧
      ∀ (i j : Nat) (x y : Int), i < j → st'.values[i]? = some x → st'.values[j]? = some y →
        x ≤ y := by
  obtain ⟨ok, st', came, perm, sorts⟩ := @array_sort_sorts Int Unit
    (fun x y a s => (some (x - y), a, s)) ⟨[3, 1, 2], (), []⟩ (fun _ _ _ _ => rfl)
  obtain ⟨done, ascending⟩ := sorts (· ≤ ·)
    ⟨fun x y _ _ => ⟨x - y, rfl, by omega, by omega⟩, fun _ _ _ => Int.le_trans⟩
  refine ⟨ok, st', came, perm, done, fun i j x y lt first second => ?_⟩
  obtain ⟨ret, answer, nonneg⟩ := ascending i j x y lt first second [] ()
  simp only [Option.some.injEq] at answer
  omega

end sorted

end Lavril
