import Mathlib.Logic.Equiv.Basic
import Mathlib.Order.Defs.Unbundled

/-!
# Heaps whose first node is its own child

The children of node `p` are `2 * p` and `2 * p + 1`, counted from zero. So the first node
would be its own left child, and only `1` counts as a child of it.

A heap is sifted down from one node, then its greatest element is taken to its end until
everything is in order. `le` need only be reflexive and transitive.
-/

namespace HeapOrder

universe u

variable {α : Type u} {le : α → α → Prop} {h : Nat → α} {lo last root child : Nat}

def IsChild (c p : Nat) : Prop := 0 < c ∧ c / 2 = p

theorem IsChild.lt {c p : Nat} (edge : IsChild c p) : p < c := by
  have : 0 < c ∧ c / 2 = p := edge
  omega

/-- Up to `last`, no child of a node from `lo` on is above it. -/
def Heap (le : α → α → Prop) (h : Nat → α) (lo last : Nat) : Prop :=
  ∀ c p, IsChild c p → c ≤ last → lo ≤ p → le (h c) (h p)

/-- What is left of a heap while an element sinks and has reached `root`. -/
structure Sifting (le : α → α → Prop) (h : Nat → α) (lo last root : Nat) : Prop where
  except : ∀ c p, IsChild c p → c ≤ last → lo ≤ p → p ≠ root → le (h c) (h p)
  grand : ∀ c p, IsChild c root → c ≤ last → IsChild root p → lo ≤ p → le (h c) (h p)

/-- `child` is `root` or a child of it, and none of its children is above `child`. -/
structure Greatest (le : α → α → Prop) (h : Nat → α) (last root child : Nat) : Prop where
  half : child / 2 = root
  le_last : child ≤ last
  above : ∀ c, IsChild c root → c ≤ last → le (h c) (h child)

/-- The elements after `last` are in order and at the top. -/
def Settled (le : α → α → Prop) (h : Nat → α) (last n : Nat) : Prop :=
  ∀ i j, i < j → last < j → j < n → le (h i) (h j)

theorem Heap.sifting (heap : Heap le h (root + 1) last) : Sifting le h root last root where
  except c p edge within from_lo ne := heap c p edge within (by omega)
  grand c p _ _ parent from_lo := by
    have := parent.lt
    omega

theorem Sifting.finish (sifting : Sifting le h lo last root)
    (below : ∀ c, IsChild c root → c ≤ last → le (h c) (h root)) : Heap le h lo last := by
  intro c p edge within from_lo
  by_cases at_root : p = root
  · subst at_root
    exact below c edge within
  · exact sifting.except c p edge within from_lo at_root

/-- A node with nothing below it ends the sift. -/
theorem Sifting.leaf (sifting : Sifting le h lo last root) (leaf : last < root * 2) :
    Heap le h lo last := by
  apply sifting.finish
  rintro c ⟨_, half⟩ within
  omega

theorem Sifting.move (sifting : Sifting le h lo last root)
    (greatest : Greatest le h last root child) (ne : root ≠ child)
    (order : le (h root) (h child)) :
    Sifting le (h ∘ Equiv.swap root child) lo last child := by
  have half := greatest.half
  have child_edge : IsChild child root := ⟨by omega, half⟩
  have lt := child_edge.lt
  constructor
  · intro c p edge within from_lo not_child
    have under := edge.lt
    simp only [Function.comp_apply]
    by_cases at_child : c = child
    · -- the element that sinks is under the one that has taken its place
      have : p = root := by rw [← edge.2, at_child, half]
      subst at_child this
      rwa [Equiv.swap_apply_right, Equiv.swap_apply_left]
    · by_cases at_root : p = root
      · subst at_root
        rw [Equiv.swap_apply_left, Equiv.swap_apply_of_ne_of_ne (by omega) at_child]
        exact greatest.above c edge within
      · rw [Equiv.swap_apply_of_ne_of_ne at_root not_child]
        by_cases hole : c = root
        · subst hole
          rw [Equiv.swap_apply_left]
          exact sifting.grand child p child_edge greatest.le_last edge from_lo
        · rw [Equiv.swap_apply_of_ne_of_ne hole at_child]
          exact sifting.except c p edge within from_lo at_root
  · intro c p edge within parent from_lo
    have : p = root := by rw [← parent.2, half]
    subst this
    have under := edge.lt
    simp only [Function.comp_apply]
    rw [Equiv.swap_apply_left, Equiv.swap_apply_of_ne_of_ne (by omega) (by omega)]
    exact sifting.except c child edge within (by omega) (by omega)

theorem Heap.top [Std.Refl le] [IsTrans α le] (heap : Heap le h 0 last) (i : Nat)
    (within : i ≤ last) : le (h i) (h 0) := by
  induction i using Nat.strongRecOn with
  | ind i ih =>
    by_cases first : i = 0
    · rw [first]
      exact Std.Refl.refl (h 0)
    · have edge : IsChild i (i / 2) := ⟨by omega, rfl⟩
      have parent := ih (i / 2) edge.lt (by omega)
      exact IsTrans.trans _ _ _ (heap i (i / 2) edge within (Nat.zero_le _)) parent

theorem swap_lt {i j k l : Nat} (hi : i < l) (hj : j < l) (hk : k < l) :
    Equiv.swap i j k < l := by
  rw [Equiv.swap_apply_def]
  split_ifs <;> assumption

theorem Settled.swap {n i j : Nat} (settled : Settled le h last n) (hi : i ≤ last)
    (hj : j ≤ last) : Settled le (h ∘ Equiv.swap i j) last n := by
  intro k l lt after within
  simp only [Function.comp_apply]
  rw [Equiv.swap_apply_of_ne_of_ne (x := l) (by omega) (by omega)]
  exact settled _ l (swap_lt (by omega) (by omega) lt) after within

theorem Heap.extract (heap : Heap le h 0 (last + 1)) :
    Sifting le (h ∘ Equiv.swap 0 (last + 1)) 0 last 0 := by
  constructor
  · intro c p edge within _ ne
    have := edge.lt
    simp only [Function.comp_apply]
    rw [Equiv.swap_apply_of_ne_of_ne (by omega) (by omega),
      Equiv.swap_apply_of_ne_of_ne ne (by omega)]
    exact heap c p edge (by omega) (Nat.zero_le _)
  · intro c p _ _ parent
    have := parent.lt
    omega

theorem Settled.extract [Std.Refl le] [IsTrans α le] {n : Nat} (heap : Heap le h 0 (last + 1))
    (settled : Settled le h (last + 1) n) :
    Settled le (h ∘ Equiv.swap 0 (last + 1)) last n := by
  intro i j lt after within
  simp only [Function.comp_apply]
  by_cases at_last : j = last + 1
  · subst at_last
    rw [Equiv.swap_apply_right]
    have : Equiv.swap 0 (last + 1) i < last + 2 := swap_lt (by omega) (by omega) (by omega)
    exact heap.top _ (by omega)
  · rw [Equiv.swap_apply_of_ne_of_ne (x := j) (by omega) at_last]
    exact settled _ j (swap_lt (by omega) (by omega) lt) (by omega) within

end HeapOrder
