import Mathlib.Data.List.Basic

/-!
# Cells that may not be set yet

A block of cells, each empty until something is stored in it. A store outside of the block
fails, and so does reading a cell that is empty.
-/

universe u

/-- `none` is a cell nothing has been stored in. -/
abbrev Cells (α : Type u) := List (Option α)

namespace Cells

variable {α : Type u} {cells : Cells α} {n i : Nat} {x y : α} {xs ys : List α}

def alloc (α : Type u) (n : Nat) : Cells α := List.replicate n none

def store (cells : Cells α) (i : Nat) (x : α) : Option (Cells α) :=
  if i < cells.length then some (cells.set i (some x)) else none

/-- Stores at `i` and on, each right behind the one before. -/
def storeAll (cells : Cells α) (i : Nat) : List α → Option (Cells α)
  | [] => some cells
  | x :: xs => do storeAll (← store cells i x) (i + 1) xs

def load (cells : Cells α) (i : Nat) : Option α := cells[i]?.join

/-- A larger or smaller block with the same cells as far as it goes. -/
def resize (cells : Cells α) (n : Nat) : Cells α :=
  cells.take n ++ List.replicate (n - cells.length) none

/-- The cells before the first that holds `stop`; there must be one, with none empty before. -/
def upTo [DecidableEq α] (stop : α) : Cells α → Option (List α)
  | [] => none
  | none :: _ => none
  | some x :: rest => if x = stop then some [] else (upTo stop rest).map (x :: ·)

/-- The first `n` cells, none of which may be empty. -/
def read (cells : Cells α) (n : Nat) : Option (List α) :=
  if n ≤ cells.length then (cells.take n).mapM id else none

/-- A block of `n` cells in which `xs` has been stored from the first on. -/
def filled (n : Nat) (xs : List α) : Cells α :=
  xs.map some ++ List.replicate (n - xs.length) none

theorem alloc_eq (n : Nat) : alloc α n = filled n [] := rfl

theorem length_filled (fits : xs.length ≤ n) : (filled n xs).length = n := by
  simp only [filled, List.length_append, List.length_map, List.length_replicate]
  omega

section filling

theorem store_filled (fits : xs.length < n) :
    store (filled n xs) xs.length x = some (filled n (xs ++ [x])) := by
  rw [store, if_pos (by rw [length_filled (Nat.le_of_lt fits)]; exact fits)]
  obtain ⟨k, more⟩ := Nat.exists_eq_add_of_lt fits
  have left : n - xs.length = k + 1 := by omega
  have behind : n - (xs ++ [x]).length = k := by
    rw [List.length_append]
    exact Nat.sub_eq_of_eq_add (by simp only [List.length_singleton]; omega)
  rw [filled, filled, left, behind, List.replicate_succ]
  simp

/-- A cell in use is overwritten. -/
theorem store_over (fits : xs.length + (y :: ys).length ≤ n) :
    store (filled n (xs ++ y :: ys)) xs.length x = some (filled n (xs ++ x :: ys)) := by
  have within : (xs ++ y :: ys).length ≤ n := by
    rw [List.length_append]
    exact fits
  rw [List.length_cons] at fits
  rw [store, if_pos (by rw [length_filled within]; omega)]
  simp [filled]

theorem storeAll_filled (ys : List α) :
    ∀ xs : List α, xs.length + ys.length ≤ n →
      storeAll (filled n xs) xs.length ys = some (filled n (xs ++ ys)) := by
  induction ys with
  | nil => simp [storeAll]
  | cons y ys ih =>
    intro xs fits
    rw [List.length_cons] at fits
    have rest := ih (xs ++ [y]) (by rw [List.length_append, List.length_singleton]; omega)
    rw [List.length_append, List.length_singleton] at rest
    rw [storeAll, store_filled (by omega)]
    simpa using rest

/-- Storing over the last cell in use and on. -/
theorem storeAll_last (some : ys ≠ []) (fits : xs.length + ys.length ≤ n) :
    storeAll (filled n (xs ++ [y])) xs.length ys = .some (filled n (xs ++ ys)) := by
  cases ys with
  | nil => exact absurd rfl some
  | cons x ys =>
    rw [List.length_cons] at fits
    have rest := storeAll_filled (n := n) ys (xs ++ [x])
      (by rw [List.length_append, List.length_singleton]; omega)
    rw [List.length_append, List.length_singleton] at rest
    rw [storeAll, store_over (by rw [List.length_singleton]; omega)]
    simpa using rest

theorem storeAll_outside (ys : List α) (within : i ≤ cells.length)
    (past : cells.length < i + ys.length) : storeAll cells i ys = none := by
  induction ys generalizing cells i with
  | nil => exact absurd past (by simp only [List.length_nil]; omega)
  | cons y ys ih =>
    rw [List.length_cons] at past
    rw [storeAll, store]
    split
    · next room =>
      exact ih (by rw [List.length_set]; exact room) (by rw [List.length_set]; omega)
    · rfl

end filling

theorem upTo_filled [DecidableEq α] {stop : α} (free : stop ∉ xs) :
    upTo stop (filled n (xs ++ stop :: ys)) = some xs := by
  rw [filled]
  generalize List.replicate _ (none : Option α) = behind
  induction xs with
  | nil => simp [upTo]
  | cons x xs ih =>
    have differs : x ≠ stop := fun same => free (same ▸ List.mem_cons_self)
    have rest := ih (fun mem => free (List.mem_cons_of_mem _ mem))
    simp only [List.cons_append, List.map_cons] at rest ⊢
    rw [upTo, if_neg differs, rest]
    rfl

theorem read_filled (xs : List α) : read (filled xs.length xs) xs.length = some xs := by
  rw [read, if_pos (Nat.le_of_eq (length_filled (Nat.le_refl _)).symm), filled, Nat.sub_self]
  have all : (xs.map some).mapM id = some xs := by
    rw [List.mapM_map]
    exact (List.mapM_pure (m := Option) (f := id)).trans (by rw [List.map_id]; rfl)
  have whole := List.take_of_length_le (show (xs.map some).length ≤ xs.length from Nat.le_of_eq (List.length_map some))
  rw [List.replicate_zero, List.append_nil, whole]
  exact all

theorem resize_filled {m : Nat} (fits : xs.length ≤ n) (larger : n ≤ m) :
    resize (filled n xs) m = filled m xs := by
  rw [resize, length_filled fits, List.take_of_length_le (by rw [length_filled fits]; exact larger),
    filled, filled, List.append_assoc, List.replicate_append_replicate]
  congr 2
  omega

end Cells
