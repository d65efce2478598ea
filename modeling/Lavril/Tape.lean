import Mathlib.Data.Int.Basic
import Mathlib.Data.List.Basic

/-!
# A sequence with a cursor

The cursor is never behind the end. Writing goes over what follows the cursor and past the
end, reading takes what there is, and both move the cursor to where they stop.
-/

universe u

structure Tape (α : Type u) where
  contents : List α
  cursor : Nat
  cursor_le : cursor ≤ contents.length

namespace Tape

variable {α : Type u}

def write (t : Tape α) (data : List α) : Tape α where
  contents :=
    t.contents.take t.cursor ++ data ++ t.contents.drop (t.cursor + data.length)
  cursor := t.cursor + data.length
  cursor_le := by
    have := t.cursor_le
    simp only [List.length_append, List.length_take]
    omega

/-- As many elements as are asked for, or as are left. -/
def available (t : Tape α) (n : Nat) : Nat := min n (t.contents.length - t.cursor)

def read (t : Tape α) (n : Nat) : List α × Tape α :=
  ((t.contents.drop t.cursor).take (t.available n),
    { contents := t.contents
      cursor := t.cursor + t.available n
      cursor_le := by
        have := t.cursor_le
        rw [available]
        omega })

def seek (t : Tape α) (position : Int) : Option (Tape α) :=
  if inside : 0 ≤ position ∧ position ≤ t.contents.length then
    some ⟨t.contents, position.toNat, by omega⟩
  else none

def resize (t : Tape α) (n : Nat) : Tape α where
  contents := t.contents.take n
  cursor := min t.cursor n
  cursor_le := by
    have := t.cursor_le
    rw [List.length_take]
    omega

variable {t t' : Tape α} {data more : List α} {m n : Nat}

theorem ext_iff : t = t' ↔ t.contents = t'.contents ∧ t.cursor = t'.cursor := by
  cases t
  cases t'
  simp

theorem contents_write :
    (t.write data).contents =
      t.contents.take t.cursor ++ data ++ t.contents.drop (t.cursor + data.length) := rfl

theorem cursor_write : (t.write data).cursor = t.cursor + data.length := rfl

theorem length_write :
    (t.write data).contents.length = max t.contents.length (t.cursor + data.length) := by
  have := t.cursor_le
  simp only [write, List.length_append, List.length_take, List.length_drop]
  omega

theorem length_read : (t.read n).1.length = t.available n := by
  have := t.cursor_le
  simp only [read, available, List.length_take, List.length_drop]
  omega

/-- What comes before the cursor is not written. -/
theorem take_write : (t.write data).contents.take t.cursor = t.contents.take t.cursor := by
  have length : (t.contents.take t.cursor).length = t.cursor := by
    rw [List.length_take, min_eq_left t.cursor_le]
  rw [contents_write, List.append_assoc, List.take_left' length]

/-- What is behind the cursor afterwards is as it was. -/
theorem drop_cursor_write :
    (t.write data).contents.drop (t.cursor + data.length) =
      t.contents.drop (t.cursor + data.length) := by
  have length : (t.contents.take t.cursor ++ data).length = t.cursor + data.length := by
    rw [List.length_append, List.length_take, min_eq_left t.cursor_le]
  rw [contents_write, List.drop_left' length]

theorem drop_write :
    (t.write data).contents.drop t.cursor = data ++ t.contents.drop (t.cursor + data.length) := by
  have length : (t.contents.take t.cursor).length = t.cursor := by
    rw [List.length_take, min_eq_left t.cursor_le]
  rw [contents_write, List.append_assoc, List.drop_left' length]

theorem write_nil : t.write [] = t := by
  refine ext_iff.mpr ⟨?_, rfl⟩
  rw [contents_write, List.append_nil, List.length_nil, Nat.add_zero, List.take_append_drop]

theorem write_write : (t.write data).write more = t.write (data ++ more) := by
  have length : (t.contents.take t.cursor ++ data).length = t.cursor + data.length := by
    rw [List.length_append, List.length_take, min_eq_left t.cursor_le]
  refine ext_iff.mpr ⟨?_, ?_⟩
  · have front : (t.write data).contents.take (t.cursor + data.length) =
        t.contents.take t.cursor ++ data := by
      rw [contents_write, List.take_left' length]
    have rest : (t.write data).contents.drop (t.cursor + data.length + more.length) =
        t.contents.drop (t.cursor + data.length + more.length) := by
      rw [← List.drop_drop, drop_cursor_write, List.drop_drop]
    calc ((t.write data).write more).contents
        = (t.write data).contents.take (t.cursor + data.length) ++ more ++
            (t.write data).contents.drop (t.cursor + data.length + more.length) := rfl
      _ = (t.write (data ++ more)).contents := by
        rw [front, rest, contents_write, List.length_append, List.append_assoc _ data, Nat.add_assoc]
  · simp only [cursor_write, List.length_append, Nat.add_assoc]

/-- A read of what is known to come next. -/
theorem read_of_drop (next : t.contents.drop t.cursor = data ++ more) :
    (t.read data.length).1 = data ∧
      (t.read data.length).2.contents = t.contents ∧
      (t.read data.length).2.cursor = t.cursor + data.length ∧
      (t.read data.length).2.contents.drop (t.read data.length).2.cursor = more := by
  have left := congrArg List.length next
  rw [List.length_drop, List.length_append] at left
  have all : t.available data.length = data.length := by
    rw [available]
    omega
  have cursor : (t.read data.length).2.cursor = t.cursor + data.length := by
    show t.cursor + t.available data.length = _
    rw [all]
  refine ⟨?_, rfl, cursor, ?_⟩
  · show (t.contents.drop t.cursor).take (t.available data.length) = data
    rw [next, all, List.take_left']
    rfl
  · rw [cursor]
    show t.contents.drop (t.cursor + data.length) = more
    rw [← List.drop_drop, next, List.drop_left']
    rfl

end Tape
