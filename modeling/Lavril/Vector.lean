import Mathlib.Logic.Function.Basic
import Mathlib.Algebra.Group.Nat.Even
import Mathlib.Order.Basic
import Mathlib.Data.List.Basic

/-!
# The growable vector

`lvvector` keeps its elements in one block of storage, which `_realloc` replaces by
another one. A block is known by its address, and a new block gets an address that was
never used. The number of bytes that is asked for is computed in 64 bits.

`none` as the result of an operation means an access outside the block, or to a place
where no element has been constructed.
-/

namespace Lavril

universe u

variable {T : Type u}

/-- A block of storage: its size, and the elements constructed in it. -/
structure Block (T : Type u) where
  bytes : Nat
  cell : Nat → Option T

/-- `brk` is the first address that has not been used. -/
structure Storage (T : Type u) where
  block : Nat → Option (Block T)
  brk : Nat

/-- `lvvector`; `vals` is null until something has been allocated. -/
structure LVVector where
  vals : Option Nat
  size : Nat
  allocated : Nat
  deriving DecidableEq

/-- The size of an `LVObjectPtr`. -/
def sizeofT : Nat := 16

namespace LVVector

def empty : LVVector := ⟨none, 0, 0⟩

/-! ## Storage -/

section storage

variable (m : Storage T) (v : LVVector) (i : Nat)

/-- The block of `_vals[i]`. -/
def place : Option (Nat × Block T) :=
  match v.vals with
  | none => none
  | some p =>
    match m.block p with
    | none => none
    | some b => if (i + 1) * sizeofT ≤ b.bytes then some (p, b) else none

def setCells (p : Nat) (b : Block T) (cell : Nat → Option T) : Storage T :=
  { m with block := Function.update m.block p (some { b with cell := cell }) }

def read : Option T :=
  match v.place m i with
  | none => none
  | some (_, b) => b.cell i

/-- `new ((void *)&_vals[i]) T(x)`. -/
def construct (x : T) : Option (Storage T) :=
  match v.place m i with
  | none => none
  | some (p, b) => some (setCells m p b (Function.update b.cell i (some x)))

/-- `_vals[i].~T()`. -/
def destroy : Option (Storage T) :=
  match v.place m i with
  | none => none
  | some (p, b) =>
    if (b.cell i).isSome then some (setCells m p b (Function.update b.cell i none)) else none

/-- `_vals[i] = x`. -/
def assign (x : T) : Option (Storage T) :=
  match v.read m i with
  | none => none
  | some _ => v.construct m i x

/-- `memmove(&_vals[i], &_vals[i + 1], sizeof(T) * n)`. -/
def memmove (n : Nat) : Option (Storage T) :=
  match v.place m (i + n) with
  | none => none
  | some (p, b) =>
    some (setCells m p b fun j => if i ≤ j ∧ j < i + n then b.cell (j + 1) else b.cell j)

/-- `_realloc`. -/
def realloc (newsize : Nat) : Storage T × LVVector :=
  let newsize := if newsize > 0 then newsize else 4
  let bytes := newsize * sizeofT % 2 ^ 64
  let cell : Nat → Option T :=
    match v.vals.bind m.block with
    | none => fun _ => none
    | some b => fun i => if (i + 1) * sizeofT ≤ bytes then b.cell i else none
  let block :=
    match v.vals with
    | none => m.block
    | some p => Function.update m.block p none
  (⟨Function.update block m.brk (some ⟨bytes, cell⟩), m.brk + 1⟩,
    { v with vals := some m.brk, allocated := newsize })

end storage

/-! ## Operations -/

/-- The loop of `resize` that appends copies of `fill`. -/
def grow (fill : T) : Nat → Storage T → LVVector → Option (Storage T × LVVector)
  | 0, m, v => some (m, v)
  | n + 1, m, v =>
    match v.construct m v.size fill with
    | none => none
    | some m => grow fill n m { v with size := v.size + 1 }

/-- The loop of `resize` that destroys the elements from `i` on. -/
def destroyFrom (v : LVVector) : Nat → Nat → Storage T → Option (Storage T)
  | 0, _, m => some m
  | n + 1, i, m =>
    match v.destroy m i with
    | none => none
    | some m => destroyFrom v n (i + 1) m

def resize (m : Storage T) (v : LVVector) (newsize : Nat) (fill : T) :
    Option (Storage T × LVVector) :=
  let (m, v) := if newsize > v.allocated then v.realloc m newsize else (m, v)
  if newsize > v.size then grow fill (newsize - v.size) m v
  else (destroyFrom v (v.size - newsize) newsize m).map fun m => (m, { v with size := newsize })

def shrinktofit (m : Storage T) (v : LVVector) : Storage T × LVVector :=
  if v.size > 4 then v.realloc m v.size else (m, v)

def pushBack (m : Storage T) (v : LVVector) (val : T) : Option (Storage T × LVVector) :=
  let (m, v) := if v.allocated ≤ v.size then v.realloc m (v.size * 2) else (m, v)
  (v.construct m v.size val).map fun m => (m, { v with size := v.size + 1 })

def popBack (m : Storage T) (v : LVVector) : Option (Storage T × LVVector) :=
  let v := { v with size := v.size - 1 }
  (v.destroy m v.size).map fun m => (m, v)

/-- The loop of `insert`, from `i` down. -/
def shiftUp (v : LVVector) (idx : Nat) : Nat → Storage T → Option (Storage T)
  | 0, m => some m
  | i + 1, m =>
    if i + 1 > idx then
      match v.read m i with
      | none => none
      | some x =>
        match v.assign m (i + 1) x with
        | none => none
        | some m => shiftUp v idx i m
    else some m

def insert [Inhabited T] (m : Storage T) (v : LVVector) (idx : Nat) (val : T) :
    Option (Storage T × LVVector) :=
  match v.resize m (v.size + 1) default with
  | none => none
  | some (m, v) =>
    match shiftUp v idx (v.size - 1) m with
    | none => none
    | some m => (v.assign m idx val).map fun m => (m, v)

def remove (m : Storage T) (v : LVVector) (idx : Nat) : Option (Storage T × LVVector) :=
  match v.destroy m idx with
  | none => none
  | some m =>
    (if idx < v.size - 1 then v.memmove m idx (v.size - idx - 1) else some m).map fun m =>
      (m, { v with size := v.size - 1 })

/-- The loop of `copy`. -/
def copyFrom (v w : LVVector) : Nat → Nat → Storage T → Option (Storage T)
  | 0, _, m => some m
  | n + 1, i, m =>
    match w.read m i with
    | none => none
    | some x =>
      match v.construct m i x with
      | none => none
      | some m => copyFrom v w n (i + 1) m

/-- `copy` of `w` into `v`. -/
def copy [Inhabited T] (m : Storage T) (v w : LVVector) : Option (Storage T × LVVector) :=
  match if v.size ≠ 0 then v.resize m 0 default else some (m, v) with
  | none => none
  | some (m, v) =>
    let (m, v) := if w.size > v.allocated then v.realloc m w.size else (m, v)
    (copyFrom v w w.size 0 m).map fun m => (m, { v with size := w.size })

/-! ## What the block holds -/

/-- The block has room for `allocated` elements, and `cell` tells what it holds. -/
def Stored (m : Storage T) (v : LVVector) (cell : Nat → Option T) : Prop :=
  ∃ p b, v.vals = some p ∧ p < m.brk ∧ m.block p = some b ∧
    (v.allocated * sizeofT ≤ b.bytes ∧ b.bytes < 2 ^ 64) ∧ ∀ i < v.allocated, b.cell i = cell i

/-- No block in use is changed but that of `v`, which may be replaced by a new one. -/
structure Frame (m : Storage T) (v : LVVector) (m' : Storage T) (v' : LVVector) : Prop where
  brk : m.brk ≤ m'.brk
  blocks : ∀ p < m.brk, v.vals ≠ some p → m'.block p = m.block p
  vals : v'.vals = v.vals ∨ ∃ p, v'.vals = some p ∧ m.brk ≤ p ∧ p < m'.brk

variable {m m' m'' : Storage T} {v v' v'' : LVVector} {cell : Nat → Option T} {i n : Nat} {x : T}

theorem Frame.refl (size : v'.vals = v.vals) : Frame m v m v' := ⟨Nat.le_refl _, fun _ _ _ => rfl, .inl size⟩

theorem Frame.trans (first : Frame m v m' v') (second : Frame m' v' m'' v'') : Frame m v m'' v'' := by
  refine ⟨Nat.le_trans first.brk second.brk, fun p lt other => ?_, ?_⟩
  · rw [second.blocks p (Nat.lt_of_lt_of_le lt first.brk) ?_, first.blocks p lt other]
    rcases first.vals with same | ⟨q, is, ge, -⟩
    · rw [same]
      exact other
    · rw [is]
      rintro ⟨⟩
      omega
  · rcases second.vals with same | ⟨q, is, ge, lt⟩
    · rcases first.vals with same' | ⟨q, is, ge, lt⟩
      · exact .inl (same.trans same')
      · exact .inr ⟨q, same.trans is, ge, Nat.lt_of_lt_of_le lt second.brk⟩
    · exact .inr ⟨q, is, Nat.le_trans first.brk ge, lt⟩

/-- Another vector keeps its block. -/
theorem Frame.stored {w : LVVector} (frame : Frame m v m' v') (stored : Stored m w cell)
    (other : w.vals ≠ v.vals) : Stored m' w cell := by
  obtain ⟨p, b, is, lt, block, room, cells⟩ := stored
  refine ⟨p, b, is, Nat.lt_of_lt_of_le lt frame.brk, ?_, room, cells⟩
  rw [frame.blocks p lt (fun same => other (is.trans same.symm)), block]

theorem Stored.place (stored : Stored m v cell) (lt : i < v.allocated) :
    ∃ p b, v.place m i = some (p, b) ∧ v.vals = some p ∧ p < m.brk ∧ m.block p = some b ∧
      (v.allocated * sizeofT ≤ b.bytes ∧ b.bytes < 2 ^ 64) ∧
      ∀ i < v.allocated, b.cell i = cell i := by
  obtain ⟨p, b, is, below, block, room, cells⟩ := stored
  refine ⟨p, b, ?_, is, below, block, room, cells⟩
  have inside : (i + 1) * sizeofT ≤ b.bytes := Nat.le_trans (Nat.mul_le_mul_right _ lt) room.1
  simp only [LVVector.place, is, block, if_pos inside]

theorem Stored.setCells {p : Nat} {b : Block T} {cell' : Nat → Option T} (is : v.vals = some p)
    (lt : p < m.brk) (room : v.allocated * sizeofT ≤ b.bytes ∧ b.bytes < 2 ^ 64) {written : Nat → Option T}
    (cells : ∀ i < v.allocated, written i = cell' i) :
    Stored (setCells m p b written) v cell' ∧ Frame m v (setCells m p b written) v := by
  refine ⟨⟨p, _, is, lt, Function.update_self .., room, cells⟩, Nat.le_refl _, fun q _ other => ?_,
    .inl rfl⟩
  refine Function.update_of_ne ?_ ..
  rintro rfl
  exact other is

theorem Stored.read (stored : Stored m v cell) (lt : i < v.allocated) : v.read m i = cell i := by
  obtain ⟨p, b, place, -, -, -, -, cells⟩ := stored.place lt
  simp only [LVVector.read, place, cells i lt]

theorem Stored.construct (stored : Stored m v cell) (lt : i < v.allocated) (x : T) :
    ∃ m', v.construct m i x = some m' ∧ Stored m' v (Function.update cell i (some x)) ∧
      Frame m v m' v := by
  obtain ⟨p, b, place, is, below, block, room, cells⟩ := stored.place lt
  have run : v.construct m i x =
      some (LVVector.setCells m p b (Function.update b.cell i (some x))) := by
    simp only [LVVector.construct, place]
  refine ⟨_, run, Stored.setCells is below room ?_⟩
  intro j below
  by_cases here : j = i
  · simp [here]
  · simp [here, cells j below]

theorem Stored.destroy (stored : Stored m v cell) (lt : i < v.allocated)
    (there : (cell i).isSome) : ∃ m', v.destroy m i = some m' ∧
      Stored m' v (Function.update cell i none) ∧ Frame m v m' v := by
  obtain ⟨p, b, place, is, below, block, room, cells⟩ := stored.place lt
  have run : v.destroy m i = some (LVVector.setCells m p b (Function.update b.cell i none)) := by
    simp only [LVVector.destroy, place, cells i lt, if_pos there]
  refine ⟨_, run, Stored.setCells is below room ?_⟩
  intro j below
  by_cases here : j = i
  · simp [here]
  · simp [here, cells j below]

theorem Stored.assign (stored : Stored m v cell) (lt : i < v.allocated)
    (there : (cell i).isSome) (x : T) : ∃ m', v.assign m i x = some m' ∧
      Stored m' v (Function.update cell i (some x)) ∧ Frame m v m' v := by
  obtain ⟨old, is⟩ := Option.isSome_iff_exists.mp there
  have read : v.read m i = some old := (stored.read lt).trans is
  obtain ⟨m', run, after⟩ := stored.construct lt x
  exact ⟨m', by simp only [LVVector.assign, read, run], after⟩

theorem Stored.memmove (stored : Stored m v cell) (lt : i + n < v.allocated) :
    ∃ m', v.memmove m i n = some m' ∧
      Stored m' v (fun j => if i ≤ j ∧ j < i + n then cell (j + 1) else cell j) ∧
      Frame m v m' v := by
  obtain ⟨p, b, place, is, below, block, room, cells⟩ := stored.place lt
  have run : v.memmove m i n = some (LVVector.setCells m p b fun j =>
      if i ≤ j ∧ j < i + n then b.cell (j + 1) else b.cell j) := by
    simp only [LVVector.memmove, place]
  refine ⟨_, run, Stored.setCells is below room ?_⟩
  intro j below
  by_cases moved : i ≤ j ∧ j < i + n
  · simp only [if_pos moved]
    exact cells (j + 1) (by omega)
  · simp only [if_neg moved]
    exact cells j below

/-- The vector has the elements of the list, in its block. -/
structure Has (m : Storage T) (v : LVVector) (l : List T) : Prop where
  size : v.size = l.length
  room : v.size ≤ v.allocated
  stored : ∃ cell, Stored m v cell ∧ ∀ i < l.length, cell i = l[i]?

/-- The vector has the elements of the list; an empty one may have no block. -/
def Holds (m : Storage T) (v : LVVector) (l : List T) : Prop := Has m v l ∨ v = empty ∧ l = []

variable {l : List T}

theorem holds_empty : Holds m empty ([] : List T) := .inr ⟨rfl, rfl⟩

/-- `_realloc` moves the elements into a new block, when that is not too small for them
and its size does not wrap around. -/
theorem Holds.realloc (holds : Holds m v l) (fits : l.length ≤ if n > 0 then n else 4)
    (small : n < 2 ^ 60) : Has (v.realloc m n).1 (v.realloc m n).2 l ∧
      Frame m v (v.realloc m n).1 (v.realloc m n).2 ∧
      (v.realloc m n).2.allocated = if n > 0 then n else 4 := by
  set new := if n > 0 then n else 4 with hnew
  have bound : new < 2 ^ 60 := by
    rw [hnew]
    split
    · exact small
    · decide
  have bytes : new * sizeofT % 2 ^ 64 = new * sizeofT := by
    rw [sizeofT]
    omega
  refine ⟨⟨?_, ?_, _, ⟨m.brk, _, rfl, Nat.lt_succ_self _, Function.update_self ..,
    ⟨Nat.le_of_eq bytes.symm, Nat.mod_lt _ (by decide)⟩, fun _ _ => rfl⟩, fun i lt => ?_⟩,
    ⟨Nat.le_succ _, fun q below other => ?_, .inr ⟨m.brk, rfl, Nat.le_refl _, Nat.lt_succ_self _⟩⟩, rfl⟩
  · rcases holds with has | ⟨rfl, rfl⟩
    · exact has.size
    · rfl
  · rcases holds with has | ⟨rfl, rfl⟩
    · exact has.size.trans_le fits
    · exact Nat.zero_le _
  · rcases holds with has | ⟨rfl, rfl⟩
    · obtain ⟨cell, ⟨p, b, is, -, block, -, cells⟩, elements⟩ := has.stored
      have below : i < v.allocated := by
        have := has.size
        have := has.room
        omega
      have inside : (i + 1) * sizeofT ≤ new * sizeofT % 2 ^ 64 := by
        rw [bytes]
        exact Nat.mul_le_mul_right _ (by omega)
      simp only [is, Option.bind_some, block, ← hnew, if_pos inside]
      rw [cells i below, elements i lt]
    · cases lt
  · simp only [LVVector.realloc]
    rw [Function.update_of_ne (by omega)]
    cases is : v.vals with
    | none => rfl
    | some p => exact Function.update_of_ne (fun same : q = p => other (is.trans (congrArg some same.symm))) ..

/-- Both memories and vectors as before an operation and after it, which is `r`. -/
def Becomes (m : Storage T) (v : LVVector) (r : Option (Storage T × LVVector)) (l : List T) : Prop :=
  ∃ m' v', r = some (m', v') ∧ Holds m' v' l ∧ Frame m v m' v'

theorem Frame.resized {size : Nat} (frame : Frame m v m' v') :
    Frame m v m' { v' with size := size } := ⟨frame.brk, frame.blocks, frame.vals⟩

theorem Stored.resized {size : Nat} (stored : Stored m v cell) :
    Stored m { v with size := size } cell := stored

/-- One more element where there is room for it. -/
theorem Has.append (has : Has m v l) (space : v.size < v.allocated) (x : T) :
    ∃ m', v.construct m v.size x = some m' ∧ Has m' { v with size := v.size + 1 } (l ++ [x]) ∧
      Frame m v m' { v with size := v.size + 1 } := by
  obtain ⟨cell, stored, elements⟩ := has.stored
  obtain ⟨m', run, after, frame⟩ := stored.construct space x
  refine ⟨m', run, ⟨by simp [has.size], space, _, after.resized, fun i lt => ?_⟩, frame.resized⟩
  rw [has.size]
  by_cases last : i = l.length
  · simp [last]
  · rw [List.length_append, List.length_singleton] at lt
    have inside : i < l.length := by omega
    rw [Function.update_of_ne last, elements i inside, List.getElem?_append_left inside]

theorem Has.grow (has : Has m v l) (fill : T) (space : l.length + n ≤ v.allocated) :
    ∃ m' v', grow fill n m v = some (m', v') ∧ Has m' v' (l ++ List.replicate n fill) ∧
      Frame m v m' v' := by
  induction n generalizing m v l with
  | zero => exact ⟨m, v, rfl, by simpa using has, .refl rfl⟩
  | succ n ih =>
    obtain ⟨m₁, run, has₁, frame⟩ := has.append (by rw [has.size]; omega) fill
    obtain ⟨m', v', rest, after, frame'⟩ := ih has₁ (by simp; omega)
    refine ⟨m', v', ?_, ?_, frame.trans frame'⟩
    · simp only [LVVector.grow, run]
      exact rest
    · simpa [List.replicate_succ] using after

theorem Stored.destroyFrom (stored : Stored m v cell) (inside : i + n ≤ v.allocated)
    (there : ∀ j, i ≤ j → j < i + n → (cell j).isSome) :
    ∃ m' cell', destroyFrom v n i m = some m' ∧ Stored m' v cell' ∧
      (∀ j < i, cell' j = cell j) ∧ Frame m v m' v := by
  induction n generalizing m i cell with
  | zero => exact ⟨m, cell, rfl, stored, fun _ _ => rfl, .refl rfl⟩
  | succ n ih =>
    obtain ⟨m₁, run, stored₁, frame⟩ :=
      stored.destroy (by omega) (there i (Nat.le_refl _) (by omega))
    obtain ⟨m', cell', rest, after, same, frame'⟩ := ih stored₁ (i := i + 1) (by omega) (by
      intro j ge lt
      rw [Function.update_of_ne (by omega)]
      exact there j (by omega) (by omega))
    refine ⟨m', cell', ?_, after, fun j lt => ?_, frame.trans frame'⟩
    · simp only [LVVector.destroyFrom, run]
      exact rest
    · rw [same j (by omega), Function.update_of_ne (by omega)]

/-- The elements from `n` on are destroyed. -/
theorem Has.truncate (has : Has m v l) (le : n ≤ v.size) :
    ∃ m', destroyFrom v (v.size - n) n m = some m' ∧ Has m' { v with size := n } (l.take n) ∧
      Frame m v m' { v with size := n } := by
  obtain ⟨cell, stored, elements⟩ := has.stored
  have size := has.size
  have room := has.room
  obtain ⟨m', cell', run, after, same, frame⟩ := stored.destroyFrom (i := n) (n := v.size - n)
    (by omega) (by
      intro j ge lt
      rw [elements j (by omega), List.getElem?_eq_getElem (by omega)]
      rfl)
  refine ⟨m', run, ⟨by simp; omega, by simp; omega, cell', after.resized, fun i lt => ?_⟩,
    frame.resized⟩
  rw [List.length_take] at lt
  rw [same i (by omega), elements i (by omega), List.getElem?_take_of_lt (by omega)]

theorem Holds.size (holds : Holds m v l) : v.size = l.length := by
  rcases holds with has | ⟨rfl, rfl⟩
  · exact has.size
  · rfl

theorem Holds.room (holds : Holds m v l) : v.size ≤ v.allocated := by
  rcases holds with has | ⟨rfl, rfl⟩
  · exact has.room
  · exact Nat.le_refl _

/-- A block has fewer than 2^64 bytes. -/
theorem Holds.small (holds : Holds m v l) : v.allocated < 2 ^ 60 := by
  rcases holds with has | ⟨rfl, rfl⟩
  · obtain ⟨cell, ⟨p, b, -, -, -, ⟨room, bytes⟩, -⟩, -⟩ := has.stored
    rw [sizeofT] at room
    omega
  · decide

/-- `resize` when its new block, if it asks for one, is not too large. -/
theorem Holds.resize (holds : Holds m v l) (fits : n > v.allocated → n < 2 ^ 60) (fill : T) :
    Becomes m v (v.resize m n fill) (l.take n ++ List.replicate (n - l.length) fill) := by
  have size := holds.size
  have room := holds.room
  by_cases larger : n > v.allocated
  · obtain ⟨has, frame, allocated⟩ := holds.realloc (n := n) (by split <;> omega) (fits larger)
    rw [if_pos (by omega)] at allocated
    obtain ⟨m', v', run, after, frame'⟩ := has.grow fill (n := n - l.length) (by omega)
    refine ⟨m', v', ?_, .inl ?_, frame.trans frame'⟩
    · simp only [LVVector.resize, if_pos larger, has.size]
      rw [if_pos (by omega)]
      exact run
    · rwa [List.take_of_length_le (by omega)]
  simp only [LVVector.resize, if_neg larger]
  rcases holds with has | ⟨rfl, rfl⟩
  · by_cases more : n > v.size
    · obtain ⟨m', v', run, after, frame⟩ := has.grow fill (n := n - l.length) (by omega)
      refine ⟨m', v', ?_, .inl ?_, frame⟩
      · rw [if_pos more, size]
        exact run
      · rwa [List.take_of_length_le (by omega)]
    · obtain ⟨m', run, after, frame⟩ := has.truncate (n := n) (by omega)
      refine ⟨m', _, by rw [if_neg more, run]; rfl, .inl ?_, frame⟩
      rwa [Nat.sub_eq_zero_of_le (by omega), List.replicate_zero, List.append_nil]
  · obtain rfl : n = 0 := by simp [empty] at larger; exact larger
    exact ⟨m, empty, rfl, .inr ⟨rfl, rfl⟩, .refl rfl⟩

theorem Holds.shrinktofit (holds : Holds m v l) :
    Holds (v.shrinktofit m).1 (v.shrinktofit m).2 l ∧
      Frame m v (v.shrinktofit m).1 (v.shrinktofit m).2 := by
  have size := holds.size
  have room := holds.room
  have small := holds.small
  rw [LVVector.shrinktofit]
  split
  · obtain ⟨has, frame, -⟩ := holds.realloc (n := v.size) (by split <;> omega) (by omega)
    exact ⟨.inl has, frame⟩
  · exact ⟨holds, .refl rfl⟩

/-- `push_back`, and the room there is after it. -/
theorem Holds.pushBack (holds : Holds m v l)
    (fits : v.allocated ≤ v.size → v.size * 2 < 2 ^ 60) (x : T) :
    ∃ m' v', v.pushBack m x = some (m', v') ∧ Has m' v' (l ++ [x]) ∧ Frame m v m' v' ∧
      v'.size = v.size + 1 ∧ v'.allocated =
        if v.allocated ≤ v.size then (if v.size * 2 > 0 then v.size * 2 else 4) else v.allocated := by
  have size := holds.size
  by_cases full : v.allocated ≤ v.size
  · obtain ⟨has, frame, allocated⟩ :=
      holds.realloc (n := v.size * 2) (by split <;> omega) (fits full)
    have space : (v.realloc m (v.size * 2)).2.size < (v.realloc m (v.size * 2)).2.allocated := by
      rw [has.size, allocated]
      split <;> omega
    obtain ⟨m', run, after, frame'⟩ := has.append space x
    refine ⟨m', _, ?_, after, frame.trans frame', rfl, ?_⟩
    · simp only [LVVector.pushBack, if_pos full, run]
      rfl
    · rw [if_pos full]
      exact allocated
  · have has : Has m v l := by
      rcases holds with has | ⟨rfl, -⟩
      · exact has
      · exact absurd (Nat.le_refl _) full
    obtain ⟨m', run, after, frame⟩ := has.append (by omega) x
    refine ⟨m', _, ?_, after, frame, rfl, ?_⟩
    · simp only [LVVector.pushBack, if_neg full, run]
      rfl
    · rw [if_neg full]

theorem Has.popBack (has : Has m v l) (nonempty : l ≠ []) :
    Becomes m v (v.popBack m) l.dropLast := by
  obtain ⟨cell, stored, elements⟩ := has.stored
  have size := has.size
  have room := has.room
  have pos := List.length_pos_of_ne_nil nonempty
  have narrowed : Stored m { v with size := v.size - 1 } cell := stored.resized
  obtain ⟨m', run, after, frame⟩ := narrowed.destroy
    (i := v.size - 1) (by change v.size - 1 < v.allocated; omega) (by
      rw [elements _ (by omega), List.getElem?_eq_getElem (by omega)]
      rfl)
  refine ⟨m', { v with size := v.size - 1 }, ?_, .inl ⟨?_, ?_, _, after, fun i lt => ?_⟩,
    ⟨frame.brk, frame.blocks, frame.vals⟩⟩
  · simp only [LVVector.popBack, run]
    rfl
  · simp [size]
  · change v.size - 1 ≤ v.allocated
    omega
  · rw [List.length_dropLast] at lt
    rw [Function.update_of_ne (by omega), elements i (by omega), List.getElem?_dropLast,
      if_pos lt]

/-- A place of the vector is written again. -/
theorem Has.assign (has : Has m v l) (lt : i < l.length) (x : T) :
    ∃ m', v.assign m i x = some m' ∧ Has m' v (l.set i x) ∧ Frame m v m' v := by
  obtain ⟨cell, stored, elements⟩ := has.stored
  have size := has.size
  have room := has.room
  obtain ⟨m', run, after, frame⟩ := stored.assign (i := i) (by omega) (by
    rw [elements i lt, List.getElem?_eq_getElem lt]
    rfl) x
  refine ⟨m', run, ⟨by simp [size], room, _, after, fun j below => ?_⟩, frame⟩
  rw [List.length_set] at below
  by_cases here : j = i
  · subst here
    rw [Function.update_self, List.getElem?_set_self lt]
  · rw [Function.update_of_ne here, elements j below, List.getElem?_set_ne (Ne.symm here)]

theorem Has.read (has : Has m v l) (lt : i < l.length) : v.read m i = l[i]? := by
  obtain ⟨cell, stored, elements⟩ := has.stored
  have size := has.size
  have room := has.room
  rw [stored.read (by omega), elements i lt]

/-- The elements from `idx` to `i` move up by one. -/
theorem Has.shiftUp (idx : Nat) (has : Has m v l) (lt : i < l.length) :
    ∃ m' l', shiftUp v idx i m = some m' ∧ Has m' v l' ∧ Frame m v m' v ∧
      l'.length = l.length ∧
      ∀ j, l'[j]? = if idx < j ∧ j ≤ i then l[j - 1]? else l[j]? := by
  induction i generalizing m l with
  | zero =>
    refine ⟨m, l, rfl, has, .refl rfl, rfl, fun j => ?_⟩
    rw [if_neg (by omega)]
  | succ i ih =>
    by_cases above : i + 1 > idx
    · have read := has.read (i := i) (by omega)
      rw [List.getElem?_eq_getElem (by omega)] at read
      obtain ⟨m₁, run, has₁, frame⟩ := has.assign lt l[i]
      obtain ⟨m', l', rest, after, frame', length, elements⟩ := ih has₁ (by simp; omega)
      refine ⟨m', l', ?_, after, frame.trans frame', by simp [length], fun j => ?_⟩
      · simp only [LVVector.shiftUp, if_pos above, read, run]
        exact rest
      · rw [elements j]
        by_cases inner : idx < j ∧ j ≤ i
        · rw [if_pos inner, if_pos (by omega), List.getElem?_set_ne (by omega)]
        · rw [if_neg inner]
          by_cases top : j = i + 1
          · subst top
            rw [if_pos (by omega), List.getElem?_set_self lt, Nat.add_sub_cancel,
              List.getElem?_eq_getElem]
          · rw [if_neg (by omega), List.getElem?_set_ne (by omega)]
    · refine ⟨m, l, by simp only [LVVector.shiftUp, if_neg above], has, .refl rfl, rfl, fun j => ?_⟩
      rw [if_neg (by omega)]

theorem Holds.insert [Inhabited T] (idx : Nat) (holds : Holds m v l) (le : idx ≤ l.length)
    (fits : v.size + 1 > v.allocated → v.size + 1 < 2 ^ 60) (x : T) :
    Becomes m v (v.insert m idx x) (l.insertIdx idx x) := by
  have size := holds.size
  obtain ⟨m₁, v₁, run, holds₁, frame⟩ := holds.resize fits default
  rw [size, List.take_of_length_le (by omega), Nat.add_sub_cancel_left, List.replicate_one] at holds₁
  have has₁ : Has m₁ v₁ (l ++ [default]) := by
    rcases holds₁ with has | ⟨-, none⟩
    · exact has
    · simp at none
  have size₁ := has₁.size
  rw [List.length_append, List.length_singleton] at size₁
  obtain ⟨m₂, l₂, shift, has₂, frame₂, length, elements⟩ :=
    has₁.shiftUp idx (i := v₁.size - 1) (by simp; omega)
  rw [List.length_append, List.length_singleton] at length
  obtain ⟨m', write, after, frame'⟩ := has₂.assign (i := idx) (by omega) x
  have contents : l₂.set idx x = l.insertIdx idx x := by
    apply List.ext_getElem?
    intro j
    rcases Nat.lt_trichotomy j idx with before | rfl | after
    · rw [List.getElem?_set_ne (by omega), elements, if_neg (by omega),
        List.getElem?_append_left (by omega), List.getElem?_insertIdx_of_lt before]
    · rw [List.getElem?_set_self (by omega), List.getElem?_insertIdx_self, if_pos le]
    · rw [List.getElem?_set_ne (by omega), elements, List.getElem?_insertIdx_of_gt after]
      by_cases inside : j ≤ l.length
      · rw [if_pos (by omega), List.getElem?_append_left (by omega)]
      · rw [if_neg (by omega), List.getElem?_eq_none (by simp; omega),
          List.getElem?_eq_none (by omega)]
  refine ⟨m', v₁, ?_, .inl (contents ▸ after), (frame.trans frame₂).trans frame'⟩
  simp only [LVVector.insert, run, shift, write]
  rfl

theorem Has.remove (idx : Nat) (has : Has m v l) (lt : idx < l.length) :
    Becomes m v (v.remove m idx) (l.eraseIdx idx) := by
  obtain ⟨cell, stored, elements⟩ := has.stored
  have size := has.size
  have room := has.room
  obtain ⟨m₁, run, stored₁, frame⟩ := stored.destroy (i := idx) (by omega) (by
    rw [elements idx lt, List.getElem?_eq_getElem lt]
    rfl)
  have length : (l.eraseIdx idx).length = v.size - 1 := by
    rw [List.length_eraseIdx_of_lt lt, size]
  have lastRoom : v.size - 1 ≤ v.allocated := by omega
  by_cases last : idx < v.size - 1
  · obtain ⟨m', moved, after, frame'⟩ :=
      stored₁.memmove (i := idx) (n := v.size - idx - 1) (by omega)
    refine ⟨m', { v with size := v.size - 1 }, ?_, .inl ⟨length.symm, lastRoom, _, after.resized,
      fun j below => ?_⟩, (frame.trans frame').resized⟩
    · simp only [LVVector.remove, run, if_pos last, moved]
      rfl
    · rw [length] at below
      rw [List.getElem?_eraseIdx]
      by_cases before : j < idx
      · rw [if_neg (by omega), if_pos before, Function.update_of_ne (by omega),
          elements j (by omega)]
      · rw [if_pos (by omega), if_neg before, Function.update_of_ne (by omega),
          elements (j + 1) (by omega)]
  · refine ⟨m₁, { v with size := v.size - 1 }, ?_, .inl ⟨length.symm, lastRoom, _, stored₁.resized,
      fun j below => ?_⟩, frame.resized⟩
    · simp only [LVVector.remove, run, if_neg last]
      rfl
    · rw [length] at below
      rw [List.getElem?_eraseIdx, if_pos (by omega), Function.update_of_ne (by omega),
        elements j (by omega)]

/-- The loop of `copy`, into a block that has room. -/
theorem Has.copyFrom {w : LVVector} {done rest : List T} (source : Has m w (done ++ rest))
    (into : Has m { v with size := done.length } done) (other : w.vals ≠ v.vals)
    (space : (done ++ rest).length ≤ v.allocated) :
    ∃ m', copyFrom v w rest.length done.length m = some m' ∧
      Has m' { v with size := (done ++ rest).length } (done ++ rest) ∧ Frame m v m' v := by
  induction rest generalizing m done with
  | nil => exact ⟨m, rfl, by simpa using into, .refl rfl⟩
  | cons x rest ih =>
    have read : w.read m done.length = some x := by
      rw [source.read (by simp)]
      simp
    rw [List.length_append, List.length_cons] at space
    obtain ⟨m₁, run, has₁, frame⟩ := into.append (by change done.length < v.allocated; omega) x
    have run : v.construct m done.length x = some m₁ := run
    have source₁ : Has m₁ w (done ++ [x] ++ rest) := by
      obtain ⟨cell, stored, elements⟩ := source.stored
      refine ⟨by simpa using source.size, source.room, cell, frame.stored stored other, ?_⟩
      simpa using elements
    obtain ⟨m', loop, after, frame'⟩ := ih source₁ (by simpa using has₁) (by simp; omega)
    have frame : Frame m v m₁ v := ⟨frame.brk, frame.blocks, .inl rfl⟩
    refine ⟨m', ?_, by simpa using after, frame.trans frame'⟩
    simp only [List.length_cons, LVVector.copyFrom, read, run]
    simpa using loop

/-- `copy` into a vector that has nothing allocated. -/
theorem Holds.copy [Inhabited T] {w : LVVector} (source : Holds m w l) :
    Becomes m empty (empty.copy m w) l := by
  have size := source.size
  have room := source.room
  have small := source.small
  rcases source with has | ⟨rfl, rfl⟩
  · by_cases some : w.size > 0
    · obtain ⟨new, frame, allocated⟩ := (holds_empty : Holds m empty []).realloc
        (n := w.size) (Nat.zero_le _) (by omega)
      set m₁ := (empty.realloc m w.size).1 with hm₁
      set v₁ := (empty.realloc m w.size).2 with hv₁
      obtain ⟨cell, stored, elements⟩ := has.stored
      obtain ⟨p, -, is, below, -⟩ := id stored
      have source : Has m₁ w ([] ++ l) :=
        ⟨has.size, has.room, cell, frame.stored stored (by rw [is]; nofun), elements⟩
      have other : w.vals ≠ v₁.vals := by
        rw [is]
        rintro ⟨⟩
        exact Nat.lt_irrefl _ below
      obtain ⟨m', run, after, frame'⟩ := source.copyFrom (v := v₁) new other
        (Nat.le_of_eq (by rw [allocated, if_pos some, List.nil_append, size]))
      refine ⟨m', { v₁ with size := l.length }, ?_, .inl after, (frame.trans frame').resized⟩
      have run : copyFrom v₁ w w.size 0 m₁ = Option.some m' := size ▸ run
      have copied : empty.copy m w = (copyFrom v₁ w w.size 0 m₁).map fun m =>
          (m, { v₁ with size := w.size }) := by
        have larger : w.size > empty.allocated := some
        have start : (if empty.size ≠ 0 then empty.resize m 0 default else Option.some (m, empty)) =
            Option.some (m, empty) := rfl
        simp only [LVVector.copy, start, if_pos larger]
        rfl
      rw [copied, run, size]
      rfl
    · have none : w.size = 0 := by omega
      obtain rfl : l = [] := List.eq_nil_of_length_eq_zero (by omega)
      refine ⟨m, empty, ?_, holds_empty, .refl rfl⟩
      simp only [LVVector.copy, none]
      rfl
  · exact ⟨m, empty, rfl, holds_empty, .refl rfl⟩

end LVVector

end Lavril
