import Lavril.Blob
import Lavril.Succeeds
import Mathlib.Tactic.Linarith

/-!
# What the functions of a blob need

When the pointer lies in the size and the size in what is allocated, each function has a
condition for not leaving its buffers, and keeps this so.
-/

namespace Lavril

/-- The integers of 64 bits. -/
def InRange (n : Int) : Prop := -2 ^ 63 ≤ n ∧ n < 2 ^ 63

theorem toInt_inRange (n : BitVec 64) : InRange n.toInt :=
  ⟨by have := BitVec.le_toInt n; omega, by have := BitVec.toInt_lt (x := n); omega⟩

theorem wrap_inRange (n : Int) : InRange (wrap n) := by
  have low := Int.le_bmod (x := n) (m := 2 ^ 64) (by decide)
  have high := Int.bmod_lt (x := n) (m := 2 ^ 64) (by decide)
  norm_num at low high
  exact ⟨by simpa [wrap] using low, by simpa [wrap] using high⟩

theorem wrap_of_inRange {n : Int} (range : InRange n) : wrap n = n := by
  obtain ⟨low, high⟩ := range
  exact Int.bmod_eq_of_le (by omega) (by omega)

/-- A sum of two that are not negative and leave the range. -/
theorem wrap_neg {n : Int} (low : 2 ^ 63 ≤ n) (high : n < 2 ^ 64) : wrap n = n - 2 ^ 64 := by
  have same : wrap (n - 2 ^ 64) = wrap n := Int.sub_bmod_right n (2 ^ 64)
  rw [← same]
  exact wrap_of_inRange ⟨by omega, by omega⟩

theorem toSize_of_nonneg {n : Int} (range : InRange n) (nonneg : 0 ≤ n) : (toSize n : Int) = n := by
  obtain ⟨-, high⟩ := range
  rw [toSize, Int.emod_eq_of_lt nonneg (by omega)]
  omega

theorem toSize_of_neg {n : Int} (range : InRange n) (neg : n < 0) :
    (toSize n : Int) = n + 2 ^ 64 := by
  obtain ⟨low, -⟩ := range
  rw [toSize, ← Int.add_emod_right n, Int.emod_eq_of_lt (by omega) (by omega)]
  omega

theorem nonneg_of_toSize {n : Int} (range : InRange n) (lt : toSize n < 2 ^ 63) : 0 ≤ n := by
  by_contra neg
  have := toSize_of_neg range (by omega)
  obtain ⟨low, -⟩ := range
  omega

theorem toSize_eq_zero {n : Int} (range : InRange n) : toSize n = 0 ↔ n = 0 := by
  by_cases nonneg : 0 ≤ n
  · have := toSize_of_nonneg range nonneg
    omega
  · have := toSize_of_neg range (by omega)
    obtain ⟨low, -⟩ := range
    omega

namespace Buffer

/-- The pointer goes to that many bytes, and is not null unless there are none. -/
structure Holds (buf : Buffer) (n : Int) : Prop where
  some {bytes} : buf = some bytes → (bytes.length : Int) = n
  none : buf = none → n = 0

variable {buf : Buffer} {cap offset n : Int} {m : Malloc}

theorem zeroed_succeeds (range : InRange n) :
    Succeeds (zeroed m n) (n = 0 ∨ m.gives (toSize n) = true) fun buf => buf.Holds n ∧ 0 ≤ n := by
  rw [zeroed]
  by_cases given : m.gives (toSize n) = true
  · rw [if_pos given]
    have nonneg := nonneg_of_toSize range (m.bound given)
    refine .of_ok (.inr given) ⟨⟨?_, ?_⟩, nonneg⟩
    · rintro bytes ⟨⟩
      rw [List.length_replicate, toSize_of_nonneg range nonneg]
    · rintro ⟨⟩
  · rw [if_neg given]
    by_cases zero : n = 0
    · subst zero
      rw [if_pos (by decide)]
      exact .of_ok (.inl rfl) ⟨⟨by rintro _ ⟨⟩, fun _ => rfl⟩, le_refl 0⟩
    · rw [if_neg fun h => zero ((toSize_eq_zero range).mp h)]
      exact .of_error fun h => h.elim zero given

theorem load_succeeds (holds : buf.Holds cap) (nonneg : 0 ≤ offset) :
    Succeeds (load buf offset n) (toSize n = 0 ∨ offset + toSize n ≤ cap)
      fun data => data.length = toSize n := by
  rw [load.eq_def]
  by_cases zero : toSize n = 0
  · rw [if_pos zero]
    exact .of_ok (.inl zero) zero.symm
  · rw [if_neg zero]
    cases h : buf with
    | none =>
      have := holds.none h
      exact .of_error (by omega)
    | some bytes =>
      have length := holds.some h
      dsimp only
      by_cases fits : offset + toSize n ≤ cap
      · rw [if_pos ⟨nonneg, by omega⟩]
        refine .of_ok (.inr fits) ?_
        rw [List.length_take, List.length_drop]
        omega
      · rw [if_neg (by omega)]
        exact .of_error (by omega)

theorem store_succeeds {data : List UInt8} (holds : buf.Holds cap) (nonneg : 0 ≤ offset) :
    Succeeds (store buf offset data) (data.length = 0 ∨ offset + data.length ≤ cap)
      fun buf => buf.Holds cap := by
  rw [store.eq_def]
  by_cases empty : data = []
  · rw [if_pos empty]
    exact .of_ok (.inl (by rw [empty, List.length_nil])) holds
  · rw [if_neg empty]
    have pos := List.length_pos_iff.mpr empty
    cases h : buf with
    | none =>
      have := holds.none h
      exact .of_error (by omega)
    | some bytes =>
      have length := holds.some h
      dsimp only
      by_cases fits : offset + data.length ≤ cap
      · rw [if_pos ⟨nonneg, by omega⟩]
        refine .of_ok (.inr fits) ⟨?_, ?_⟩
        · rintro stored ⟨⟩
          rw [List.length_append, List.length_append, List.length_take, List.length_drop]
          omega
        · rintro ⟨⟩
      · rw [if_neg (by omega)]
        exact .of_error (by omega)

end Buffer

def Source.isOwn : Source → Bool
  | .own => true
  | .other _ => false

namespace LVBlob

/-- `0 ≤ _ptr ≤ _size ≤ _allocated`, and the buffer has `_allocated` bytes. -/
structure Bounded (b : LVBlob) : Prop where
  ptr_nonneg : 0 ≤ b.ptr
  ptr_le : b.ptr ≤ b.size
  size_le : b.size ≤ b.allocated
  allocated_lt : b.allocated < 2 ^ 63
  buf : b.buf.Holds b.allocated
  owns : b.owns = true

variable {b : LVBlob} {m : Malloc} {n : Int}

theorem new_succeeds (range : InRange n) :
    Succeeds (new m n) (n = 0 ∨ m.gives (toSize n) = true)
      fun b => b.Bounded ∧ b.size = n ∧ b.allocated = n ∧ b.ptr = 0 := by
  refine (Buffer.zeroed_succeeds range).bind_ok fun buf _ ⟨holds, nonneg⟩ => ?_
  exact .of_ok trivial ⟨⟨le_refl 0, nonneg, le_refl n, range.2, holds, rfl⟩, rfl, rfl, rfl⟩

theorem Resize_succeeds (bounded : b.Bounded) (range : InRange n) :
    Succeeds (b.Resize m n) (n = b.allocated ∨ n = 0 ∨ m.gives (toSize n) = true)
      fun r => r.1 = true ∧ r.2.Bounded ∧ r.2.size = min b.size n ∧ r.2.ptr = min b.ptr n ∧
        r.2.allocated = n := by
  obtain ⟨ptr_nonneg, ptr_le, size_le, allocated_lt, buf, owns⟩ := bounded
  rw [Resize, owns, if_neg (by simp)]
  by_cases same : n = b.allocated
  · rw [if_neg fun ne => ne same]
    refine .of_ok (.inl same) ⟨rfl, ⟨ptr_nonneg, ptr_le, size_le, allocated_lt, buf, owns⟩, ?_, ?_, ?_⟩ <;>
    · dsimp only
      omega
  · rw [if_pos same]
    refine Succeeds.congr (P := n = 0 ∨ m.gives (toSize n) = true) ?_ (by simp [same])
    refine (Buffer.zeroed_succeeds range).bind_ok fun newbuf _ ⟨holds, nonneg⟩ => ?_
    have min_eq : (if b.size > n then n else b.size) = min b.size n := by
      split <;> omega
    rw [min_eq]
    have small : InRange (min b.size n) := ⟨by omega, by omega⟩
    have taken := toSize_of_nonneg small (by omega)
    refine ((Buffer.load_succeeds buf (le_refl 0)).always (by omega)).ok_bind fun data length => ?_
    refine ((Buffer.store_succeeds holds (le_refl 0)).always (by omega)).ok_bind fun stored holds => ?_
    refine .of_ok trivial ⟨rfl, ⟨?_, ?_, ?_, range.2, holds, rfl⟩, ?_, ?_, ?_⟩ <;>
    · dsimp only
      try split
      all_goals omega

/-- What is allocated when the size grows to `total`, and that is not allocated yet. -/
def growth (b : LVBlob) (total : Int) : Int :=
  if b.size * 2 < 2 ^ 63 then max total (b.size * 2) else total

theorem growth_enough {total : Int} (lt : total < 2 ^ 63) :
    total ≤ b.growth total ∧ b.growth total < 2 ^ 63 := by
  rw [growth]
  split <;> omega

/-- What is allocated after the blob has room for `total` bytes. -/
def capacity (b : LVBlob) (total : Int) : Int :=
  if total ≤ b.allocated then b.allocated else b.growth total

/-- When there is not enough allocated, the buffer is resized to `growth`. -/
theorem GrowBufOf_eq (bounded : b.Bounded) (pos : 0 < n) (lt : b.size + n < 2 ^ 63) :
    b.GrowBufOf m n =
      (if b.size + n ≤ b.allocated then .ok (true, b) else b.Resize m (b.growth (b.size + n))) >>=
        fun r => .ok (r.1, { r.2 with size := wrap (r.2.size + n) }) := by
  obtain ⟨ptr_nonneg, ptr_le, size_le, allocated_lt, buf, owns⟩ := bounded
  have sum : wrap (b.size + n) = b.size + n := wrap_of_inRange ⟨by omega, lt⟩
  rw [GrowBufOf, sum]
  by_cases fits : b.size + n ≤ b.allocated
  · rw [if_neg (by omega), if_pos fits]
    rfl
  · rw [if_pos (by omega), if_neg fits, growth]
    by_cases double : b.size * 2 < 2 ^ 63
    · rw [if_pos double, wrap_of_inRange ⟨by omega, double⟩]
      by_cases more : b.size + n > b.size * 2
      · rw [if_pos more, max_eq_left (by omega)]
        rfl
      · rw [if_neg more, max_eq_right (by omega)]
        rfl
    · rw [if_neg double, if_pos (by rw [wrap_neg (by omega) (by omega)]; omega)]
      rfl

theorem GrowBufOf_succeeds (bounded : b.Bounded) (pos : 0 < n) (lt : b.size + n < 2 ^ 63) :
    Succeeds (b.GrowBufOf m n)
      (b.size + n ≤ b.allocated ∨ m.gives (toSize (b.growth (b.size + n))) = true)
      fun r => r.2.Bounded ∧ r.2.size = b.size + n ∧ r.2.ptr = b.ptr ∧
        r.2.allocated = b.capacity (b.size + n) := by
  obtain ⟨enough, small⟩ := growth_enough (b := b) lt
  have bounded' := bounded
  obtain ⟨ptr_nonneg, ptr_le, size_le, allocated_lt, buf, owns⟩ := bounded'
  have sum : wrap (b.size + n) = b.size + n := wrap_of_inRange ⟨by omega, lt⟩
  rw [GrowBufOf_eq bounded pos lt, capacity]
  by_cases fits : b.size + n ≤ b.allocated
  · rw [if_pos fits, if_pos fits]
    refine .of_ok (.inl fits) ⟨⟨ptr_nonneg, ?_, ?_, allocated_lt, buf, owns⟩, sum, rfl, rfl⟩
    · dsimp only
      omega
    · dsimp only
      omega
  · rw [if_neg fits, if_neg fits]
    refine ((Resize_succeeds bounded ⟨by omega, small⟩).congr ?_).bind_ok
      fun r _ ⟨_, resized, size, ptr, allocated⟩ => ?_
    · constructor
      · rintro (h | h)
        · omega
        · exact .inr (.inr h)
      · rintro (h | h | h)
        · omega
        · omega
        · exact .inr h
    · have size' : r.2.size = b.size := by omega
      have ptr' : r.2.ptr = b.ptr := by omega
      obtain ⟨-, -, -, -, buf', owns'⟩ := resized
      refine .of_ok trivial ⟨⟨?_, ?_, ?_, ?_, buf', owns'⟩, ?_, ptr', allocated⟩
      · dsimp only
        omega
      · dsimp only
        rw [size', sum]
        omega
      · dsimp only
        rw [size', sum]
        omega
      · dsimp only
        omega
      · dsimp only
        rw [size', sum]

/-- There is room to write `n` bytes: without growing, by growing in what is allocated, or
by getting more, which must not be the memory that the bytes come from. -/
def CanWrite (b : LVBlob) (m : Malloc) (own : Bool) (n : Int) : Prop :=
  b.ptr + n ≤ b.size ∨ b.ptr + n < 2 ^ 63 ∧
    (b.ptr + n ≤ b.allocated ∨ own = false ∧ m.gives (toSize (b.growth (b.ptr + n))) = true)

/-- The source has as many bytes. -/
def Gives (b : LVBlob) (n : Int) : Source → Prop
  | .own => n = b.size
  | .other buf => ∃ cap, buf.Holds cap ∧ n ≤ cap

theorem canAdvance_iff {b : LVBlob} {n : Int} (range : InRange (b.ptr + n)) :
    b.CanAdvance n = true ↔ b.ptr + n ≤ b.size := by
  rw [CanAdvance, wrap_of_inRange range, decide_eq_true_eq]
  omega

theorem canAdvance_of_overflow (bounded : b.Bounded) (low : 2 ^ 63 ≤ b.ptr + n)
    (range : n < 2 ^ 63) : b.CanAdvance n = true := by
  obtain ⟨ptr_nonneg, ptr_le, size_le, allocated_lt, -, -⟩ := bounded
  rw [CanAdvance, wrap_neg low (by omega), decide_eq_true_eq]
  omega

theorem fetch_succeeds {grown : LVBlob} {source : Source} (bounded : grown.Bounded)
    (gives : b.Gives n source) (nonneg : 0 ≤ n) (range : n < 2 ^ 63) (le : b.size ≤ grown.size) :
    Succeeds (b.fetch grown source n)
      (grown.allocated = b.allocated ∨ source.isOwn = false) fun data => (data.length : Int) = n := by
  have taken := toSize_of_nonneg ⟨by omega, range⟩ nonneg
  cases source with
  | other buf =>
    obtain ⟨cap, holds, le⟩ := gives
    exact (Buffer.load_succeeds holds (le_refl 0)).mono
      (by simp only [Source.isOwn, or_true, true_iff]; omega) fun data _ length => by omega
  | own =>
    have size_le := bounded.size_le
    have gives : n = b.size := gives
    rw [fetch.eq_def]
    dsimp only
    by_cases same : grown.allocated = b.allocated
    · rw [if_pos same]
      exact (Buffer.load_succeeds bounded.buf (le_refl 0)).mono (by simp only [same, true_or, true_iff]; omega)
        fun data _ length => by omega
    · rw [if_neg same]
      exact .of_error (by simp [same, Source.isOwn])

/-- What `Write` does once there is room. -/
def copyInto (b grown : LVBlob) (source : Source) (n : Int) : Except Fault (Int × LVBlob) := do
  let data ← b.fetch grown source n
  let buf ← grown.buf.store grown.ptr data
  return (n, { grown with buf := buf, ptr := wrap (grown.ptr + n) })

theorem Write_eq {source : Source} (bounded : b.Bounded) (nonneg : 0 ≤ n)
    (range : b.ptr + n < 2 ^ 63) :
    b.Write m source n =
      (if b.ptr + n ≤ b.size then .ok b else (·.2) <$> b.GrowBufOf m (b.ptr + n - b.size)) >>=
        fun grown => b.copyInto grown source n := by
  obtain ⟨ptr_nonneg, ptr_le, size_le, allocated_lt, -, -⟩ := bounded
  have advance := canAdvance_iff (b := b) (n := n) ⟨by omega, range⟩
  have need : wrap (wrap (b.ptr + n) - b.size) = b.ptr + n - b.size := by
    rw [wrap_of_inRange (n := b.ptr + n) ⟨by omega, range⟩, wrap_of_inRange ⟨by omega, by omega⟩]
  rw [Write, need]
  by_cases fits : b.ptr + n ≤ b.size
  · rw [if_pos (advance.mpr fits), if_pos fits]
    rfl
  · rw [if_neg fun h => fits (advance.mp h), if_neg fits]
    rfl

theorem copyInto_succeeds {grown : LVBlob} {source : Source} (bounded : b.Bounded)
    (gives : b.Gives n source) (nonneg : 0 ≤ n) (grows : grown.Bounded) (ptr : grown.ptr = b.ptr)
    (le : b.size ≤ grown.size) (fits : b.ptr + n ≤ grown.size) :
    Succeeds (b.copyInto grown source n)
      (grown.allocated = b.allocated ∨ source.isOwn = false)
      fun r => r.1 = n ∧ r.2.Bounded ∧ r.2.size = grown.size ∧ r.2.ptr = b.ptr + n ∧
        r.2.allocated = grown.allocated := by
  have ptr_nonneg := bounded.ptr_nonneg
  obtain ⟨-, -, size_le', allocated_lt', buf', owns'⟩ := grows
  refine (fetch_succeeds ⟨by omega, by omega, size_le', allocated_lt', buf', owns'⟩ gives nonneg
    (by omega) le).bind_ok fun data _ length => ?_
  refine ((Buffer.store_succeeds buf' (by omega)).always (by omega)).ok_bind fun stored holds => ?_
  have sum : wrap (grown.ptr + n) = b.ptr + n := by
    rw [ptr, wrap_of_inRange ⟨by omega, by omega⟩]
  refine .of_ok trivial ⟨rfl, ⟨?_, ?_, size_le', allocated_lt', holds, owns'⟩, rfl, sum, rfl⟩
  · dsimp only
    omega
  · dsimp only
    omega

theorem Write_succeeds {source : Source} (bounded : b.Bounded) (gives : b.Gives n source)
    (nonneg : 0 ≤ n) (range : n < 2 ^ 63) :
    Succeeds (b.Write m source n) (b.CanWrite m source.isOwn n)
      fun r => r.1 = n ∧ r.2.Bounded ∧ r.2.size = max b.size (b.ptr + n) ∧
        r.2.ptr = b.ptr + n ∧ r.2.allocated = b.capacity (b.ptr + n) := by
  have bounded' := bounded
  obtain ⟨ptr_nonneg, ptr_le, size_le, allocated_lt, buf, owns⟩ := bounded'
  by_cases small : b.ptr + n < 2 ^ 63
  · rw [Write_eq bounded nonneg small]
    by_cases fits : b.ptr + n ≤ b.size
    · rw [if_pos fits, capacity, if_pos (by omega), max_eq_left fits]
      exact (copyInto_succeeds bounded gives nonneg bounded rfl (le_refl _) fits).congr
        (by simp [CanWrite, fits])
    · rw [if_neg fits, max_eq_right (by omega)]
      have grows := GrowBufOf_succeeds (m := m) bounded (n := b.ptr + n - b.size) (by omega) (by omega)
      have total : b.size + (b.ptr + n - b.size) = b.ptr + n := by omega
      rw [total] at grows
      refine ((grows.map (f := (·.2)) (R := fun grown => grown.Bounded ∧ grown.size = b.ptr + n ∧
        grown.ptr = b.ptr ∧ grown.allocated = b.capacity (b.ptr + n)) fun _ _ h => h).bind
        (S := b.ptr + n ≤ b.allocated ∨ source.isOwn = false)
        fun grown _ ⟨grows, size, ptr, allocated⟩ => ?_).congr ?_
      · have enough := (growth_enough (b := b) small).1
        have copied := copyInto_succeeds bounded gives nonneg grows ptr (by omega) (by omega)
        rw [size, allocated] at copied
        refine copied.congr ?_
        rw [capacity]
        by_cases room : b.ptr + n ≤ b.allocated
        · simp [room]
        · rw [if_neg room]
          constructor
          · rintro (h | other)
            · exact absurd h room
            · exact .inr other
          · rintro (same | other)
            · omega
            · exact .inr other
      · simp only [CanWrite, fits, small, false_or, true_and]
        tauto
  · have advance := canAdvance_of_overflow bounded (by omega) range
    rw [Write, if_pos advance]
    have fetched : Succeeds (b.fetch b source n) _ _ :=
      fetch_succeeds bounded gives nonneg range (le_refl _)
    refine (fetched.bind (S := False)
      fun data _ length => ?_).congr (by simp only [CanWrite, and_false, iff_false]; omega)
    exact (Buffer.store_succeeds buf ptr_nonneg).error_bind (by omega) id

/-- As many bytes as there are. -/
def available (b : LVBlob) (n : Int) : Int := min n (b.size - b.ptr)

theorem Read_succeeds {room : Option Nat} (bounded : b.Bounded) (range : InRange n) :
    Succeeds (b.Read room n)
      (0 ≤ n ∧ b.ptr + n < 2 ^ 63 ∧
        (b.available n = 0 ∨ ∃ r, room = some r ∧ b.available n ≤ r))
      fun r => (r.1.length : Int) = b.available n ∧ r.2.1 = b.available n ∧
        r.2.2 = { b with ptr := b.ptr + b.available n } := by
  obtain ⟨ptr_nonneg, ptr_le, size_le, allocated_lt, buf, -⟩ := bounded
  have left : wrap (b.size - b.ptr) = b.size - b.ptr := wrap_of_inRange ⟨by omega, by omega⟩
  rw [Read, left, available]
  by_cases small : b.ptr + n < 2 ^ 63
  · have advance := canAdvance_iff (b := b) (n := n) ⟨by have := range.1; omega, small⟩
    by_cases atEnd : ¬b.CanAdvance n = true ∧ ¬b.size - b.ptr > 0
    · rw [if_pos atEnd]
      rw [advance] at atEnd
      have none : min n (b.size - b.ptr) = 0 := by omega
      refine .of_ok ⟨by omega, small, .inl none⟩ ⟨by simp [none], none.symm, ?_⟩
      rw [none, Int.add_zero]
    · rw [if_neg atEnd]
      rw [advance] at atEnd
      have count : (if b.CanAdvance n = true then n else b.size - b.ptr) = min n (b.size - b.ptr) := by
        by_cases fits : b.ptr + n ≤ b.size
        · rw [if_pos (advance.mpr fits)]
          omega
        · rw [if_neg fun h => fits (advance.mp h)]
          omega
      rw [count]
      have range' : InRange (min n (b.size - b.ptr)) := ⟨by have := range.1; omega, by omega⟩
      by_cases nonneg : 0 ≤ n
      · have taken := toSize_of_nonneg range' (by omega)
        refine ((Buffer.load_succeeds buf ptr_nonneg).always (by omega)).ok_bind fun data length => ?_
        have sum : wrap (b.ptr + min n (b.size - b.ptr)) = b.ptr + min n (b.size - b.ptr) :=
          wrap_of_inRange ⟨by omega, by omega⟩
        rw [sum]
        by_cases null : data ≠ [] ∧ room = none
        · rw [if_pos null]
          have pos := List.length_pos_iff.mpr null.1
          refine .of_error ?_
          rintro ⟨-, -, none | ⟨r, eq, -⟩⟩
          · omega
          · rw [null.2] at eq
            cases eq
        · rw [if_neg null]
          by_cases fits : data.length ≤ room.getD 0
          · rw [if_pos fits]
            refine .of_ok ⟨nonneg, small, ?_⟩ ⟨by dsimp only; omega, rfl, rfl⟩
            cases room with
            | none =>
              rw [Option.getD_none] at fits
              exact .inl (by omega)
            | some r =>
              rw [Option.getD_some] at fits
              exact .inr ⟨r, rfl, by omega⟩
          · rw [if_neg fits]
            refine .of_error ?_
            rintro ⟨-, -, none | ⟨r, rfl, le⟩⟩
            · omega
            · rw [Option.getD_some] at fits
              omega
      · -- a negative size is passed as one that no buffer has
        have taken := toSize_of_neg range' (by omega)
        have low := range'.1
        exact (Buffer.load_succeeds buf ptr_nonneg).error_bind (by omega) fun h => nonneg h.1
  · have high := range.2
    have advance : b.CanAdvance n = true := by
      rw [CanAdvance, wrap_neg (by omega) (by omega), decide_eq_true_eq]
      omega
    have taken := toSize_of_nonneg range (by omega)
    rw [advance, if_neg (by simp), if_pos rfl]
    exact (Buffer.load_succeeds buf ptr_nonneg).error_bind (by omega) fun h => small h.2.1

end LVBlob

end Lavril
