import Lavril.Blobs
import Lavril.Tape

/-!
# The bytes of a blob

A blob stands for the first `_size` bytes of its buffer, with `_ptr` as their cursor. What
each function makes of them is what it makes of a `Tape`, whatever was allocated.
-/

namespace Lavril

namespace Buffer

def bytes (buf : Buffer) : List UInt8 := buf.getD []

variable {buf : Buffer} {m : Malloc} {offset n cap : Int} {data : List UInt8}

theorem Holds.length_bytes (holds : buf.Holds cap) : (buf.bytes.length : Int) = cap := by
  cases h : buf with
  | none => exact (holds.none h).symm
  | some l => exact holds.some h

theorem zeroed_bytes : Ensures (zeroed m n) fun buf => buf.bytes = List.replicate (toSize n) 0 := by
  rw [zeroed]
  by_cases given : m.gives (toSize n) = true
  · rw [if_pos given]
    exact .of_ok rfl
  · rw [if_neg given]
    by_cases zero : toSize n = 0
    · rw [if_pos zero, zero]
      exact .of_ok rfl
    · rw [if_neg zero]
      exact .of_error

theorem load_bytes :
    Ensures (load buf offset n) fun data =>
      data = (buf.bytes.drop offset.toNat).take (toSize n) := by
  rw [load.eq_def]
  by_cases zero : toSize n = 0
  · rw [if_pos zero, zero, List.take_zero]
    exact .of_ok rfl
  · rw [if_neg zero]
    cases buf with
    | none => exact .of_error
    | some l =>
      dsimp only
      by_cases inside : 0 ≤ offset ∧ offset.toNat + toSize n ≤ l.length
      · rw [if_pos inside]
        exact .of_ok rfl
      · rw [if_neg inside]
        exact .of_error

theorem store_bytes :
    Ensures (store buf offset data) fun stored =>
      stored.bytes = buf.bytes.take offset.toNat ++ data ++
        buf.bytes.drop (offset.toNat + data.length) := by
  rw [store.eq_def]
  by_cases empty : data = []
  · rw [if_pos empty, empty]
    exact .of_ok (by simp)
  · rw [if_neg empty]
    cases buf with
    | none => exact .of_error
    | some l =>
      dsimp only
      by_cases inside : 0 ≤ offset ∧ offset.toNat + data.length ≤ l.length
      · rw [if_pos inside]
        exact .of_ok rfl
      · rw [if_neg inside]
        exact .of_error

end Buffer

/-- The bytes that `Write` is given. -/
def Source.data (b : LVBlob) (n : Int) : Source → List UInt8
  | .other buf => buf.bytes.take n.toNat
  | .own => b.buf.bytes.take n.toNat

namespace LVBlob

/-- What a blob stands for. -/
structure Represents (b : LVBlob) (t : Tape UInt8) : Prop where
  bounded : b.Bounded
  size : b.size = t.contents.length
  ptr : b.ptr = t.cursor
  contents : b.buf.bytes.take t.contents.length = t.contents

variable {b grown : LVBlob} {m : Malloc} {n : Int} {source : Source} {t : Tape UInt8}

theorem Resize_bytes (bounded : b.Bounded) (nonneg : 0 ≤ n) :
    Ensures (b.Resize m n) fun r =>
      r.2.buf.bytes.take (min b.size n).toNat = b.buf.bytes.take (min b.size n).toNat := by
  obtain ⟨ptr_nonneg, ptr_le, size_le, allocated_lt, buf, owns⟩ := bounded
  rw [Resize, owns, if_neg (by simp)]
  by_cases same : n = b.allocated
  · rw [if_neg fun ne => ne same]
    exact .of_ok rfl
  · rw [if_pos same]
    have min_eq : (if b.size > n then n else b.size) = min b.size n := by
      split <;> omega
    rw [min_eq]
    have taken := toSize_of_nonneg (n := min b.size n) ⟨by omega, by omega⟩ (by omega)
    refine Buffer.zeroed_bytes.bind fun newbuf _ => ?_
    refine Buffer.load_bytes.bind fun data loaded => ?_
    refine Buffer.store_bytes.bind fun stored kept => .of_ok ?_
    have length := buf.length_bytes
    have data_eq : data = b.buf.bytes.take (min b.size n).toNat := by
      rw [loaded, Int.toNat_zero, List.drop_zero]
      congr 1
      omega
    have data_length : data.length = (min b.size n).toNat := by
      rw [data_eq, List.length_take]
      omega
    dsimp only
    rw [kept, Int.toNat_zero, List.take_zero, List.nil_append, List.take_left' data_length, data_eq]

/-- What is there before stays when the buffer grows. -/
theorem GrowBufOf_bytes (bounded : b.Bounded) (pos : 0 < n) (lt : b.size + n < 2 ^ 63) :
    Ensures (b.GrowBufOf m n) fun r =>
      r.2.buf.bytes.take b.size.toNat = b.buf.bytes.take b.size.toNat := by
  have enough := (growth_enough (b := b) lt).1
  have size_nonneg : 0 ≤ b.size := le_trans bounded.ptr_nonneg bounded.ptr_le
  rw [GrowBufOf_eq bounded pos lt]
  by_cases fits : b.size + n ≤ b.allocated
  · rw [if_pos fits]
    exact .of_ok rfl
  · rw [if_neg fits]
    have resized := Resize_bytes (m := m) bounded (n := b.growth (b.size + n)) (by omega)
    rw [min_eq_left (by omega)] at resized
    exact resized.bind fun r kept => .of_ok kept

theorem fetch_data (gives : b.Gives n source) (nonneg : 0 ≤ n) (range : n < 2 ^ 63)
    (kept : grown.buf.bytes.take b.size.toNat = b.buf.bytes.take b.size.toNat) :
    Ensures (b.fetch grown source n) fun data => data = source.data b n := by
  have taken := toSize_of_nonneg ⟨by omega, range⟩ nonneg
  have size_eq : toSize n = n.toNat := by omega
  cases source with
  | other buf =>
    refine Buffer.load_bytes.mono fun data loaded => ?_
    rw [loaded, Int.toNat_zero, List.drop_zero, size_eq]
    rfl
  | own =>
    have gives : n = b.size := gives
    rw [fetch.eq_def]
    dsimp only
    split
    · refine Buffer.load_bytes.mono fun data loaded => ?_
      rw [loaded, Int.toNat_zero, List.drop_zero, size_eq, gives, kept]
      rfl
    · exact .of_error

theorem length_data (bounded : b.Bounded) (gives : b.Gives n source) :
    (source.data b n).length = n.toNat := by
  cases source with
  | other buf =>
    obtain ⟨cap, holds, le⟩ := gives
    have length := holds.length_bytes
    simp only [Source.data, List.length_take]
    omega
  | own =>
    have gives : n = b.size := gives
    have length := bounded.buf.length_bytes
    have size_le := bounded.size_le
    simp only [Source.data, List.length_take]
    omega

/-- The bytes of a longer buffer that starts with the contents, after a write. -/
theorem take_overwritten {l data : List UInt8} (same : l.take t.contents.length = t.contents) :
    (l.take t.cursor ++ data ++ l.drop (t.cursor + data.length)).take
        (t.write data).contents.length = (t.write data).contents := by
  have length := congrArg List.length same
  have cursor_le := t.cursor_le
  rw [List.length_take] at length
  have before : l.take t.cursor = t.contents.take t.cursor := by
    rw [← same, List.take_take, min_eq_left cursor_le]
  have front : (t.contents.take t.cursor ++ data).length = t.cursor + data.length := by
    rw [List.length_append, List.length_take, min_eq_left cursor_le]
  have after : (l.drop (t.cursor + data.length)).take
      ((t.write data).contents.length - (t.cursor + data.length)) =
      t.contents.drop (t.cursor + data.length) := by
    rw [← List.drop_take, Tape.length_write]
    rcases le_total t.contents.length (t.cursor + data.length) with past | inside
    · rw [max_eq_right past, List.drop_eq_nil_of_le past, List.drop_eq_nil_of_le (List.length_take_le _ _)]
    · rw [max_eq_left inside, same]
  rw [before, List.take_append, front, after, List.take_of_length_le (by rw [front, Tape.length_write]; omega)]
  rfl

theorem copyInto_bytes (represents : b.Represents t) (gives : b.Gives n source) (nonneg : 0 ≤ n)
    (range : n < 2 ^ 63) (ptr : grown.ptr = b.ptr)
    (kept : grown.buf.bytes.take b.size.toNat = b.buf.bytes.take b.size.toNat) :
    Ensures (b.copyInto grown source n) fun r =>
      r.2.buf.bytes.take (t.write (source.data b n)).contents.length =
        (t.write (source.data b n)).contents := by
  refine (fetch_data gives nonneg range kept).bind fun data eq => ?_
  subst eq
  refine Buffer.store_bytes.bind fun stored bytes => .of_ok ?_
  have cursor : grown.ptr.toNat = t.cursor := by
    rw [ptr, represents.ptr, Int.toNat_natCast]
  have same : grown.buf.bytes.take t.contents.length = t.contents := by
    have length : b.size.toNat = t.contents.length := by rw [represents.size, Int.toNat_natCast]
    rw [length] at kept
    rw [kept, represents.contents]
  dsimp only
  rw [bytes, cursor]
  exact take_overwritten same

theorem Write_represents (represents : b.Represents t) (gives : b.Gives n source) (nonneg : 0 ≤ n)
    (range : n < 2 ^ 63) :
    Succeeds (b.Write m source n) (b.CanWrite m source.isOwn n)
      fun r => r.1 = n ∧ r.2.Represents (t.write (source.data b n)) ∧
        r.2.allocated = b.capacity (b.ptr + n) := by
  have bounded := represents.bounded
  have writes := Write_succeeds (m := m) bounded gives nonneg range
  have length := length_data bounded gives
  have bytes : Ensures (b.Write m source n) fun r =>
      r.2.buf.bytes.take (t.write (source.data b n)).contents.length =
        (t.write (source.data b n)).contents := by
    by_cases small : b.ptr + n < 2 ^ 63
    · rw [Write_eq bounded nonneg small]
      by_cases fits : b.ptr + n ≤ b.size
      · rw [if_pos fits]
        exact copyInto_bytes represents gives nonneg range rfl rfl
      · rw [if_neg fits]
        have grows := GrowBufOf_succeeds (m := m) bounded (n := b.ptr + n - b.size) (by omega) (by omega)
        have keeps := GrowBufOf_bytes (m := m) bounded (n := b.ptr + n - b.size) (by omega) (by omega)
        have both := (Ensures.of_succeeds grows).and keeps
        refine (both.map (f := (·.2)) (R := fun grown => grown.ptr = b.ptr ∧
          grown.buf.bytes.take b.size.toNat = b.buf.bytes.take b.size.toNat)
          fun r ⟨⟨_, _, ptr, _⟩, kept⟩ => ⟨ptr, kept⟩).bind fun grown ⟨ptr, kept⟩ => ?_
        exact copyInto_bytes represents gives nonneg range ptr kept
    · have fails : ¬b.CanWrite m source.isOwn n := by
        have := bounded.size_le
        have := bounded.allocated_lt
        simp only [CanWrite]
        omega
      obtain ⟨e, eq⟩ := writes.error fails
      rw [eq]
      exact .of_error
  refine (bytes.and_succeeds writes).mono Iff.rfl fun r _ post => ?_
  obtain ⟨⟨written, bounded', size, ptr, allocated⟩, contents⟩ := post
  refine ⟨written, ⟨bounded', ?_, ?_, contents⟩, allocated⟩
  · rw [Tape.length_write, size, represents.size, represents.ptr, length]
    omega
  · rw [ptr, represents.ptr, Tape.cursor_write, length]
    omega

theorem Read_data (represents : b.Represents t) {room : Option Nat} (nonneg : 0 ≤ n)
    (range : n < 2 ^ 63) :
    Ensures (b.Read room n) fun r => r.1 = (t.read n.toNat).1 := by
  obtain ⟨ptr_nonneg, ptr_le, size_le, allocated_lt, buf, -⟩ := represents.bounded
  have size := represents.size
  have ptr := represents.ptr
  have reads : Succeeds (b.Read room n) _ _ := Read_succeeds represents.bounded ⟨by omega, range⟩
  by_cases small : b.ptr + n < 2 ^ 63
  · have advance := canAdvance_iff (b := b) (n := n) ⟨by omega, small⟩
    have left : wrap (b.size - b.ptr) = b.size - b.ptr := wrap_of_inRange ⟨by omega, by omega⟩
    rw [Read, left]
    by_cases atEnd : ¬b.CanAdvance n = true ∧ ¬b.size - b.ptr > 0
    · rw [if_pos atEnd]
      rw [advance] at atEnd
      have none : t.available n.toNat = 0 := by
        rw [Tape.available]
        omega
      refine .of_ok ?_
      have nothing : (t.read n.toNat).1.length = 0 := by rw [Tape.length_read, none]
      exact (List.length_eq_zero_iff.mp nothing).symm
    · rw [if_neg atEnd]
      have count : (if b.CanAdvance n = true then n else b.size - b.ptr) =
          (t.available n.toNat : Nat) := by
        rw [Tape.available]
        by_cases fits : b.ptr + n ≤ b.size
        · rw [if_pos (advance.mpr fits)]
          omega
        · rw [if_neg fun h => fits (advance.mp h)]
          omega
      have short : t.available n.toNat ≤ t.contents.length - t.cursor := by
        rw [Tape.available]
        exact min_le_right _ _
      have taken := toSize_of_nonneg (n := (t.available n.toNat : Int)) ⟨by omega, by omega⟩ (by omega)
      rw [count]
      refine Buffer.load_bytes.bind fun data loaded => ?_
      have data_eq : data = (t.read n.toNat).1 := by
        have inside : (t.contents.drop t.cursor).take (t.available n.toNat) =
            (b.buf.bytes.drop t.cursor).take (t.available n.toNat) := by
          conv_lhs => rw [← represents.contents, List.drop_take, List.take_take, min_eq_left short]
        rw [loaded, ptr, Int.toNat_natCast, Tape.read, inside]
        congr 1
        omega
      split
      · exact .of_error
      · split
        · exact .of_ok data_eq
        · exact .of_error
  · obtain ⟨e, eq⟩ := reads.error fun holds => small holds.2.1
    rw [eq]
    exact .of_error

theorem Read_represents (represents : b.Represents t) (size : Nat) (range : size < 2 ^ 63) :
    Succeeds (b.Read (some size) size) (b.ptr + size < 2 ^ 63) fun r =>
      r.1 = (t.read size).1 ∧ r.2.1 = (t.read size).1.length ∧ r.2.2.Represents (t.read size).2 := by
  have bounded := represents.bounded
  have reads : Succeeds (b.Read (some size) size) _ _ := Read_succeeds bounded ⟨by omega, by omega⟩
  have data : Ensures (b.Read (some size) size) _ := Read_data represents (by omega) (by omega)
  rw [Int.toNat_natCast] at data
  refine (data.and_succeeds reads).mono ?_ fun r _ ⟨⟨_, count, moved⟩, same⟩ => ?_
  · have le : b.available size ≤ size := by
      rw [LVBlob.available]
      exact min_le_left _ _
    constructor
    · exact fun small => ⟨by omega, small, .inr ⟨size, rfl, le⟩⟩
    · exact fun h => h.2.1
  · have available : b.available size = t.available size := by
      have := represents.size
      have := represents.ptr
      have := t.cursor_le
      rw [LVBlob.available, Tape.available]
      omega
    refine ⟨same, by rw [count, Tape.length_read, available], ?_⟩
    obtain ⟨ptr_nonneg, ptr_le, size_le, allocated_lt, buf, owns⟩ := bounded
    have cursor_le := (t.read size).2.cursor_le
    have size_eq := represents.size
    have ptr_eq := represents.ptr
    have ptr_eq' : b.ptr + b.available size = (t.read size).2.cursor := by
      rw [available, ptr_eq]
      rfl
    have contents : (t.read size).2.contents = t.contents := rfl
    rw [contents] at cursor_le
    rw [moved]
    refine ⟨⟨?_, ?_, size_le, allocated_lt, buf, owns⟩, size_eq, ptr_eq', represents.contents⟩
    · dsimp only
      omega
    · dsimp only
      omega

theorem new_represents {n : Nat} (range : n < 2 ^ 63) :
    Succeeds (new m n) (n = 0 ∨ m.gives (toSize n) = true)
      fun b => b.Represents ⟨List.replicate n 0, 0, Nat.zero_le _⟩ := by
  have bytes : Ensures (new m n) fun b => b.buf.bytes = List.replicate n 0 := by
    have taken := toSize_of_nonneg (n := (n : Int)) ⟨by omega, by omega⟩ (by omega)
    refine Buffer.zeroed_bytes.bind fun buf bytes => .of_ok ?_
    dsimp only
    rw [bytes]
    congr 1
    omega
  refine (bytes.and_succeeds (new_succeeds (m := m) ⟨by omega, by omega⟩)).mono (by simp)
    fun b _ ⟨⟨bounded, size, _, ptr⟩, contents⟩ => ⟨bounded, ?_, ptr, ?_⟩
  · rw [size, List.length_replicate]
  · rw [contents]
    exact List.take_length

theorem Resize_represents (represents : b.Represents t) {n : Nat} (range : n < 2 ^ 63) :
    Succeeds (b.Resize m n) ((n : Int) = b.allocated ∨ n = 0 ∨ m.gives (toSize n) = true)
      fun r => r.1 = true ∧ r.2.Represents (t.resize n) := by
  have bounded := represents.bounded
  have length : (t.resize n).contents.length = min n t.contents.length := List.length_take
  have resizes := Resize_succeeds (m := m) bounded (n := n) ⟨by omega, by omega⟩
  have keeps := Resize_bytes (m := m) bounded (n := n) (by omega)
  refine (keeps.and_succeeds resizes).mono (by norm_cast) fun r _ ⟨⟨ok, bounded', size, ptr, _⟩, kept⟩ =>
    ⟨ok, bounded', ?_, ?_, ?_⟩
  · rw [size, represents.size, length]
    omega
  · rw [ptr, represents.ptr]
    exact (Nat.cast_min _ _).symm
  · have count : (min b.size n).toNat = min n t.contents.length := by
      rw [represents.size]
      omega
    rw [count] at kept
    rw [length, kept, ← List.take_take, represents.contents]
    rfl

end LVBlob

/-! ## Calls -/

/-- The position that `seek` is asked for. -/
def Origin.position {α : Type} (t : Tape α) (offset : Int) : Origin → Int
  | .LV_SEEK_SET => offset
  | .LV_SEEK_CUR => t.cursor + offset
  | .LV_SEEK_END => t.contents.length + offset

/-- A size that is not negative. -/
abbrev Size := { n : Nat // n < 2 ^ 63 }

/-- A call; `Write` takes the first `size` bytes of its buffer, and `Read` has room for as
many as it is asked for. -/
inductive Request where
  | Write (buffer : List UInt8) (size : Size) (le : size.val ≤ buffer.length)
  | Read (size : Size)
  | Seek (offset : BitVec 64) (origin : Origin)
  | Resize (n : Size)

/-- What a call returns, with the bytes that `Read` stores. -/
inductive Answer where
  | count (n : Int)
  | read (data : List UInt8) (n : Int)
  | resized (done : Bool)

namespace LVBlob

def call (b : LVBlob) (m : Malloc) : Request → Except Fault (Answer × LVBlob)
  | .Write buffer size _ => do
    let (n, b) ← b.Write m (.other (some buffer)) size.val
    return (.count n, b)
  | .Read size => do
    let (data, n, b) ← b.Read (some size.val) size.val
    return (.read data n, b)
  | .Seek offset origin => .ok (.count (b.Seek offset.toInt origin).1, (b.Seek offset.toInt origin).2)
  | .Resize n => do
    let (done, b) ← b.Resize m n.val
    return (.resized done, b)

end LVBlob

/-- What a call is to do to a sequence of bytes. -/
def Request.answer (t : Tape UInt8) : Request → Answer × Tape UInt8
  | .Write buffer size _ => (.count size.val, t.write (buffer.take size.val))
  | .Read size => (.read (t.read size.val).1 (t.read size.val).1.length, (t.read size.val).2)
  | .Seek offset origin =>
    match t.seek (origin.position t offset.toInt) with
    | some moved => (.count 0, moved)
    | none => (.count (-1), t)
  | .Resize n => (.resized true, t.resize n.val)

namespace LVBlob

/-- The call keeps to its buffers, and does what it does to the sequence. -/
def Agrees (b : LVBlob) (t : Tape UInt8) (m : Malloc) (request : Request) : Prop :=
  ∃ b', b.call m request = .ok ((request.answer t).1, b') ∧ b'.Represents (request.answer t).2

/-- There is memory for what the call allocates, and the sum of the cursor and the size of
a read has 64 bits. -/
def Granted (b : LVBlob) (m : Malloc) : Request → Prop
  | .Write _ size _ => b.CanWrite m false size.val
  | .Read size => b.ptr + size.val < 2 ^ 63
  | .Seek .. => True
  | .Resize n => (n.val : Int) = b.allocated ∨ n.val = 0 ∨ m.gives (toSize n.val) = true

variable {b : LVBlob} {m : Malloc} {t : Tape UInt8}

theorem Seek_represents (represents : b.Represents t) {offset : Int} (range : InRange offset)
    (origin : Origin) :
    match t.seek (origin.position t offset) with
    | some moved => (b.Seek offset origin).1 = 0 ∧ (b.Seek offset origin).2.Represents moved
    | none => b.Seek offset origin = (-1, b) := by
  have bounded := represents.bounded
  have same : b.position offset origin = origin.position t offset := by
    cases origin with
    | LV_SEEK_SET => rfl
    | LV_SEEK_CUR => exact congrArg (· + offset) represents.ptr
    | LV_SEEK_END => exact congrArg (· + offset) represents.size
  have size := represents.size
  rw [Seek_eq bounded range, same, Tape.seek]
  by_cases inside : 0 ≤ origin.position t offset ∧ origin.position t offset ≤ t.contents.length
  · rw [if_pos (by rwa [size]), dif_pos inside]
    obtain ⟨-, -, size_le, allocated_lt, buf, owns⟩ := bounded
    refine ⟨rfl, ⟨inside.1, ?_, size_le, allocated_lt, buf, owns⟩, size, ?_, represents.contents⟩
    · dsimp only
      omega
    · dsimp only
      omega
  · rw [if_neg (by rwa [size]), dif_neg inside]

theorem call_succeeds (represents : b.Represents t) (request : Request) :
    Succeeds (b.call m request) (b.Granted m request)
      fun r => r.1 = (request.answer t).1 ∧ r.2.Represents (request.answer t).2 := by
  cases request with
  | Write buffer size le =>
    have gives : b.Gives size.val (.other (some buffer)) :=
      ⟨buffer.length, ⟨fun eq => by cases eq; rfl, fun eq => by cases eq⟩, by omega⟩
    have writes := Write_represents (m := m) represents gives (by omega)
      (by have := size.property; omega)
    refine writes.bind_ok fun r _ ⟨count, represents', _⟩ => .of_ok trivial ⟨?_, represents'⟩
    rw [count]
    rfl
  | Read size =>
    refine (Read_represents represents size.val size.property).bind_ok fun r _ ⟨data, count, represents'⟩ =>
      .of_ok trivial ⟨?_, represents'⟩
    rw [data, count]
    rfl
  | Seek offset origin =>
    have moves := Seek_represents represents (toInt_inRange offset) origin
    rw [Request.answer.eq_def]
    dsimp only
    refine .of_ok trivial ?_
    cases seek : t.seek (origin.position t offset.toInt) with
    | some moved =>
      rw [seek] at moves
      exact ⟨congrArg Answer.count moves.1, moves.2⟩
    | none =>
      rw [seek] at moves
      dsimp only at moves
      rw [moves]
      exact ⟨rfl, represents⟩
  | Resize n =>
    refine (Resize_represents represents n.property).bind_ok fun r _ ⟨done, represents'⟩ =>
      .of_ok trivial ⟨?_, represents'⟩
    rw [done]
    rfl

theorem requestAgrees_iff (represents : b.Represents t) (request : Request) :
    b.Agrees t m request ↔ b.Granted m request := by
  have succeeds := call_succeeds (m := m) represents request
  constructor
  · rintro ⟨b', run, -⟩
    by_contra fails
    obtain ⟨e, eq⟩ := succeeds.error fails
    rw [run] at eq
    cases eq
  · intro granted
    obtain ⟨⟨answer, b'⟩, run, rfl, represents'⟩ := succeeds.ok granted
    exact ⟨b', run, represents'⟩

/-- What runs of calls reach from a new blob, with the sequence that the same calls make. -/
inductive Run (allowed : LVBlob → Malloc → Request → Prop) : LVBlob → Tape UInt8 → Prop
  | new {b : LVBlob} {m : Malloc} {n : Size} (made : LVBlob.new m n.val = .ok b) :
    Run allowed b ⟨List.replicate n.val 0, 0, Nat.zero_le _⟩
  | call {b b' : LVBlob} {t : Tape UInt8} {m : Malloc} {request : Request} {answer : Answer}
    (run : Run allowed b t) (allows : allowed b m request)
    (calls : b.call m request = .ok (answer, b')) : Run allowed b' (request.answer t).2

theorem Run.represents (run : Run Granted b t) : b.Represents t := by
  induction run with
  | new made =>
    rename_i n
    exact Ensures.of_succeeds (new_represents n.property) _ made
  | call _ granted calls represents =>
    exact (Ensures.of_succeeds (call_succeeds represents _) _ calls).2

/-- In a run of calls that are granted the blob is the sequence that the calls make, and the
next call agrees with that sequence exactly if it is granted. -/
theorem blob_refines (run : Run Granted b t) :
    b.Represents t ∧ ∀ m request, (b.Agrees t m request ↔ b.Granted m request) :=
  ⟨run.represents, fun _ => requestAgrees_iff run.represents⟩

/-- `blob(4)`, and then `seek(1)`. -/
def seeked : LVBlob := ⟨4, 4, 1, some [0, 0, 0, 0], true⟩

theorem run_seeked {allowed : LVBlob → Malloc → Request → Prop}
    (allows : allowed ⟨4, 4, 0, some [0, 0, 0, 0], true⟩ Blobs.megabyte (.Seek 1 .LV_SEEK_SET)) :
    Run allowed seeked ⟨[0, 0, 0, 0], 1, by decide⟩ :=
  have made : new Blobs.megabyte ((4 : Nat) : Int) = .ok ⟨4, 4, 0, some [0, 0, 0, 0], true⟩ := rfl
  have calls : call ⟨4, 4, 0, some [0, 0, 0, 0], true⟩ Blobs.megabyte (.Seek 1 .LV_SEEK_SET) =
      .ok (.count 0, seeked) := rfl
  .call (.new (n := ⟨4, by decide⟩) made) allows calls

theorem blob_refines_seeked : seeked.Represents ⟨[0, 0, 0, 0], 1, by decide⟩ ∧ ∀ m request,
    (seeked.Agrees ⟨[0, 0, 0, 0], 1, by decide⟩ m request ↔ seeked.Granted m request) :=
  blob_refines (run_seeked trivial)

/-- A read of as many bytes as a number can say, behind the first byte. -/
theorem read_overflows :
    ¬∀ b t, Run (fun _ _ _ => True) b t → ∀ m request, b.Agrees t m request := by
  intro agrees
  obtain ⟨b', run, -⟩ :=
    agrees seeked _ (run_seeked trivial) Blobs.megabyte (.Read ⟨2 ^ 63 - 1, by decide⟩)
  have faults : seeked.call Blobs.megabyte (.Read ⟨2 ^ 63 - 1, by decide⟩) = .error .outside := rfl
  rw [faults] at run
  cases run

end LVBlob

end Lavril
