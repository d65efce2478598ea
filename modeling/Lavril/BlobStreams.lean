import Lavril.BlobContents

/-!
# Streams of bytes and numbers

`writeblob` copies a blob into another or into itself; `writen` and `readn` write and read
numbers in the formats of integers.
-/

namespace Lavril

namespace LVBlob

/-- The bytes of a blob. -/
def contents (b : LVBlob) : List UInt8 := b.buf.bytes.take b.size.toNat

variable {b : LVBlob}

theorem length_contents (bounded : b.Bounded) : (b.contents.length : Int) = b.size := by
  have length := bounded.buf.length_bytes
  have size_le := bounded.size_le
  have nonneg := le_trans bounded.ptr_nonneg bounded.ptr_le
  rw [contents, List.length_take]
  omega

def tape (b : LVBlob) (bounded : b.Bounded) : Tape UInt8 where
  contents := b.contents
  cursor := b.ptr.toNat
  cursor_le := by
    have := length_contents bounded
    have := bounded.ptr_nonneg
    have := bounded.ptr_le
    omega

theorem represents_tape (bounded : b.Bounded) : b.Represents (b.tape bounded) := by
  have length := length_contents bounded
  have nonneg := bounded.ptr_nonneg
  refine ⟨bounded, length.symm, (Int.toNat_of_nonneg nonneg).symm, ?_⟩
  have count : b.contents.length = b.size.toNat := by omega
  show b.buf.bytes.take b.contents.length = b.contents
  rw [count]
  rfl

theorem Represents.contents_eq {t : Tape UInt8} (represents : b.Represents t) :
    b.contents = t.contents := by
  rw [LVBlob.contents, represents.size, Int.toNat_natCast]
  exact represents.contents

/-- The memory that is copied lies over part of the memory that it is copied from. -/
def Overlaps (b : LVBlob) (own : Bool) (n : Int) : Prop := own = true ∧ 0 < b.ptr ∧ b.ptr < n

end LVBlob

namespace Blobs

variable {s : Blobs} {m : Malloc} {i j : Nat} {a b : LVBlob}

/-- What `writeblob` is to do: the bytes that `b` had are written at the cursor of `a`, and
their number is the result. -/
def Copies (s : Blobs) (m : Malloc) (i j : Nat) (a b : LVBlob) : Prop :=
  ∃ a', s.step m (.writeblob i j) = .ok (.integer (BitVec.ofInt 64 b.size), s.put i a') ∧
    (∀ bounded : a.Bounded, a'.Represents ((a.tape bounded).write b.contents)) ∧
    ¬a.Overlaps (i = j) b.size

/-- `writeblob` copies the blob exactly if the destination has a buffer and there is room
without getting other memory in the place of the bytes that are copied, which the
destination must not lie over. -/
theorem writeblob_copies_iff (sound : s.Sound) (dest : s.blobs[i]? = some a)
    (from_ : s.blobs[j]? = some b) :
    s.Copies m i j a b ↔
      a.IsValid = true ∧ a.CanWrite m (i = j) b.size ∧ ¬a.Overlaps (i = j) b.size := by
  have bounded := sound.of_get dest
  have represents := LVBlob.represents_tape bounded
  obtain ⟨ptr_nonneg, ptr_le, size_le, allocated_lt, buf, -⟩ := sound.of_get from_
  have gives : a.Gives b.size (if i = j then .own else .other b.buf) := by
    split
    · rename_i same
      rw [same, from_] at dest
      cases dest
      rfl
    · exact ⟨b.allocated, buf, size_le⟩
  have own : (if i = j then Source.own else .other b.buf).isOwn = decide (i = j) := by
    split <;> simp [Source.isOwn, *]
  have data : (if i = j then Source.own else .other b.buf).data a b.size = b.contents := by
    split
    · rename_i same
      rw [same, from_] at dest
      cases dest
      rfl
    · rfl
  have writes := LVBlob.Write_represents (m := m) represents gives (by omega) (by omega)
  rw [own, data] at writes
  have step : s.step m (.writeblob i j) = if a.IsValid then (do
      let r ← a.Write m (if i = j then .own else .other b.buf) b.size
      if r.1 ≠ b.size then (s.put i r.2).raise "io error"
      else return (.integer (BitVec.ofInt 64 b.size), s.put i r.2))
      else s.raise "the stream is invalid" := by
    simp only [Blobs.step, _stream_writeblob, setupStream, setup, dest, from_]
  constructor
  · rintro ⟨a', run, -, apart⟩
    rw [step] at run
    by_cases valid : a.IsValid = true
    · refine ⟨valid, ?_, apart⟩
      by_contra fails
      obtain ⟨e, eq⟩ := writes.error fails
      rw [if_pos valid, eq] at run
      cases run
    · rw [if_neg valid] at run
      cases run
  · rintro ⟨valid, canWrite, apart⟩
    obtain ⟨⟨written, a'⟩, eq, rfl, represents', -⟩ := writes.ok canWrite
    refine ⟨a', ?_, fun _ => represents', apart⟩
    rw [step, if_pos valid, eq]
    exact if_neg fun ne => ne rfl

/-- `blob(4)` with its cursor at the end, and `blob(2)`. -/
def twoBlobs : Blobs :=
  ⟨[⟨4, 4, 4, some [1, 2, 3, 4], true⟩, ⟨2, 2, 0, some [5, 6], true⟩], none, 0⟩

theorem twoBlobs_sound : twoBlobs.Sound where
  bounded b mem := by
    simp only [twoBlobs, List.mem_cons, List.not_mem_nil, or_false] at mem
    rcases mem with rfl | rfl
    all_goals
      refine ⟨by decide, by decide, by decide, by decide, ⟨?_, ?_⟩, rfl⟩
      · rintro bytes ⟨⟩
        rfl
      · rintro ⟨⟩
  range := ⟨by decide, by decide⟩
  pad := by
    rintro n ⟨⟩

theorem writeblob_copies_two :
    twoBlobs.Copies megabyte 0 1 ⟨4, 4, 4, some [1, 2, 3, 4], true⟩ ⟨2, 2, 0, some [5, 6], true⟩ :=
  (writeblob_copies_iff twoBlobs_sound rfl rfl).mpr
    ⟨rfl, .inr ⟨by decide, .inr ⟨rfl, by decide⟩⟩, fun h => by cases h.1⟩

/-- A blob that is written behind its own end is copied from memory that is freed. -/
theorem writeblob_released :
    ¬∀ (s : Blobs) (m : Malloc) (i j : Nat) (a b : LVBlob), s.Sound → s.blobs[i]? = some a →
      s.blobs[j]? = some b → s.Copies m i j a b := by
  intro copies
  obtain ⟨a', run, -⟩ := copies twoBlobs megabyte 0 0 _ _ twoBlobs_sound rfl rfl
  have faults : twoBlobs.step megabyte (.writeblob 0 0) = .error .released := rfl
  rw [faults] at run
  cases run

/-! ## Numbers -/

/-- The formats of integers. -/
inductive Format where
  | l | i | s | w | c | b

namespace Format

def code : Format → BitVec 64
  | .l => 108
  | .i => 105
  | .s => 115
  | .w => 119
  | .c => 99
  | .b => 98

def length : Format → Nat
  | .l => 8
  | .i => 4
  | .s | .w => 2
  | .c | .b => 1

/-- A value in the width of the format, with a sign or without. -/
def reduce (n : BitVec 64) : Format → BitVec 64
  | .l => n
  | .i => (n.setWidth 32).signExtend 64
  | .s => (n.setWidth 16).signExtend 64
  | .w => (n.setWidth 16).setWidth 64
  | .c => (n.setWidth 8).signExtend 64
  | .b => (n.setWidth 8).setWidth 64

theorem formatSize_code (f : Format) : formatSize f.code = some f.length := by
  cases f <;> rfl

theorem length_pos (f : Format) : 0 < f.length ∧ f.length ≤ 8 := by
  cases f <;> decide

theorem length_encode (f : Format) (n : Number) : (encode f.code n).length = f.length :=
  Blobs.length_encode f.formatSize_code

theorem decode_encode (f : Format) (n : Number) :
    decode f.code (encode f.code n) = .integer (f.reduce n.integer) := by
  cases f with
  | l => exact congrArg Reply.integer (Bytes.toBits_ofBits 8 rfl n.integer)
  | i =>
    have bits := Bytes.toBits_ofBits 4 rfl (n.integer.setWidth 32)
    exact congrArg (fun x : BitVec 32 => Reply.integer (x.signExtend 64)) bits
  | s =>
    have bits := Bytes.toBits_ofBits 2 rfl (n.integer.setWidth 16)
    exact congrArg (fun x : BitVec 16 => Reply.integer (x.signExtend 64)) bits
  | w =>
    have bits := Bytes.toBits_ofBits 2 rfl (n.integer.setWidth 16)
    exact congrArg (fun x : BitVec 16 => Reply.integer (x.setWidth 64)) bits
  | c =>
    have bits := Bytes.toBits_ofBits 1 rfl (n.integer.setWidth 8)
    exact congrArg (fun x : BitVec 8 => Reply.integer (x.signExtend 64)) bits
  | b =>
    have bits := Bytes.toBits_ofBits 1 rfl (n.integer.setWidth 8)
    exact congrArg (fun x : BitVec 8 => Reply.integer (x.setWidth 64)) bits

end Format

/-- A number that is written, with the memory that there is then. -/
structure Entry where
  format : Format
  value : Number
  memory : Malloc

namespace Entry

def bytes (e : Entry) : List UInt8 := encode e.format.code e.value

def write (i : Nat) (e : Entry) : Malloc × Operation := (e.memory, .writen i e.value e.format.code)

def read (i : Nat) (e : Entry) : Malloc × Operation := (e.memory, .readn i e.format.code)

def result (e : Entry) : Reply := .integer (e.format.reduce e.value.integer)

end Entry

/-- Calls one after the other, with what they push. -/
def perform (s : Blobs) : List (Malloc × Operation) → Except Fault (List Reply × Blobs)
  | [] => .ok ([], s)
  | (m, op) :: rest => do
    let (reply, s) ← s.step m op
    let (replies, s) ← s.perform rest
    return (reply :: replies, s)

/-- All is written, and after a `seek` back to where that started it is read. -/
def roundTrip (i : Nat) (start : BitVec 64) (m : Malloc) (entries : List Entry) :
    List (Malloc × Operation) :=
  entries.map (Entry.write i) ++ (m, .seek i start (some 98)) :: entries.map (Entry.read i)

def total (entries : List Entry) : Nat := (entries.flatMap Entry.bytes).length

/-- What is written is read again, and other bytes are as they were. -/
def RoundTrips (s : Blobs) (m : Malloc) (i : Nat) (b : LVBlob) (entries : List Entry) : Prop :=
  ∃ b', s.perform (roundTrip i (BitVec.ofInt 64 b.ptr) m entries) =
      .ok (entries.map (fun _ => .nothing) ++ .integer 0 :: entries.map Entry.result, s.put i b') ∧
    b'.contents.take b.ptr.toNat = b.contents.take b.ptr.toNat ∧
    b'.contents.drop (b.ptr.toNat + total entries) = b.contents.drop (b.ptr.toNat + total entries)

end Blobs

/-- The numbers of a blob that `n` bytes are written to. -/
def LVBlob.afterWrite (b : LVBlob) (n : Int) : LVBlob :=
  { b with size := max b.size (b.ptr + n), allocated := b.capacity (b.ptr + n), ptr := b.ptr + n }

/-- There is memory for each number when it is written. -/
def LVBlob.HasRoom (b : LVBlob) : List Blobs.Entry → Prop
  | [] => True
  | e :: rest => b.CanWrite e.memory false e.format.length ∧ (b.afterWrite e.format.length).HasRoom rest

namespace LVBlob

theorem HasRoom.congr {b b' : LVBlob} {entries : List Blobs.Entry} (size : b.size = b'.size)
    (allocated : b.allocated = b'.allocated) (ptr : b.ptr = b'.ptr) :
    b.HasRoom entries ↔ b'.HasRoom entries := by
  induction entries generalizing b b' with
  | nil => exact Iff.rfl
  | cons e rest ih =>
    have growth (n : Int) : b.growth n = b'.growth n := by rw [LVBlob.growth, LVBlob.growth, size]
    have capacity (n : Int) : b.capacity n = b'.capacity n := by
      rw [LVBlob.capacity, LVBlob.capacity, allocated, growth]
    refine and_congr ?_ (ih ?_ ?_ ?_)
    · simp only [CanWrite, size, allocated, ptr, growth]
    · simp only [afterWrite, size, ptr]
    · simp only [afterWrite, capacity, ptr]
    · simp only [afterWrite, ptr]

theorem isValid_of_pos {b : LVBlob} (bounded : b.Bounded) (pos : 0 < b.size) : b.IsValid = true := by
  rw [IsValid]
  cases h : b.buf with
  | none =>
    have none := bounded.buf.none h
    have size_le := bounded.size_le
    omega
  | some bytes => rfl

end LVBlob

namespace Blobs

variable {s : Blobs} {m : Malloc} {i : Nat} {b b' : LVBlob} {t : Tape UInt8}

theorem put_put : (s.put i b).put i b' = s.put i b' := by
  simp [put, List.set_set]

theorem get_put (get : s.blobs[i]? = some b) : (s.put i b').blobs[i]? = some b' := by
  have lt := (List.getElem?_eq_some_iff.mp get).1
  simp [put, List.getElem?_set_self lt]

theorem setupStream_eq {f : LVBlob → Result} (get : s.blobs[i]? = some b)
    (valid : b.IsValid = true) : s.setupStream i f = f b := by
  rw [setupStream, setup, get]
  exact if_pos valid

theorem writen_represents (get : s.blobs[i]? = some b) (valid : b.IsValid = true)
    (represents : b.Represents t) (e : Entry) :
    Succeeds (s.step e.memory (.writen i e.value e.format.code))
      (b.CanWrite e.memory false e.format.length)
      fun r => ∃ b', r = (.nothing, s.put i b') ∧ b'.Represents (t.write e.bytes) ∧
        b'.IsValid = true ∧ b'.allocated = b.capacity (b.ptr + e.format.length) := by
  have length : e.bytes.length = e.format.length := e.format.length_encode e.value
  have pos := e.format.length_pos
  have gives : b.Gives e.format.length (.other (some e.bytes)) :=
    ⟨e.bytes.length, ⟨fun eq => by cases eq; rfl, fun eq => by cases eq⟩, by omega⟩
  have writes := LVBlob.Write_represents (m := e.memory) represents gives (by omega) (by omega)
  have data : Source.data b e.format.length (.other (some e.bytes)) = e.bytes := by
    show e.bytes.take (e.format.length : Int).toNat = e.bytes
    rw [Int.toNat_natCast, ← length, List.take_length]
  rw [data] at writes
  rw [step, _stream_writen, setupStream_eq get valid, e.format.formatSize_code]
  refine writes.bind_ok fun r _ written => ?_
  obtain ⟨-, represents', allocated⟩ := written
  refine .of_ok trivial ⟨r.2, rfl, represents', ?_, allocated⟩
  have size := represents'.size
  rw [Tape.length_write, length] at size
  exact LVBlob.isValid_of_pos represents'.bounded (by omega)

theorem perform_cons {op : Operation} {rest : List (Malloc × Operation)} :
    s.perform ((m, op) :: rest) = (do
      let (reply, s) ← s.step m op
      let (replies, s) ← s.perform rest
      return (reply :: replies, s)) := rfl

theorem perform_append {s : Blobs} {first rest : List (Malloc × Operation)} :
    s.perform (first ++ rest) = (do
      let (replies, s) ← s.perform first
      let (replies', s) ← s.perform rest
      return (replies ++ replies', s)) := by
  induction first generalizing s with
  | nil =>
    show s.perform rest = s.perform rest >>= fun r => .ok ([] ++ r.1, r.2)
    cases s.perform rest <;> rfl
  | cons call first ih =>
    obtain ⟨m, op⟩ := call
    simp [perform_cons, ih]

theorem perform_cons_ok {op : Operation} {rest : List (Malloc × Operation)} {reply : Reply}
    {replies : List Reply} {s' s'' : Blobs} (first : s.step m op = .ok (reply, s'))
    (then_ : s'.perform rest = .ok (replies, s'')) :
    s.perform ((m, op) :: rest) = .ok (reply :: replies, s'') := by
  rw [perform_cons, first]
  show (s'.perform rest >>= fun r => Except.ok (reply :: r.1, r.2)) = _
  rw [then_]
  rfl

theorem perform_append_ok {first rest : List (Malloc × Operation)} {replies replies' : List Reply}
    {s' s'' : Blobs} (run : s.perform first = .ok (replies, s'))
    (then_ : s'.perform rest = .ok (replies', s'')) :
    s.perform (first ++ rest) = .ok (replies ++ replies', s'') := by
  rw [perform_append, run]
  show (s'.perform rest >>= fun r => Except.ok (replies ++ r.1, r.2)) = _
  rw [then_]
  rfl

/-- The first reply of a run is that of its first call. -/
theorem reply_of_perform {op : Operation} {rest : List (Malloc × Operation)} {reply reply' : Reply}
    {replies : List Reply} {s' s'' : Blobs} (first : s.step m op = .ok (reply, s'))
    (run : s.perform ((m, op) :: rest) = .ok (reply' :: replies, s'')) : reply' = reply := by
  rw [perform_cons, first] at run
  change (s'.perform rest >>= fun r => Except.ok (reply :: r.1, r.2)) = _ at run
  cases tail : s'.perform rest with
  | error e =>
    rw [tail] at run
    cases run
  | ok r =>
    rw [tail] at run
    cases run
    rfl

/-- The numbers are written one after the other from the cursor on. -/
theorem writes_represents {entries : List Entry} (get : s.blobs[i]? = some b)
    (valid : b.IsValid = true) (represents : b.Represents t) :
    Succeeds (s.perform (entries.map (Entry.write i))) (b.HasRoom entries)
      fun r => r.1 = entries.map (fun _ => .nothing) ∧ ∃ b', r.2 = s.put i b' ∧
        b'.Represents (t.write (entries.flatMap Entry.bytes)) ∧ b'.IsValid = true := by
  induction entries generalizing s b t with
  | nil =>
    refine .of_ok trivial ⟨rfl, b, ?_, ?_, valid⟩
    · obtain ⟨lt, eq⟩ := List.getElem?_eq_some_iff.mp get
      rw [put, ← eq, List.set_getElem_self lt]
    · rw [List.flatMap_nil, Tape.write_nil]
      exact represents
  | cons e rest ih =>
    rw [List.map_cons, Entry.write, perform_cons]
    refine (writen_represents get valid represents e).bind fun r _ written => ?_
    obtain ⟨b', rfl, represents', valid', allocated⟩ := written
    have length : e.bytes.length = e.format.length := e.format.length_encode e.value
    have same : (b.afterWrite e.format.length).HasRoom rest ↔ b'.HasRoom rest := by
      refine LVBlob.HasRoom.congr ?_ allocated.symm ?_
      · rw [represents'.size, Tape.length_write, length]
        show max b.size (b.ptr + e.format.length) = _
        rw [represents.size, represents.ptr]
        omega
      · rw [represents'.ptr, Tape.cursor_write, length]
        show b.ptr + e.format.length = _
        rw [represents.ptr]
        omega
    refine ((ih (get_put get) valid' represents').bind_ok fun r _ written => ?_).congr same
    obtain ⟨replies, b'', eq, represents'', valid''⟩ := written
    refine .of_ok trivial ⟨?_, b'', ?_, ?_, valid''⟩
    · rw [replies]
      rfl
    · rw [eq, put_put]
    · rw [List.flatMap_cons, ← Tape.write_write]
      exact represents''

theorem readn_represents (get : s.blobs[i]? = some b) (valid : b.IsValid = true)
    (represents : b.Represents t) (e : Entry) {more : List UInt8}
    (next : t.contents.drop t.cursor = e.bytes ++ more) :
    ∃ b', s.step m (.readn i e.format.code) = .ok (e.result, s.put i b') ∧
      b'.Represents (t.read e.format.length).2 ∧ b'.IsValid = true := by
  have length : e.bytes.length = e.format.length := e.format.length_encode e.value
  have pos := e.format.length_pos
  have within := congrArg List.length next
  rw [List.length_drop, List.length_append, length] at within
  have size := represents.size
  have ptr := represents.ptr
  have size_le := represents.bounded.size_le
  have allocated_lt := represents.bounded.allocated_lt
  obtain ⟨⟨data, n, b'⟩, run, data_eq, count, represents'⟩ :=
    (LVBlob.Read_represents represents e.format.length (by omega)).ok (by omega)
  obtain ⟨read_eq, -⟩ := Tape.read_of_drop next
  rw [length] at read_eq
  dsimp only at data_eq count represents'
  rw [read_eq] at data_eq count
  refine ⟨b', ?_, represents', LVBlob.isValid_of_pos represents'.bounded ?_⟩
  · rw [step, _stream_readn, setupStream_eq get valid, e.format.formatSize_code]
    dsimp only
    rw [run]
    show (if n ≠ (e.format.length : Int) then _ else _) = _
    rw [if_neg (by rw [count, length]; exact fun ne => ne rfl), data_eq]
    exact congrArg (fun reply => Except.ok (reply, s.put i b')) (e.format.decode_encode e.value)
  · have size' := represents'.size
    have same : (t.read e.format.length).2.contents = t.contents := rfl
    rw [same] at size'
    omega

/-- The numbers are read as they come. -/
theorem reads_represents {entries : List Entry} {more : List UInt8} (get : s.blobs[i]? = some b)
    (valid : b.IsValid = true) (represents : b.Represents t)
    (next : t.contents.drop t.cursor = entries.flatMap Entry.bytes ++ more) :
    ∃ b', s.perform (entries.map (Entry.read i)) = .ok (entries.map Entry.result, s.put i b') ∧
      b'.contents = t.contents := by
  induction entries generalizing s b t with
  | nil =>
    refine ⟨b, ?_, represents.contents_eq⟩
    obtain ⟨lt, eq⟩ := List.getElem?_eq_some_iff.mp get
    rw [put, ← eq, List.set_getElem_self lt]
    rfl
  | cons e rest ih =>
    rw [List.flatMap_cons, List.append_assoc] at next
    have length : e.bytes.length = e.format.length := e.format.length_encode e.value
    obtain ⟨b', step, represents', valid'⟩ := readn_represents (m := e.memory) get valid represents e next
    obtain ⟨-, same, -, next'⟩ := Tape.read_of_drop next
    rw [length] at same next'
    obtain ⟨b'', run, contents⟩ := ih (get_put get) valid' represents' next'
    refine ⟨b'', ?_, contents.trans same⟩
    rw [put_put] at run
    exact perform_cons_ok step run

theorem step_invalid {op : Operation} (get : s.blobs[i]? = some b) (invalid : ¬b.IsValid = true)
    (of : (∃ value format, op = .writen i value format) ∨ ∃ offset t, op = .seek i offset t) :
    s.step m op = .ok (.raised "the stream is invalid", s) := by
  rcases of with ⟨value, format, rfl⟩ | ⟨offset, t, rfl⟩
  · rw [step, _stream_writen, setupStream, setup, get]
    exact if_neg invalid
  · rw [step, _stream_seek, setupStream, setup, get]
    exact if_neg invalid

theorem seek_start (get : s.blobs[i]? = some b) (valid : b.IsValid = true)
    (represents : b.Represents t) {start : Int} (nonneg : 0 ≤ start) (le : start ≤ t.contents.length) :
    ∃ b', s.step m (.seek i (BitVec.ofInt 64 start) (some 98)) = .ok (.integer 0, s.put i b') ∧
      b'.Represents ⟨t.contents, start.toNat, by omega⟩ ∧ b'.IsValid = true := by
  have size := represents.size
  have size_le := represents.bounded.size_le
  have allocated_lt := represents.bounded.allocated_lt
  have same : (BitVec.ofInt 64 start).toInt = start := by
    rw [BitVec.toInt_ofInt]
    exact wrap_of_inRange ⟨by omega, by omega⟩
  have moves := LVBlob.Seek_represents represents (toInt_inRange (BitVec.ofInt 64 start)) .LV_SEEK_SET
  rw [same] at moves
  have sought : t.seek (Origin.position t start .LV_SEEK_SET) = some ⟨t.contents, start.toNat, by omega⟩ :=
    dif_pos ⟨nonneg, le⟩
  rw [sought] at moves
  obtain ⟨code, represents'⟩ := moves
  refine ⟨(b.Seek start .LV_SEEK_SET).2, ?_, represents', ?_⟩
  · rw [step, _stream_seek, setupStream_eq get valid]
    show Except.ok (Reply.integer (BitVec.ofInt 64 (b.Seek _ .LV_SEEK_SET).1), s.put i (b.Seek _ .LV_SEEK_SET).2) = _
    rw [same, code]
    rfl
  · have seek : b.Seek start .LV_SEEK_SET = _ :=
      LVBlob.Seek_eq represents.bounded ⟨by omega, by omega⟩
    rw [seek]
    split <;> exact valid

/-- Numbers that are written and read again come back in the width of their format, with all
other bytes as they were, exactly if the blob has a buffer and room for each of them. -/
theorem round_trips_iff (sound : s.Sound) (get : s.blobs[i]? = some b) (entries : List Entry) :
    s.RoundTrips m i b entries ↔ b.IsValid = true ∧ b.HasRoom entries := by
  have bounded := sound.of_get get
  have represents := LVBlob.represents_tape bounded
  constructor
  · rintro ⟨b', run, -⟩
    have valid : b.IsValid = true := by
      by_contra invalid
      -- the first call raises an error
      cases entries with
      | nil => cases reply_of_perform (step_invalid get invalid (.inr ⟨_, _, rfl⟩)) run
      | cons e rest => cases reply_of_perform (step_invalid get invalid (.inl ⟨_, _, rfl⟩)) run
    refine ⟨valid, ?_⟩
    by_contra fails
    obtain ⟨e, eq⟩ := (writes_represents get valid represents).error fails
    rw [roundTrip, perform_append, eq] at run
    cases run
  · rintro ⟨valid, room⟩
    obtain ⟨⟨replies, s₁⟩, run, rfl, b₁, rfl, represents₁, valid₁⟩ :=
      (writes_represents get valid represents).ok room
    have nonneg := bounded.ptr_nonneg
    have ptr := represents.ptr
    have cursor_le := (b.tape bounded).cursor_le
    obtain ⟨b₂, seeks, represents₂, valid₂⟩ := seek_start (m := m) (get_put get) valid₁ represents₁
      nonneg (by rw [Tape.length_write]; omega)
    have next : ((b.tape bounded).write (entries.flatMap Entry.bytes)).contents.drop
        (b.tape bounded).cursor = _ := Tape.drop_write
    obtain ⟨b₃, reads, contents⟩ := reads_represents (get_put get) valid₂ represents₂ next
    rw [put_put] at seeks reads
    refine ⟨b₃, perform_append_ok run (perform_cons_ok seeks reads), ?_, ?_⟩
    · rw [contents]
      exact Tape.take_write (t := b.tape bounded)
    · rw [contents]
      exact Tape.drop_cursor_write (t := b.tape bounded)

theorem round_trips_two :
    twoBlobs.RoundTrips megabyte 0 ⟨4, 4, 4, some [1, 2, 3, 4], true⟩
      [⟨.s, ⟨70000, 0, 0⟩, megabyte⟩, ⟨.b, ⟨-1, 0, 0⟩, megabyte⟩] :=
  (round_trips_iff twoBlobs_sound rfl _).mpr
    ⟨rfl, .inr ⟨by decide, .inr ⟨rfl, by decide⟩⟩, .inr ⟨by decide, .inl (by decide)⟩, trivial⟩

def noMemory : Malloc where
  gives _ := false
  bound gives := by cases gives

/-- The result of `malloc` is cleared without a look at it. -/
theorem writen_without_memory :
    ¬∀ (s : Blobs) (m : Malloc) (i : Nat) (b : LVBlob), s.Sound → s.blobs[i]? = some b →
      b.IsValid = true → ∀ entries, s.RoundTrips m i b entries := by
  intro roundTrips
  obtain ⟨b', run, -⟩ :=
    roundTrips twoBlobs noMemory 0 _ twoBlobs_sound rfl rfl [⟨.l, ⟨1, 0, 0⟩, noMemory⟩]
  have faults : twoBlobs.perform
      (roundTrip 0 4 noMemory [⟨.l, ⟨1, 0, 0⟩, noMemory⟩]) = .error .null := rfl
  have same : BitVec.ofInt 64 4 = 4 := rfl
  rw [same, faults] at run
  cases run

end Blobs

end Lavril
