import Lavril.BlobSteps

/-!
# Runs of operations on blobs

`Safe` says of each operation when it keeps to its buffers: no negative size reaches
`memcpy` or `malloc`, there is memory for what is allocated, sums do not leave 64 bits, and
a blob is not written into itself when it has to grow.
-/

namespace Lavril

namespace LVBlob

/-- The position that `Seek` is asked for. -/
def position (b : LVBlob) (offset : Int) : Origin → Int
  | .LV_SEEK_SET => offset
  | .LV_SEEK_CUR => b.ptr + offset
  | .LV_SEEK_END => b.size + offset

variable {b : LVBlob} {offset : Int} {origin : Origin}

/-- `Seek` goes to a position in the blob, or answers -1 and changes nothing. -/
theorem Seek_eq (bounded : b.Bounded) (range : InRange offset) :
    b.Seek offset origin =
      if 0 ≤ b.position offset origin ∧ b.position offset origin ≤ b.size then
        (0, { b with ptr := b.position offset origin })
      else (-1, b) := by
  obtain ⟨ptr_nonneg, ptr_le, size_le, allocated_lt, -, -⟩ := bounded
  obtain ⟨low, high⟩ := range
  -- a sum out of range wraps to a negative one
  have sum (base : Int) (nonneg : 0 ≤ base) (le : base ≤ b.size) :
      (wrap (base + offset) > b.size ∨ wrap (base + offset) < 0 ↔
        ¬(0 ≤ base + offset ∧ base + offset ≤ b.size)) ∧
      (0 ≤ base + offset ∧ base + offset ≤ b.size → wrap (base + offset) = base + offset) := by
    by_cases small : base + offset < 2 ^ 63
    · rw [wrap_of_inRange ⟨by omega, small⟩]
      omega
    · rw [wrap_neg (by omega) (by omega)]
      omega
  by_cases inside : 0 ≤ b.position offset origin ∧ b.position offset origin ≤ b.size
  · rw [if_pos inside]
    cases origin with
    | LV_SEEK_SET => exact if_neg (by dsimp only [position] at inside; omega)
    | LV_SEEK_CUR =>
      obtain ⟨refused, same⟩ := sum b.ptr ptr_nonneg ptr_le
      have eq : wrap (b.ptr + offset) = b.position offset .LV_SEEK_CUR := same inside
      rw [← eq]
      exact if_neg fun h => refused.mp h inside
    | LV_SEEK_END =>
      obtain ⟨refused, same⟩ := sum b.size (by omega) (le_refl _)
      have eq : wrap (b.size + offset) = b.position offset .LV_SEEK_END := same inside
      rw [← eq]
      exact if_neg fun h => refused.mp h inside
  · rw [if_neg inside]
    cases origin with
    | LV_SEEK_SET => exact if_pos (by dsimp only [position] at inside; omega)
    | LV_SEEK_CUR => exact if_pos ((sum b.ptr ptr_nonneg ptr_le).1.mpr inside)
    | LV_SEEK_END => exact if_pos ((sum b.size (by omega) (le_refl _)).1.mpr inside)

theorem bounded_seek (bounded : b.Bounded) (range : InRange offset) :
    (b.Seek offset origin).2.Bounded := by
  rw [Seek_eq bounded range]
  obtain ⟨ptr_nonneg, ptr_le, size_le, allocated_lt, buf, owns⟩ := bounded
  split
  · rename_i inside
    exact ⟨inside.1, inside.2, size_le, allocated_lt, buf, owns⟩
  · exact ⟨ptr_nonneg, ptr_le, size_le, allocated_lt, buf, owns⟩

end LVBlob

namespace Blobs

/-- The blob that a function is called on. -/
def receiver (s : Blobs) (i : Nat) : Option LVBlob := (s.blobs[i]?).filter (·.IsValid)

/-- The scratch pad is, or becomes, one for `size` bytes of which `n` are used. -/
def PadGives (s : Blobs) (m : Malloc) (size n : Int) : Prop :=
  if s.scratchpadsize < size then m.gives (toSize (wrap (size + size / 2))) = true
  else if s.scratchpadsize ≥ wrap (size * 32) then
    m.gives (toSize (s.scratchpadsize / 2)) = true ∧ n ≤ s.scratchpadsize / 2
  else s.scratchpad ≠ none

/-- When an operation keeps to its buffers. -/
def Safe (s : Blobs) (m : Malloc) : Operation → Prop
  | .constructor size =>
    size.toInt < 0 ∨ size.toInt = 0 ∨ m.gives (toSize size.toInt) = true
  | .resize i size => ∀ b ∈ s.receiver i,
    size.toInt = b.allocated ∨ size.toInt = 0 ∨ m.gives (toSize size.toInt) = true
  | .writen i _ format => ∀ b ∈ s.receiver i, ∀ len ∈ formatSize format, b.CanWrite m false len
  | .writeblob i j => ∀ b ∈ s.receiver i, ∀ data ∈ s.blobs[j]?, b.CanWrite m (i = j) data.size
  | .readn i format => ∀ b ∈ s.receiver i, ∀ len ∈ formatSize format, b.ptr + len < 2 ^ 63
  | .readblob i size => ∀ b ∈ s.receiver i,
    let size := min size.toInt b.size
    0 ≤ size ∧ b.ptr + size < 2 ^ 63 ∧
      (b.available size = 0 ∨
        s.PadGives m size (b.available size) ∧ m.gives (toSize (b.available size)) = true)
  | .clone i => ∀ b ∈ s.blobs[i]?, b.size = 0 ∨ m.gives (toSize b.size) = true
  | .seek .. | .swap2 _ | .swap4 _ | .set .. | .get .. | .scratchpad _ => True

/-- The arguments are such that the operation can do what it is for. -/
def Honours (s : Blobs) : Operation → Prop
  | .constructor size => 0 ≤ size.toInt
  | .resize i size => ∃ b ∈ s.receiver i, 0 ≤ size.toInt
  | .seek i offset t => ∃ b ∈ s.receiver i, ∃ o ∈ origin t,
    0 ≤ b.position offset.toInt o ∧ b.position offset.toInt o ≤ b.size
  | .writen i _ format => ∃ b ∈ s.receiver i, ∃ len, formatSize format = some len
  | .writeblob i j => ∃ b ∈ s.receiver i, ∃ data, s.blobs[j]? = some data
  | .readn i format => ∃ b ∈ s.receiver i, ∃ len ∈ formatSize format, b.ptr + len ≤ b.size
  | .readblob i size => ∃ b ∈ s.receiver i, 0 < size.toInt ∧ b.ptr < b.size
  | .swap2 i | .swap4 i => ∃ b, s.receiver i = some b
  | .set i idx _ | .get i idx => ∃ b ∈ s.receiver i, 0 ≤ idx.toInt ∧ idx.toInt < b.size
  | .clone i => ∃ b, s.blobs[i]? = some b
  | .scratchpad _ => True

/-- A position outside the blob: `seek` answers -1. -/
def RefusedSeek (s : Blobs) : Operation → Prop
  | .seek i offset t => ∃ b ∈ s.receiver i, ∃ o ∈ origin t,
    ¬(0 ≤ b.position offset.toInt o ∧ b.position offset.toInt o ≤ b.size)
  | _ => False

/-- There are bytes left, but fewer than `readn` takes. -/
def ShortRead (s : Blobs) : Operation → Prop
  | .readn i format => ∃ b ∈ s.receiver i, ∃ len ∈ formatSize format,
    b.ptr < b.size ∧ b.size < b.ptr + len
  | _ => False

structure Sound (s : Blobs) : Prop where
  bounded : ∀ b ∈ s.blobs, b.Bounded
  range : InRange s.scratchpadsize
  pad : ∀ n, s.scratchpad = some n → (n : Int) = s.scratchpadsize

/-- What is to hold of an operation: it keeps to its buffers and the bounds hold after it,
and one that cannot be done raises an error and leaves the blobs as they are. -/
def Meets (s : Blobs) (m : Malloc) (op : Operation) : Prop :=
  ∃ reply s', s.step m op = .ok (reply, s') ∧ s'.Sound ∧
    (¬s.Honours op → (∃ message, reply = .raised message) ∧ s'.blobs = s.blobs)

variable {s : Blobs} {m : Malloc} {i : Nat} {b b' : LVBlob} {size n : Int}

theorem receiver_eq_some : s.receiver i = some b ↔ s.blobs[i]? = some b ∧ b.IsValid = true := by
  simp [receiver, Option.filter_eq_some_iff]

namespace Sound

theorem of_get (sound : s.Sound) (get : s.blobs[i]? = some b) : b.Bounded :=
  sound.bounded b (List.mem_of_getElem? get)

theorem put (sound : s.Sound) (bounded : b.Bounded) : (s.put i b).Sound where
  bounded c mem := by
    rcases List.mem_or_eq_of_mem_set mem with old | rfl
    · exact sound.bounded c old
    · exact bounded
  range := sound.range
  pad := sound.pad

theorem append (sound : s.Sound) (bounded : b.Bounded) :
    ({ s with blobs := s.blobs ++ [b] } : Blobs).Sound where
  bounded c mem := by
    rcases List.mem_append.mp mem with old | new
    · exact sound.bounded c old
    · rw [List.mem_singleton.mp new]
      exact bounded
  range := sound.range
  pad := sound.pad

theorem realloc (sound : s.Sound) {newsize : Int} (range : InRange newsize) :
    ({ s with
      scratchpad := if m.gives (toSize newsize) then some (toSize newsize) else none
      scratchpadsize := newsize } : Blobs).Sound where
  bounded := sound.bounded
  range := range
  pad n eq := by
    dsimp only at eq ⊢
    split at eq
    · cases eq
      rename_i gives
      exact toSize_of_nonneg range (nonneg_of_toSize range (m.bound gives))
    · cases eq

theorem getScratchPad (sound : s.Sound) : (s.GetScratchPad m size).Sound := by
  obtain ⟨low, high⟩ := sound.range
  rw [GetScratchPad]
  dsimp only
  split
  · split
    · exact sound.realloc (wrap_inRange _)
    · split
      · exact sound.realloc ⟨by omega, by omega⟩
      · exact sound
  · exact sound

/-- The pad that a read of `size` bytes gets, of which `n` are used. -/
theorem padGives_iff (sound : s.Sound) (range : InRange size) (pos : 0 < n) (le : n ≤ size) :
    (∃ r, (s.GetScratchPad m size).scratchpad = some r ∧ n ≤ r) ↔ s.PadGives m size n := by
  obtain ⟨low, high⟩ := sound.range
  have high' := range.2
  rw [GetScratchPad, PadGives]
  dsimp only
  rw [if_pos (by omega)]
  by_cases grows : s.scratchpadsize < size
  · rw [if_pos grows, if_pos grows]
    by_cases gives : m.gives (toSize (wrap (size + size / 2))) = true
    · simp only [gives, if_true, iff_true]
      refine ⟨_, rfl, ?_⟩
      have range' := wrap_inRange (size + size / 2)
      have nonneg := nonneg_of_toSize range' (m.bound gives)
      rw [toSize_of_nonneg range' nonneg]
      by_cases small : size + size / 2 < 2 ^ 63
      · rw [wrap_of_inRange ⟨by omega, small⟩]
        omega
      · rw [wrap_neg (by omega) (by omega)] at nonneg
        omega
    · simp [gives]
  · rw [if_neg grows, if_neg grows]
    by_cases shrinks : s.scratchpadsize ≥ wrap (size * 32)
    · rw [if_pos shrinks, if_pos shrinks]
      have taken := toSize_of_nonneg (n := s.scratchpadsize / 2) ⟨by omega, by omega⟩ (by omega)
      by_cases gives : m.gives (toSize (s.scratchpadsize / 2)) = true
      · simp [gives, taken]
      · simp [gives]
    · rw [if_neg shrinks, if_neg shrinks]
      cases pad : s.scratchpad with
      | none => simp
      | some r =>
        have := sound.pad r pad
        simp only [ne_eq, reduceCtorEq, not_false_eq_true, iff_true]
        exact ⟨r, rfl, by omega⟩

end Sound

/-! ## Each operation -/

/-- What cannot be done raises an error and leaves the blobs as they are. -/
def Refuses (s : Blobs) (op : Operation) (r : Reply × Blobs) : Prop :=
  ¬s.Honours op → (∃ message, r.1 = .raised message) ∧ r.2.blobs = s.blobs

/-- What comes of an operation that keeps to its buffers. -/
def Post (s : Blobs) (op : Operation) (r : Reply × Blobs) : Prop :=
  r.2.Sound ∧ (s.Refuses op r ↔ ¬s.ShortRead op ∧ ¬s.RefusedSeek op)

variable {op : Operation} {r : Reply × Blobs}

theorem post_of_honours (sound : r.2.Sound) (honours : s.Honours op) (long : ¬s.ShortRead op)
    (accepted : ¬s.RefusedSeek op) : s.Post op r :=
  ⟨sound, iff_of_true (fun h => absurd honours h) ⟨long, accepted⟩⟩

theorem post_raised {message : String} {s' : Blobs} (sound : s'.Sound) (same : s'.blobs = s.blobs)
    (long : ¬s.ShortRead op) (accepted : ¬s.RefusedSeek op) : s.Post op (.raised message, s') :=
  ⟨sound, iff_of_true (fun _ => ⟨⟨message, rfl⟩, same⟩) ⟨long, accepted⟩⟩

theorem setup_succeeds {invalid : String} {f : LVBlob → Result} {P : LVBlob → Prop}
    {Q : Reply × Blobs → Prop}
    (refused : s.receiver i = none → ∀ message, Q (.raised message, s))
    (called : ∀ b, s.blobs[i]? = some b → s.receiver i = some b → Succeeds (f b) (P b) Q) :
    Succeeds (s.setup invalid i f) (∀ b ∈ s.receiver i, P b) Q := by
  rw [setup.eq_def]
  cases get : s.blobs[i]? with
  | none =>
    have none : s.receiver i = none := by rw [receiver, get, Option.filter_none]
    exact .of_ok (by simp [none]) (refused none _)
  | some b =>
    dsimp only
    by_cases valid : b.IsValid = true
    · have some : s.receiver i = some b := receiver_eq_some.mpr ⟨get, valid⟩
      rw [if_pos valid]
      exact (called b get some).congr (by simp [some])
    · have none : s.receiver i = none := by
        rw [receiver, get, Option.filter_some, if_neg valid]
      rw [if_neg valid]
      exact .of_ok (by simp [none]) (refused none _)

section Operations

variable {value : Number} {val format offset : BitVec 64} {t : Option (BitVec 64)} {j : Nat}

theorem constructor_succeeds (sound : s.Sound) {size : BitVec 64} :
    Succeeds (s.step m (.constructor size)) (s.Safe m (.constructor size))
      (s.Post (.constructor size)) := by
  rw [step, _blob_constructor]
  by_cases neg : size.toInt < 0
  · rw [if_pos neg]
    exact .of_ok (.inl neg) (post_raised sound rfl id id)
  · rw [if_neg neg]
    refine Succeeds.congr (P := size.toInt = 0 ∨ m.gives (toSize size.toInt) = true) ?_
      (by simp [Safe, neg])
    refine (LVBlob.new_succeeds (toInt_inRange size)).bind_ok fun b _ ⟨bounded, _⟩ => ?_
    exact .of_ok trivial (post_of_honours (sound.append bounded) (not_lt.mp neg) id id)

theorem resize_succeeds (sound : s.Sound) {size : BitVec 64} :
    Succeeds (s.step m (.resize i size)) (s.Safe m (.resize i size)) (s.Post (.resize i size)) := by
  refine setup_succeeds (fun _ _ => post_raised sound rfl id id) fun b get some => ?_
  refine (LVBlob.Resize_succeeds (sound.of_get get) (toInt_inRange size)).bind_ok
    fun r given ⟨resized, bounded, _, _, _⟩ => ?_
  have nonneg : 0 ≤ size.toInt := by
    rcases given with same | zero | gives
    · obtain ⟨ptr_nonneg, ptr_le, size_le, -⟩ := sound.of_get get
      omega
    · omega
    · exact nonneg_of_toSize (toInt_inRange size) (m.bound gives)
  dsimp only
  rw [resized, if_neg (by simp)]
  exact .of_ok trivial (post_of_honours (sound.put bounded) ⟨b, some, nonneg⟩ id id)

theorem swap_succeeds {buf : Buffer} {cap : Int} (holds : buf.Holds cap) (k : Nat) {num : Int}
    (small : (k : Int) < 2 ^ 63) (le : num * k ≤ cap) :
    Succeeds (buf.swap k num) True fun buf => buf.Holds cap := by
  refine Succeeds.foldlM holds fun i mem buf holds => ?_
  have lt := List.mem_range.mp mem
  have fits : (i * k : Int) + k ≤ cap := by
    have : ((i : Int) + 1) * k ≤ num * k := by gcongr; omega
    linarith
  have taken := toSize_of_nonneg (n := (k : Int)) ⟨by omega, small⟩ (by omega)
  have nonneg : (0 : Int) ≤ i * k := by positivity
  refine ((Buffer.load_succeeds holds nonneg).always (by omega)).ok_bind fun word length => ?_
  exact (Buffer.store_succeeds holds nonneg).congr (by
    simp only [List.length_reverse, true_iff]
    omega)

theorem swapped_succeeds (sound : s.Sound) {k : Nat} (pos : 0 < k) (small : (k : Int) < 2 ^ 63)
    (op : Operation) (honours : ∀ b, s.receiver i = some b → s.Honours op)
    (long : ¬s.ShortRead op) (accepted : ¬s.RefusedSeek op) :
    Succeeds (s._blob_swap k i) True (s.Post op) := by
  refine (setup_succeeds (P := fun _ => True) (fun _ _ => post_raised sound rfl long accepted)
    fun b get some => ?_).congr (by simp)
  have bounded := sound.of_get get
  have size_le := bounded.size_le
  have ptr_le := bounded.ptr_le
  have ptr_nonneg := bounded.ptr_nonneg
  have range : (b.size - b.size % k) / k * k ≤ b.allocated := by
    have := Int.ediv_mul_le (b.size - b.size % k) (b := (k : Int)) (by omega)
    have := Int.emod_nonneg b.size (b := (k : Int)) (by omega)
    omega
  refine (swap_succeeds bounded.buf k small range).ok_bind fun buf holds => ?_
  refine .of_ok trivial (post_of_honours (sound.put ?_) (honours b some) long accepted)
  exact ⟨ptr_nonneg, ptr_le, size_le, bounded.allocated_lt, holds, bounded.owns⟩

theorem set_succeeds (sound : s.Sound) {idx : BitVec 64} :
    Succeeds (s.step m (.set i idx val)) (s.Safe m (.set i idx val)) (s.Post (.set i idx val)) := by
  refine (setup_succeeds (P := fun _ => True) (fun _ _ => post_raised sound rfl id id)
    fun b get some => ?_).congr (by simp [Safe])
  have bounded := sound.of_get get
  have size_le := bounded.size_le
  by_cases outside : idx.toInt < 0 ∨ idx.toInt ≥ b.size
  · rw [if_pos outside]
    exact .of_ok trivial (post_raised sound rfl id id)
  · rw [if_neg outside]
    refine ((Buffer.store_succeeds bounded.buf (by omega)).always (by
      rw [List.length_singleton]
      omega)).ok_bind fun buf holds => ?_
    refine .of_ok trivial (post_of_honours (sound.put ?_) ⟨b, some, by omega, by omega⟩ id id)
    exact ⟨bounded.ptr_nonneg, bounded.ptr_le, size_le, bounded.allocated_lt, holds, bounded.owns⟩

theorem get_succeeds (sound : s.Sound) {idx : BitVec 64} :
    Succeeds (s.step m (.get i idx)) (s.Safe m (.get i idx)) (s.Post (.get i idx)) := by
  refine (setup_succeeds (P := fun _ => True) (fun _ _ => post_raised sound rfl id id)
    fun b get some => ?_).congr (by simp [Safe])
  have bounded := sound.of_get get
  have size_le := bounded.size_le
  by_cases outside : idx.toInt < 0 ∨ idx.toInt ≥ b.size
  · rw [if_pos outside]
    exact .of_ok trivial (post_raised sound rfl id id)
  · rw [if_neg outside]
    have one : toSize 1 = 1 := rfl
    refine ((Buffer.load_succeeds bounded.buf (by omega)).always (by
      rw [one]
      omega)).ok_bind fun bytes _ => ?_
    exact .of_ok trivial (post_of_honours sound ⟨b, some, by omega, by omega⟩ id id)

theorem clone_succeeds (sound : s.Sound) :
    Succeeds (s.step m (.clone i)) (s.Safe m (.clone i)) (s.Post (.clone i)) := by
  rw [step, _blob_cloned.eq_def]
  cases get : s.blobs[i]? with
  | none => exact .of_ok (by simp [Safe, get]) (post_raised sound rfl id id)
  | some b =>
    have bounded := sound.of_get get
    obtain ⟨ptr_nonneg, ptr_le, size_le, allocated_lt, buf, -⟩ := bounded
    have range : InRange b.size := ⟨by omega, by omega⟩
    have taken := toSize_of_nonneg range (by omega)
    refine Succeeds.congr (P := b.size = 0 ∨ m.gives (toSize b.size) = true) ?_
      (by simp [Safe, get])
    refine (LVBlob.new_succeeds range).bind_ok fun c _ ⟨bounded', size, allocated, ptr⟩ => ?_
    refine ((Buffer.load_succeeds buf (le_refl 0)).always (by
      rw [size]
      omega)).ok_bind fun data length => ?_
    rw [size] at length
    refine ((Buffer.store_succeeds bounded'.buf (le_refl 0)).always (by omega)).ok_bind
      fun stored holds => ?_
    refine .of_ok trivial (post_of_honours (sound.append ?_) ⟨b, get⟩ id id)
    exact ⟨bounded'.ptr_nonneg, bounded'.ptr_le, bounded'.size_le, bounded'.allocated_lt, holds,
      bounded'.owns⟩

theorem seek_succeeds (sound : s.Sound) :
    Succeeds (s.step m (.seek i offset t)) (s.Safe m (.seek i offset t)) (s.Post (.seek i offset t)) := by
  refine (setup_succeeds (P := fun _ => True) (fun none _ => post_raised sound rfl id ?_)
    fun b get some => ?_).congr (by simp [Safe])
  · rintro ⟨b, some, -⟩
    rw [none] at some
    cases some
  have bounded := sound.of_get get
  have range := toInt_inRange offset
  cases at_origin : origin t with
  | none =>
    refine .of_ok trivial (post_raised sound rfl id ?_)
    rintro ⟨b, -, o, eq, -⟩
    rw [at_origin] at eq
    cases eq
  | some o =>
    refine .of_ok trivial ⟨sound.put (LVBlob.bounded_seek bounded range), ?_⟩
    have refused : s.RefusedSeek (.seek i offset t) ↔
        ¬(0 ≤ b.position offset.toInt o ∧ b.position offset.toInt o ≤ b.size) := by
      simp [RefusedSeek, some, at_origin]
    have honours : s.Honours (.seek i offset t) ↔
        0 ≤ b.position offset.toInt o ∧ b.position offset.toInt o ≤ b.size := by
      simp [Honours, some, at_origin]
    rw [refused, not_not, Refuses, honours]
    constructor
    · intro refuses
      refine ⟨id, ?_⟩
      by_contra outside
      obtain ⟨⟨message, raised⟩, -⟩ := refuses outside
      cases raised
    · rintro ⟨-, inside⟩ outside
      exact absurd inside outside

theorem formatSize_lt {len : Nat} (has : formatSize format = some len) : 0 < len ∧ len ≤ 8 := by
  simp only [formatSize] at has
  split_ifs at has <;> (cases has; decide)

theorem length_encode {len : Nat} (has : formatSize format = some len) :
    (encode format value).length = len := by
  simp only [formatSize] at has
  split_ifs at has <;> (cases has; simp [encode, *, Bytes.length_ofBits])

theorem writen_succeeds (sound : s.Sound) :
    Succeeds (s.step m (.writen i value format)) (s.Safe m (.writen i value format))
      (s.Post (.writen i value format)) := by
  refine setup_succeeds (fun _ _ => post_raised sound rfl id id) fun b get some => ?_
  cases has : formatSize format with
  | none => exact .of_ok (by simp) (post_raised sound rfl id id)
  | some len =>
    have length : (encode format value).length = len := length_encode has
    have small : (len : Int) < 2 ^ 63 := by have := formatSize_lt has; omega
    have gives : b.Gives len (.other (Option.some (encode format value))) :=
      ⟨len, ⟨fun eq => by cases eq; rw [length], fun eq => by cases eq⟩, le_refl _⟩
    have writes := LVBlob.Write_succeeds (m := m) (sound.of_get get) gives (by omega) small
    refine (writes.congr (S := ∀ l ∈ Option.some len, b.CanWrite m false l)
      (by simp [Source.isOwn])).bind_ok fun r _ ⟨_, bounded, _⟩ => ?_
    exact .of_ok trivial (post_of_honours (sound.put bounded) ⟨b, some, len, has⟩ id id)

theorem writeblob_succeeds (sound : s.Sound) :
    Succeeds (s.step m (.writeblob i j)) (s.Safe m (.writeblob i j)) (s.Post (.writeblob i j)) := by
  refine setup_succeeds (fun _ _ => post_raised sound rfl id id) fun b get some => ?_
  cases from_ : s.blobs[j]? with
  | none => exact .of_ok (by simp) (post_raised sound rfl id id)
  | some data =>
    obtain ⟨ptr_nonneg, ptr_le, size_le, allocated_lt, buf, -⟩ := sound.of_get from_
    have gives : b.Gives data.size (if i = j then .own else .other data.buf) := by
      split
      · rename_i same
        rw [same, from_] at get
        cases get
        rfl
      · exact ⟨data.allocated, buf, size_le⟩
    have own : (if i = j then Source.own else .other data.buf).isOwn = decide (i = j) := by
      split <;> simp [Source.isOwn, *]
    have writes := LVBlob.Write_succeeds (m := m) (sound.of_get get) gives (by omega) (by omega)
    refine (writes.congr (S := ∀ d ∈ Option.some data, b.CanWrite m (i = j) d.size)
      (by simp [own])).bind_ok fun r _ post => ?_
    obtain ⟨written, bounded, -⟩ := post
    dsimp only
    rw [written, if_neg (by simp)]
    exact .of_ok trivial (post_of_honours (sound.put bounded) ⟨b, some, data, from_⟩ id id)

theorem put_self (get : s.blobs[i]? = some b) : (s.put i b).blobs = s.blobs := by
  obtain ⟨lt, rfl⟩ := List.getElem?_eq_some_iff.mp get
  exact List.set_getElem_self lt

theorem readn_succeeds (sound : s.Sound) :
    Succeeds (s.step m (.readn i format)) (s.Safe m (.readn i format)) (s.Post (.readn i format)) := by
  refine setup_succeeds (fun none _ => post_raised sound rfl ?_ id) fun b get some => ?_
  · rintro ⟨b, some, -⟩
    rw [none] at some
    cases some
  cases has : formatSize format with
  | none =>
    refine .of_ok (by simp) (post_raised sound rfl ?_ id)
    rintro ⟨b, -, len, eq, -⟩
    rw [has] at eq
    cases eq
  | some len =>
    have bounded := sound.of_get get
    obtain ⟨ptr_nonneg, ptr_le, size_le, allocated_lt, buf, owns⟩ := sound.of_get get
    obtain ⟨pos, le⟩ := formatSize_lt has
    have short : s.ShortRead (.readn i format) ↔ b.ptr < b.size ∧ b.size < b.ptr + len := by
      simp [ShortRead, some, has]
    have honours : s.Honours (.readn i format) ↔ b.ptr + len ≤ b.size := by
      simp [Honours, some, has]
    have reads : Succeeds (b.Read (Option.some len) len) _ _ :=
      LVBlob.Read_succeeds bounded ⟨by omega, by omega⟩
    refine (reads.congr (S := ∀ l ∈ Option.some len, b.ptr + l < 2 ^ 63) ?_).bind_ok
      fun r _ post => ?_
    · simp only [Option.mem_def, Option.some.injEq, forall_eq', LVBlob.available]
      constructor
      · exact fun small => ⟨by omega, small, .inr ⟨len, rfl, by omega⟩⟩
      · exact fun read => read.2.1
    · obtain ⟨-, count, same⟩ := post
      have sound' : (s.put i r.2.2).Sound := by
        refine sound.put ?_
        rw [same, LVBlob.available]
        exact ⟨by dsimp only; omega, by dsimp only; omega, size_le, allocated_lt, buf, owns⟩
      rw [LVBlob.available] at count same
      dsimp only
      by_cases whole : b.ptr + len ≤ b.size
      · rw [if_neg (by rw [count]; simp; omega)]
        exact .of_ok trivial (post_of_honours sound' (honours.mpr whole)
          (fun h => by have := short.mp h; omega) id)
      · rw [if_pos (by rw [count]; omega)]
        refine .of_ok trivial ⟨sound', ?_⟩
        rw [Refuses, honours, short]
        by_cases atEnd : b.ptr = b.size
        · have none : min (len : Int) (b.size - b.ptr) = 0 := by omega
          rw [none, Int.add_zero] at same
          refine iff_of_true (fun _ => ⟨⟨_, rfl⟩, ?_⟩) ⟨by omega, id⟩
          rw [same]
          exact put_self get
        · refine iff_of_false (fun refuses => ?_) fun h => h.1 ⟨by omega, by omega⟩
          -- the pointer has moved on
          have unchanged := (refuses whole).2
          have moved := congrArg (·[i]?) unchanged
          obtain ⟨lt, -⟩ := List.getElem?_eq_some_iff.mp get
          simp only [put, List.getElem?_set_self lt, get, Option.some.injEq] at moved
          have := congrArg LVBlob.ptr (same.symm.trans moved)
          dsimp only at this
          omega

theorem readblob_succeeds (sound : s.Sound) {size : BitVec 64} :
    Succeeds (s.step m (.readblob i size)) (s.Safe m (.readblob i size)) (s.Post (.readblob i size)) := by
  refine setup_succeeds (fun _ _ => post_raised sound rfl id id) fun b get some => ?_
  have bounded := sound.of_get get
  obtain ⟨ptr_nonneg, ptr_le, size_le, allocated_lt, buf, owns⟩ := sound.of_get get
  have clipped : (if size.toInt > b.size then b.size else size.toInt) = min size.toInt b.size := by
    split <;> omega
  have range : InRange (min size.toInt b.size) := by
    have := toInt_inRange size
    exact ⟨by have := this.1; omega, by omega⟩
  rw [clipped]
  set n := min size.toInt b.size
  have pad : (s.GetScratchPad m n).Sound := sound.getScratchPad
  have kept : (s.GetScratchPad m n).blobs = s.blobs := by
    rw [GetScratchPad]
    split_ifs <;> rfl
  -- the bytes are in the scratch pad, and then in a new blob
  have reads : Succeeds (b.Read (s.GetScratchPad m n).scratchpad n) _ _ :=
    LVBlob.Read_succeeds bounded range
  refine (reads.bind
    (S := b.available n = 0 ∨ m.gives (toSize (b.available n)) = true)
    fun r holds ⟨length, count, same⟩ => ?_).congr ?_
  · obtain ⟨nonneg, small, -⟩ := holds
    have le : b.available n ≤ b.size - b.ptr := min_le_right _ _
    have ge : 0 ≤ b.available n := le_min nonneg (by omega)
    have put : ((s.GetScratchPad m n).put i r.2.2).Sound := by
      refine pad.put ?_
      rw [same]
      exact ⟨by dsimp only; omega, by dsimp only; omega, size_le, allocated_lt, buf, owns⟩
    dsimp only
    by_cases none : b.available n = 0
    · rw [if_pos (by rw [count, none])]
      refine .of_ok (.inl none) (post_raised put ?_ id id)
      rw [same, none, Int.add_zero, ← kept]
      exact put_self (kept ▸ get)
    · rw [if_neg (by rw [count]; omega), count]
      refine (LVBlob.new_succeeds ⟨by omega, by omega⟩).bind_ok
        fun c _ ⟨bounded', size', allocated, _⟩ => ?_
      refine ((Buffer.store_succeeds bounded'.buf (le_refl 0)).always (by omega)).ok_bind
        fun stored holds => ?_
      have available : b.available n = min n (b.size - b.ptr) := rfl
      refine .of_ok trivial (post_of_honours (put.append ?_) ⟨b, some, by omega, by omega⟩ id id)
      exact ⟨bounded'.ptr_nonneg, bounded'.ptr_le, bounded'.size_le, bounded'.allocated_lt, holds,
        bounded'.owns⟩
  · by_cases none : b.available n = 0
    · simp [none]
    · by_cases nonneg : 0 ≤ n
      · have pos : 0 < b.available n := by
          have ge : 0 ≤ b.available n := le_min nonneg (by omega)
          omega
        simp only [none, false_or, sound.padGives_iff range pos (min_le_left _ _)]
        tauto
      · simp [nonneg]

end Operations

theorem step_succeeds (sound : s.Sound) (op : Operation) :
    Succeeds (s.step m op) (s.Safe m op) (s.Post op) := by
  cases op with
  | constructor size => exact constructor_succeeds sound
  | resize i size => exact resize_succeeds sound
  | seek i offset t => exact seek_succeeds sound
  | writen i value format => exact writen_succeeds sound
  | writeblob i j => exact writeblob_succeeds sound
  | readn i format => exact readn_succeeds sound
  | readblob i size => exact readblob_succeeds sound
  | swap2 i =>
    exact swapped_succeeds sound (by decide) (by decide) _ (fun b some => ⟨b, some⟩) id id
  | swap4 i =>
    exact swapped_succeeds sound (by decide) (by decide) _ (fun b some => ⟨b, some⟩) id id
  | set i idx val => exact set_succeeds sound
  | get i idx => exact get_succeeds sound
  | clone i => exact clone_succeeds sound
  | scratchpad size =>
    exact .of_ok trivial (post_of_honours sound.getScratchPad trivial id id)

theorem meets_iff (sound : s.Sound) (op : Operation) :
    s.Meets m op ↔ s.Safe m op ∧ ¬s.ShortRead op ∧ ¬s.RefusedSeek op := by
  have succeeds := step_succeeds (m := m) sound op
  constructor
  · rintro ⟨reply, s', run, -, refuses⟩
    by_cases safe : s.Safe m op
    · obtain ⟨r, eq, -, same⟩ := succeeds.ok safe
      rw [run] at eq
      cases eq
      exact ⟨safe, same.mp refuses⟩
    · obtain ⟨e, eq⟩ := succeeds.error safe
      rw [run] at eq
      cases eq
  · rintro ⟨safe, rest⟩
    obtain ⟨r, eq, sound', same⟩ := succeeds.ok safe
    exact ⟨r.1, r.2, eq, sound', same.mpr rest⟩

/-! ## Runs -/

def initial : Blobs := ⟨[], none, 0⟩

/-- The states that runs reach whose operations are allowed. -/
inductive Run (allowed : Blobs → Malloc → Operation → Prop) : Blobs → Prop
  | initial : Run allowed initial
  | step {s s' : Blobs} {m : Malloc} {op : Operation} {reply : Reply} (run : Run allowed s)
      (allows : allowed s m op) (steps : s.step m op = .ok (reply, s')) : Run allowed s'

theorem Run.sound (run : Run Safe s) : s.Sound := by
  induction run with
  | initial =>
    exact ⟨fun b mem => (List.not_mem_nil mem).elim, ⟨by decide, by decide⟩, fun n eq => by cases eq⟩
  | step _ safe steps sound =>
    obtain ⟨r, eq, sound', -⟩ := (step_succeeds sound _).ok safe
    rw [steps] at eq
    cases eq
    exact sound'

/-- In a run of safe operations the bounds hold, and what is asked for holds of the next
operation exactly if it is safe, no short `readn` and no `seek` outside the blob. -/
theorem blobs_bounded (run : Run Safe s) :
    (∀ b ∈ s.blobs, b.Bounded) ∧ ∀ m op,
      (s.Meets m op ↔ s.Safe m op ∧ ¬s.ShortRead op ∧ ¬s.RefusedSeek op) :=
  ⟨run.sound.bounded, fun _ => meets_iff run.sound⟩

/-- An allocator with less than a megabyte. -/
def megabyte : Malloc where
  gives n := decide (n < 2 ^ 20)
  bound gives := lt_trans (of_decide_eq_true gives) (by decide)

/-- `blob(4)`. -/
def blobOfFour : Blobs := ⟨[⟨4, 4, 0, some [0, 0, 0, 0], true⟩], none, 0⟩

theorem run_blobOfFour {allowed : Blobs → Malloc → Operation → Prop}
    (allows : allowed initial megabyte (.constructor 4)) : Run allowed blobOfFour :=
  have steps : initial.step megabyte (.constructor 4) = .ok (.blob 0, blobOfFour) := rfl
  .step .initial allows steps

theorem blobs_bounded_four : (∀ b ∈ blobOfFour.blobs, b.Bounded) ∧ ∀ m op,
    (blobOfFour.Meets m op ↔
      blobOfFour.Safe m op ∧ ¬blobOfFour.ShortRead op ∧ ¬blobOfFour.RefusedSeek op) :=
  blobs_bounded (run_blobOfFour (.inr (.inr (by decide))))

/-- `resize(-1)` asks for more memory than there can be, and clears it. -/
theorem resize_fails :
    ¬∀ s, Run (fun _ _ _ => True) s → ∀ m op, s.Meets m op := by
  intro meets
  obtain ⟨reply, s', run, -⟩ := meets blobOfFour (run_blobOfFour trivial) megabyte (.resize 0 (-1))
  have faults : blobOfFour.step megabyte (.resize 0 (-1)) = .error .null := rfl
  rw [faults] at run
  cases run

end Blobs

end Lavril
