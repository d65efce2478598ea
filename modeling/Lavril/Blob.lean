import Lavril.Codec
import Mathlib.Data.Int.Basic

/-!
# Blobs

`LVBlob` and the functions of a stream that scripts call, on buffers whose accesses are
checked: what leaves a buffer, goes through a null pointer or to memory that is freed
is a `Fault`. Integers have 64 bits and wrap around; whether `malloc` has as many
bytes as it is asked for is given for each step.
-/

namespace Lavril

inductive Fault where
  | null | outside | released
  deriving DecidableEq

/-- The result of arithmetic on `LVInteger`. -/
def wrap (n : Int) : Int := n.bmod (2 ^ 64)

/-- An `LVInteger` that is passed as a size. -/
def toSize (n : Int) : Nat := (n % 2 ^ 64).toNat

/-- Which sizes there is memory for; there is never more than the largest signed integer. -/
structure Malloc where
  gives : Nat → Bool
  bound {n : Nat} : gives n = true → n < 2 ^ 63

/-- The memory at a pointer, `none` when it is null. -/
abbrev Buffer := Option (List UInt8)

namespace Buffer

/-- `lv_malloc` of some bytes and `memset` of them to zero. -/
def zeroed (m : Malloc) (n : Int) : Except Fault Buffer :=
  if m.gives (toSize n) then .ok (some (List.replicate (toSize n) 0))
  else if toSize n = 0 then .ok none
  else .error .null

/-- What `memcpy` of `n` bytes reads at an offset. -/
def load (buf : Buffer) (offset n : Int) : Except Fault (List UInt8) :=
  if toSize n = 0 then .ok []
  else
    match buf with
    | none => .error .null
    | some bytes =>
      if 0 ≤ offset ∧ offset.toNat + toSize n ≤ bytes.length then
        .ok ((bytes.drop offset.toNat).take (toSize n))
      else .error .outside

/-- `memcpy` of some bytes to an offset. -/
def store (buf : Buffer) (offset : Int) (data : List UInt8) : Except Fault Buffer :=
  if data = [] then .ok buf
  else
    match buf with
    | none => .error .null
    | some bytes =>
      if 0 ≤ offset ∧ offset.toNat + data.length ≤ bytes.length then
        .ok (some (bytes.take offset.toNat ++ data ++ bytes.drop (offset.toNat + data.length)))
      else .error .outside

/-- Reversing the bytes of the words of `k` bytes in the first `num * k` bytes. -/
def swap (buf : Buffer) (k : Nat) (num : Int) : Except Fault Buffer :=
  (List.range num.toNat).foldlM (fun buf (i : Nat) => do
    let word ← load buf (i * k) k
    store buf (i * k) word.reverse) buf

end Buffer

structure LVBlob where
  size : Int
  allocated : Int
  ptr : Int
  buf : Buffer
  owns : Bool

/-- Where `Write` takes its bytes from: other memory, or the buffer of the blob itself. -/
inductive Source where
  | other (buf : Buffer)
  | own

inductive Origin where
  | LV_SEEK_SET | LV_SEEK_CUR | LV_SEEK_END

namespace LVBlob

/-- The constructor of `LVBlob`. -/
def new (m : Malloc) (size : Int) : Except Fault LVBlob := do
  let buf ← Buffer.zeroed m size
  return ⟨size, size, 0, buf, true⟩

def Resize (b : LVBlob) (m : Malloc) (n : Int) : Except Fault (Bool × LVBlob) :=
  if ¬b.owns then .ok (false, b)
  else if n ≠ b.allocated then do
    let newbuf ← Buffer.zeroed m n
    let data ← b.buf.load 0 (if b.size > n then n else b.size)
    let newbuf ← newbuf.store 0 data
    return (true, { b with
      buf := newbuf
      allocated := n
      size := if b.size > n then n else b.size
      ptr := if b.ptr > n then n else b.ptr })
  else .ok (true, b)

def GrowBufOf (b : LVBlob) (m : Malloc) (n : Int) : Except Fault (Bool × LVBlob) := do
  let (ret, b) ←
    (if wrap (b.size + n) > b.allocated then
      if wrap (b.size + n) > wrap (b.size * 2) then b.Resize m (wrap (b.size + n))
      else b.Resize m (wrap (b.size * 2))
    else .ok (true, b))
  return (ret, { b with size := wrap (b.size + n) })

def CanAdvance (b : LVBlob) (n : Int) : Bool := ¬wrap (b.ptr + n) > b.size

/-- The bytes of the source after the blob has grown: its own buffer may be another one. -/
def fetch (b grown : LVBlob) (source : Source) (size : Int) : Except Fault (List UInt8) :=
  match source with
  | .other buf => buf.load 0 size
  | .own => if grown.allocated = b.allocated then grown.buf.load 0 size else .error .released

def Write (b : LVBlob) (m : Malloc) (source : Source) (size : Int) :
    Except Fault (Int × LVBlob) := do
  let grown ←
    (if b.CanAdvance size then .ok b
    else (·.2) <$> b.GrowBufOf m (wrap (wrap (b.ptr + size) - b.size)))
  let data ← b.fetch grown source size
  let buf ← grown.buf.store grown.ptr data
  return (size, { grown with buf := buf, ptr := wrap (grown.ptr + size) })

/-- The bytes that are read, with their number; `room` is the size of the memory they go
to, `none` when that is null. -/
def Read (b : LVBlob) (room : Option Nat) (size : Int) :
    Except Fault (List UInt8 × Int × LVBlob) :=
  if ¬b.CanAdvance size ∧ ¬wrap (b.size - b.ptr) > 0 then .ok ([], 0, b)
  else do
    let n := if b.CanAdvance size then size else wrap (b.size - b.ptr)
    let data ← b.buf.load b.ptr n
    if data ≠ [] ∧ room = none then .error .null
    else if data.length ≤ room.getD 0 then
      return (data, n, { b with ptr := wrap (b.ptr + n) })
    else .error .outside

def Seek (b : LVBlob) (offset : Int) : Origin → Int × LVBlob
  | .LV_SEEK_SET =>
    if offset > b.size ∨ offset < 0 then (-1, b) else (0, { b with ptr := offset })
  | .LV_SEEK_CUR =>
    if wrap (b.ptr + offset) > b.size ∨ wrap (b.ptr + offset) < 0 then (-1, b)
    else (0, { b with ptr := wrap (b.ptr + offset) })
  | .LV_SEEK_END =>
    if wrap (b.size + offset) > b.size ∨ wrap (b.size + offset) < 0 then (-1, b)
    else (0, { b with ptr := wrap (b.size + offset) })

def IsValid (b : LVBlob) : Bool := b.buf.isSome

end LVBlob

/-- The blobs there are, with the scratch pad of the shared state. -/
structure Blobs where
  blobs : List LVBlob
  scratchpad : Option Nat
  scratchpadsize : Int

/-- What a function of a blob pushes, or the error that it raises. -/
inductive Reply where
  | nothing
  | integer (n : BitVec 64)
  | single (bits : BitVec 32)
  | double (bits : BitVec 64)
  | blob (i : Nat)
  | raised (message : String)
  deriving DecidableEq

/-- A number as `lv_getinteger` and `lv_getfloat` give it, and the latter as a `double`. -/
structure Number where
  integer : BitVec 64
  single : BitVec 32
  double : BitVec 64

namespace Blobs

abbrev Result := Except Fault (Reply × Blobs)

def raise (s : Blobs) (message : String) : Result := .ok (.raised message, s)

def put (s : Blobs) (i : Nat) (b : LVBlob) : Blobs := { s with blobs := s.blobs.set i b }

/-- `SETUP_BLOB` and `SETUP_STREAM`: the blob of the first parameter. -/
def setup (s : Blobs) (invalid : String) (i : Nat) (f : LVBlob → Result) : Result :=
  match s.blobs[i]? with
  | none => s.raise "invalid type tag"
  | some b => if b.IsValid then f b else s.raise invalid

def setupBlob (s : Blobs) (i : Nat) (f : LVBlob → Result) : Result :=
  s.setup "the blob is invalid" i f

def setupStream (s : Blobs) (i : Nat) (f : LVBlob → Result) : Result :=
  s.setup "the stream is invalid" i f

/-- `GetScratchPad`. -/
def GetScratchPad (s : Blobs) (m : Malloc) (size : Int) : Blobs :=
  let realloc (newsize : Int) : Blobs :=
    { s with
      scratchpad := if m.gives (toSize newsize) then some (toSize newsize) else none
      scratchpadsize := newsize }
  if 0 < size then
    if s.scratchpadsize < size then realloc (wrap (size + size / 2))
    else if s.scratchpadsize ≥ wrap (size * 32) then realloc (s.scratchpadsize / 2)
    else s
  else s

def _blob_constructor (s : Blobs) (m : Malloc) (size : Int) : Result :=
  if size < 0 then s.raise "cannot create blob with negative size"
  else do
    let b ← LVBlob.new m size
    return (.blob s.blobs.length, { s with blobs := s.blobs ++ [b] })

def _blob_resize (s : Blobs) (m : Malloc) (i : Nat) (size : Int) : Result :=
  s.setupBlob i fun self => do
    let (resized, self) ← self.Resize m size
    if ¬resized then s.raise "resize failed" else return (.nothing, s.put i self)

def _blob_swap (s : Blobs) (k : Nat) (i : Nat) : Result :=
  s.setupBlob i fun self => do
    let buf ← self.buf.swap k ((self.size - self.size % k) / k)
    return (.nothing, s.put i { self with buf := buf })

def _blob_swap4 (s : Blobs) (i : Nat) : Result := s._blob_swap 4 i

def _blob_swap2 (s : Blobs) (i : Nat) : Result := s._blob_swap 2 i

def _blob_set (s : Blobs) (i : Nat) (idx : Int) (val : BitVec 64) : Result :=
  s.setupBlob i fun self =>
    if idx < 0 ∨ idx ≥ self.size then s.raise "index out of range"
    else do
      let buf ← self.buf.store idx [UInt8.ofBitVec (val.setWidth 8)]
      return (.integer val, s.put i { self with buf := buf })

def _blob_get (s : Blobs) (i : Nat) (idx : Int) : Result :=
  s.setupBlob i fun self =>
    if idx < 0 ∨ idx ≥ self.size then s.raise "index out of range"
    else do
      let bytes ← self.buf.load idx 1
      return (.integer ((Bytes.toBits 8 bytes).setWidth 64), s)

def _blob_cloned (s : Blobs) (m : Malloc) (i : Nat) : Result :=
  match s.blobs[i]? with
  | none => s.raise "invalid type tag"
  | some other => do
    let thisone ← LVBlob.new m other.size
    let data ← other.buf.load 0 thisone.size
    let buf ← thisone.buf.store 0 data
    return (.blob s.blobs.length, { s with blobs := s.blobs ++ [{ thisone with buf := buf }] })

def _stream_readblob (s : Blobs) (m : Malloc) (i : Nat) (size : Int) : Result :=
  s.setupStream i fun self => do
    let size := if size > self.size then self.size else size
    let s := s.GetScratchPad m size
    let (data, res, self) ← self.Read s.scratchpad size
    if res ≤ 0 then (s.put i self).raise "no data left to read"
    else do
      let b ← LVBlob.new m res
      let buf ← b.buf.store 0 data
      let s := s.put i self
      return (.blob s.blobs.length, { s with blobs := s.blobs ++ [{ b with buf := buf }] })

/-- The bytes that each format takes. -/
def formatSize (format : BitVec 64) : Option Nat :=
  if format = 108 then some 8       -- 'l'
  else if format = 105 then some 4  -- 'i'
  else if format = 115 then some 2  -- 's'
  else if format = 119 then some 2  -- 'w'
  else if format = 99 then some 1   -- 'c'
  else if format = 98 then some 1   -- 'b'
  else if format = 102 then some 4  -- 'f'
  else if format = 100 then some 8  -- 'd'
  else none

/-- What is pushed of the bytes that are read. -/
def decode (format : BitVec 64) (bytes : List UInt8) : Reply :=
  if format = 108 then .integer (Bytes.toBits 64 bytes)
  else if format = 105 then .integer ((Bytes.toBits 32 bytes).signExtend 64)
  else if format = 115 then .integer ((Bytes.toBits 16 bytes).signExtend 64)
  else if format = 119 then .integer ((Bytes.toBits 16 bytes).setWidth 64)
  else if format = 99 then .integer ((Bytes.toBits 8 bytes).signExtend 64)
  else if format = 98 then .integer ((Bytes.toBits 8 bytes).setWidth 64)
  else if format = 102 then .single (Bytes.toBits 32 bytes)
  else .double (Bytes.toBits 64 bytes)

/-- The bytes that are written for a number. -/
def encode (format : BitVec 64) (n : Number) : List UInt8 :=
  if format = 108 then Bytes.ofBits n.integer
  else if format = 105 then Bytes.ofBits (n.integer.setWidth 32)
  else if format = 115 ∨ format = 119 then Bytes.ofBits (n.integer.setWidth 16)
  else if format = 99 ∨ format = 98 then Bytes.ofBits (n.integer.setWidth 8)
  else if format = 102 then Bytes.ofBits n.single
  else Bytes.ofBits n.double

def _stream_readn (s : Blobs) (i : Nat) (format : BitVec 64) : Result :=
  s.setupStream i fun self =>
    match formatSize format with
    | none => s.raise "invalid format"
    | some len => do
      let (data, n, self) ← self.Read (some len) len
      if n ≠ len then (s.put i self).raise "io error"
      else return (decode format data, s.put i self)

def _stream_writen (s : Blobs) (m : Malloc) (i : Nat) (value : Number) (format : BitVec 64) :
    Result :=
  s.setupStream i fun self =>
    match formatSize format with
    | none => s.raise "invalid format"
    | some len => do
      let (_, self) ← self.Write m (.other (some (encode format value))) len
      return (.nothing, s.put i self)

def _stream_writeblob (s : Blobs) (m : Malloc) (i j : Nat) : Result :=
  s.setupStream i fun self =>
    match s.blobs[j]? with
    | none => s.raise "invalid parameter"
    | some data => do
      let (written, self) ← self.Write m (if i = j then .own else .other data.buf) data.size
      if written ≠ data.size then (s.put i self).raise "io error"
      else return (.integer (BitVec.ofInt 64 data.size), s.put i self)

def origin : Option (BitVec 64) → Option Origin
  | none => some .LV_SEEK_SET
  | some t =>
    if t = 98 then some .LV_SEEK_SET       -- 'b'
    else if t = 99 then some .LV_SEEK_CUR  -- 'c'
    else if t = 101 then some .LV_SEEK_END -- 'e'
    else none

def _stream_seek (s : Blobs) (i : Nat) (offset : Int) (t : Option (BitVec 64)) : Result :=
  s.setupStream i fun self =>
    match origin t with
    | none => s.raise "invalid origin"
    | some origin =>
      .ok (.integer (BitVec.ofInt 64 (self.Seek offset origin).1),
        s.put i (self.Seek offset origin).2)

/-- What scripts do with blobs, and other uses of the scratch pad. -/
inductive Operation where
  | constructor (size : BitVec 64)
  | resize (i : Nat) (size : BitVec 64)
  | seek (i : Nat) (offset : BitVec 64) (origin : Option (BitVec 64))
  | writen (i : Nat) (value : Number) (format : BitVec 64)
  | writeblob (i j : Nat)
  | readn (i : Nat) (format : BitVec 64)
  | readblob (i : Nat) (size : BitVec 64)
  | swap2 (i : Nat)
  | swap4 (i : Nat)
  | set (i : Nat) (idx val : BitVec 64)
  | get (i : Nat) (idx : BitVec 64)
  | clone (i : Nat)
  | scratchpad (size : BitVec 64)

def step (s : Blobs) (m : Malloc) : Operation → Result
  | .constructor size => s._blob_constructor m size.toInt
  | .resize i size => s._blob_resize m i size.toInt
  | .seek i offset origin => s._stream_seek i offset.toInt origin
  | .writen i value format => s._stream_writen m i value format
  | .writeblob i j => s._stream_writeblob m i j
  | .readn i format => s._stream_readn i format
  | .readblob i size => s._stream_readblob m i size.toInt
  | .swap2 i => s._blob_swap2 i
  | .swap4 i => s._blob_swap4 i
  | .set i idx val => s._blob_set i idx.toInt val
  | .get i idx => s._blob_get i idx.toInt
  | .clone i => s._blob_cloned m i
  | .scratchpad size => .ok (.nothing, s.GetScratchPad m size.toInt)

end Blobs

end Lavril
