import Lavril.Codec
import Lavril.Object
import Lavril.StringTable

/-!
# Bytecode streams

`lv_writeclosure` writes a closure's prototype with everything in it as bytes, which
`lv_readclosure` loads again. The code is that of a 64-bit machine with a float of four
bytes, its lowest byte first.
-/

namespace Lavril

/-- `_RT_MASK`. -/
def RT_MASK : BitVec 32 := 0x00FFFFFF

def OBJECT_REF_COUNTED : BitVec 32 := 0x08000000
def OBJECT_NUMERIC : BitVec 32 := 0x04000000
def OBJECT_DELEGABLE : BitVec 32 := 0x02000000
def OBJECT_CANBEFALSE : BitVec 32 := 0x01000000

/-- The number of an `LVObjectType`. -/
def LVObjectType.number : LVObjectType → BitVec 32
  | .OT_NULL => 0x00000001 ||| OBJECT_CANBEFALSE
  | .OT_INTEGER => 0x00000002 ||| OBJECT_NUMERIC ||| OBJECT_CANBEFALSE
  | .OT_FLOAT => 0x00000004 ||| OBJECT_NUMERIC ||| OBJECT_CANBEFALSE
  | .OT_BOOL => 0x00000008 ||| OBJECT_CANBEFALSE
  | .OT_STRING => 0x00000010 ||| OBJECT_REF_COUNTED
  | .OT_TABLE => 0x00000020 ||| OBJECT_REF_COUNTED ||| OBJECT_DELEGABLE
  | .OT_ARRAY => 0x00000040 ||| OBJECT_REF_COUNTED
  | .OT_USERDATA => 0x00000080 ||| OBJECT_REF_COUNTED ||| OBJECT_DELEGABLE
  | .OT_CLOSURE => 0x00000100 ||| OBJECT_REF_COUNTED
  | .OT_NATIVECLOSURE => 0x00000200 ||| OBJECT_REF_COUNTED
  | .OT_GENERATOR => 0x00000400 ||| OBJECT_REF_COUNTED
  | .OT_USERPOINTER => 0x00000800
  | .OT_THREAD => 0x00001000 ||| OBJECT_REF_COUNTED
  | .OT_FUNCPROTO => 0x00002000 ||| OBJECT_REF_COUNTED
  | .OT_CLASS => 0x00004000 ||| OBJECT_REF_COUNTED
  | .OT_INSTANCE => 0x00008000 ||| OBJECT_REF_COUNTED ||| OBJECT_DELEGABLE
  | .OT_WEAKREF => 0x00010000 ||| OBJECT_REF_COUNTED
  | .OT_OUTER => 0x00020000 ||| OBJECT_REF_COUNTED

/-- `IdType2Name`; `none` is `NULL`. -/
def IdType2Name (type : BitVec 32) : Option String :=
  match (type &&& RT_MASK).toNat with
  | 0x00000001 => some "null"
  | 0x00000002 => some "integer"
  | 0x00000004 => some "float"
  | 0x00000008 => some "bool"
  | 0x00000010 => some "string"
  | 0x00000020 => some "table"
  | 0x00000040 => some "array"
  | 0x00000400 => some "generator"
  | 0x00000100 | 0x00000200 => some "function"
  | 0x00000080 | 0x00000800 => some "userdata"
  | 0x00001000 => some "thread"
  | 0x00002000 => some "function"
  | 0x00004000 => some "class"
  | 0x00008000 => some "instance"
  | 0x00010000 => some "weakref"
  | 0x00020000 => some "outer"
  | _ => none

namespace Bytecode

open Codec

/-! ## Prototypes -/

/-- An object as the format sees it. `other` is one of the types that cannot be
serialized. -/
inductive Object where
  | null
  | bool (i : BitVec 64)
  | integer (i : BitVec 64)
  | float (f : BitVec 32)
  | string (val : List UInt8)
  | other (type : LVObjectType)
      (not_serialized : type ∉ [.OT_NULL, .OT_BOOL, .OT_INTEGER, .OT_FLOAT, .OT_STRING])
  deriving DecidableEq

def Object.type : Object → LVObjectType
  | .null => .OT_NULL
  | .bool _ => .OT_BOOL
  | .integer _ => .OT_INTEGER
  | .float _ => .OT_FLOAT
  | .string _ => .OT_STRING
  | .other type _ => type

structure LVOuterVar where
  type : BitVec 32
  name : Object
  src : Object
  deriving DecidableEq

structure LVLocalVarInfo where
  name : Object
  start_op : BitVec 64
  end_op : BitVec 64
  pos : BitVec 64
  deriving DecidableEq

structure LVLineInfo where
  line : BitVec 64
  op : BitVec 64
  deriving DecidableEq

structure LVInstruction where
  arg1 : BitVec 32
  op : UInt8
  arg0 : UInt8
  arg2 : UInt8
  arg3 : UInt8
  deriving DecidableEq

structure FunctionPrototype where
  sourcename : Object
  name : Object
  stacksize : BitVec 64
  bgenerator : Bool
  varparams : BitVec 64
  localvarinfos : List LVLocalVarInfo
  lineinfos : List LVLineInfo
  literals : List Object
  parameters : List Object
  functions : List FunctionPrototype
  outervalues : List LVOuterVar
  defaultparams : List (BitVec 64)
  instructions : List LVInstruction

/-- In the order of the stream. -/
structure Counts where
  nliterals : BitVec 64
  nparameters : BitVec 64
  noutervalues : BitVec 64
  nlocalvarinfos : BitVec 64
  nlineinfos : BitVec 64
  ndefaultparams : BitVec 64
  ninstructions : BitVec 64
  nfunctions : BitVec 64

/-- The objects that a prototype holds itself. -/
def FunctionPrototype.objects (f : FunctionPrototype) : List Object :=
  [f.sourcename, f.name] ++ f.literals ++ f.parameters ++
    f.outervalues.flatMap (fun o => [o.src, o.name]) ++ f.localvarinfos.map (·.name)

/-! ## Errors -/

def writeFailure : String := "io error (write function failure)"
def readFailure : String :=
  "io error, read function failure, the origin stream could be corrupted/trucated"
def corruptedStream : String := "invalid or corrupted closure stream"

/-- `printf` shows a `NULL` name like this. -/
def cannotSerialize (type : BitVec 32) : String :=
  "cannot serialize a " ++ (IdType2Name type).getD "(null)"

/-- A tag of four letters. -/
def letters (a b c d : UInt8) : BitVec 32 :=
  a.toBitVec.setWidth 32 <<< 24 ||| b.toBitVec.setWidth 32 <<< 16 |||
    c.toBitVec.setWidth 32 <<< 8 ||| d.toBitVec.setWidth 32

/-- `SQIR`. -/
def CLOSURESTREAM_HEAD : BitVec 32 := letters 0x53 0x51 0x49 0x52
/-- `PART`. -/
def CLOSURESTREAM_PART : BitVec 32 := letters 0x50 0x41 0x52 0x54
/-- `TAIL`. -/
def CLOSURESTREAM_TAIL : BitVec 32 := letters 0x54 0x41 0x49 0x4C
def BYTECODE_STREAM_TAG : BitVec 16 := 0xBEBE

def SIZEOF_CHAR : BitVec 32 := 1
def SIZEOF_INTEGER : BitVec 32 := 8
def SIZEOF_FLOAT : BitVec 32 := 4

/-! ## Saving -/

/-- The callback: how many of the bytes it says it has written. -/
abbrev LVWRITEFUNC := List UInt8 → Int

abbrev Saver := Writer UInt8 String PUnit

section save

variable (write : LVWRITEFUNC)

/-- `SafeWrite`. -/
def safeWrite (bytes : List UInt8) : Saver := do
  Writer.put bytes
  if write bytes ≠ bytes.length then Writer.fail writeFailure else pure ⟨⟩

/-- `WriteTag`. -/
def writeTag (tag : BitVec 32) : Saver := safeWrite write (Bytes.ofBits tag)

def writeInteger (i : BitVec 64) : Saver := safeWrite write (Bytes.ofBits i)

/-- `WriteObject`. -/
def writeObject (o : Object) : Saver := do
  writeTag write o.type.number
  match o with
  | .string val => do
    writeInteger write (BitVec.ofNat 64 val.length)
    safeWrite write val
  | .bool i | .integer i => writeInteger write i
  | .float f => safeWrite write (Bytes.ofBits f)
  | .null => pure ⟨⟩
  | .other type _ => Writer.fail (cannotSerialize type.number)

/-- `padding n` are the bytes between `_type` and `_name` of the record whose `_type` is
written after `n` bytes. -/
def writeOuter (padding : Nat → BitVec 32) (o : LVOuterVar) : Saver := do
  let n ← Writer.position
  safeWrite write (Bytes.ofBits o.type ++ Bytes.ofBits (padding n.down))
  writeObject write o.src
  writeObject write o.name

def writeLocal (lvi : LVLocalVarInfo) : Saver := do
  writeObject write lvi.name
  writeInteger write lvi.pos
  writeInteger write lvi.start_op
  writeInteger write lvi.end_op

def LVLineInfo.bytes (l : LVLineInfo) : List UInt8 := Bytes.ofBits l.line ++ Bytes.ofBits l.op

def LVInstruction.bytes (i : LVInstruction) : List UInt8 :=
  Bytes.ofBits i.arg1 ++ [i.op, i.arg0, i.arg2, i.arg3]

def writeCounts (c : Counts) : Saver := do
  writeInteger write c.nliterals
  writeInteger write c.nparameters
  writeInteger write c.noutervalues
  writeInteger write c.nlocalvarinfos
  writeInteger write c.nlineinfos
  writeInteger write c.ndefaultparams
  writeInteger write c.ninstructions
  writeInteger write c.nfunctions

mutual

/-- `FunctionPrototype::Save`. -/
def save (padding : Nat → BitVec 32) : FunctionPrototype → Saver
  | ⟨sourcename, name, stacksize, bgenerator, varparams, localvarinfos, lineinfos, literals,
      parameters, functions, outervalues, defaultparams, instructions⟩ => do
    writeTag write CLOSURESTREAM_PART
    writeObject write sourcename
    writeObject write name
    writeTag write CLOSURESTREAM_PART
    writeCounts write ⟨.ofNat 64 literals.length, .ofNat 64 parameters.length,
      .ofNat 64 outervalues.length, .ofNat 64 localvarinfos.length, .ofNat 64 lineinfos.length,
      .ofNat 64 defaultparams.length, .ofNat 64 instructions.length, .ofNat 64 functions.length⟩
    writeTag write CLOSURESTREAM_PART
    Writer.each (writeObject write) literals
    writeTag write CLOSURESTREAM_PART
    Writer.each (writeObject write) parameters
    writeTag write CLOSURESTREAM_PART
    Writer.each (writeOuter write padding) outervalues
    writeTag write CLOSURESTREAM_PART
    Writer.each (writeLocal write) localvarinfos
    writeTag write CLOSURESTREAM_PART
    safeWrite write (lineinfos.flatMap LVLineInfo.bytes)
    writeTag write CLOSURESTREAM_PART
    safeWrite write (defaultparams.flatMap Bytes.ofBits)
    writeTag write CLOSURESTREAM_PART
    safeWrite write (instructions.flatMap LVInstruction.bytes)
    writeTag write CLOSURESTREAM_PART
    saveFunctions padding functions
    writeInteger write stacksize
    safeWrite write [if bgenerator then 1 else 0]
    writeInteger write varparams

def saveFunctions (padding : Nat → BitVec 32) : List FunctionPrototype → Saver
  | [] => pure ⟨⟩
  | f :: l => do
    save padding f
    saveFunctions padding l

end

/-- `LVClosure::Save`. -/
def saveClosure (padding : Nat → BitVec 32) (function : FunctionPrototype) : Saver := do
  writeTag write CLOSURESTREAM_HEAD
  writeTag write SIZEOF_CHAR
  writeTag write SIZEOF_INTEGER
  writeTag write SIZEOF_FLOAT
  save write padding function
  writeTag write CLOSURESTREAM_TAIL

end save

/-! ## Loading -/

/-- The callback: what it answers to a request, and the bytes it has stored, which are the
next ones of the data. -/
abbrev LVREADFUNC := Int → List UInt8 → Int × List UInt8

/-- Where the loader uses a length or a count that it has read. -/
inductive Use where
  | scratchPad (size : Int)
  | read (size : Int)
  | string (len : Int)
  | allocate (count : Int)
  | bound (count : Int)
  deriving DecidableEq

def Use.size : Use → Int
  | .scratchPad n | .read n | .string n | .allocate n | .bound n => n

/-- The state the loader works on. In `scratchpad`, whose length is `_scratchpadsize`,
`none` is a byte that nothing has been stored to; `uses` records what has been used. -/
structure Loading where
  scratchpad : List (Option UInt8)
  uses : List Use
  deriving DecidableEq

abbrev Loader (α : Type) := Reader Loading UInt8 String α

def use (u : Use) : Loader PUnit := Reader.update fun s => { s with uses := s.uses ++ [u] }

/-- The number of bytes an object in memory stays below. -/
def MEMORY : Int := 2 ^ 63

/-- `LV_REALLOC(_scratchpad, _scratchpadsize, newsize)`. -/
def reallocScratchPad (newsize : Nat) : Loader PUnit := do
  let s ← Reader.state
  if newsize < MEMORY ∨ newsize ≤ s.scratchpad.length then
    Reader.update fun s => { s with
      scratchpad := s.scratchpad.take newsize ++
        List.replicate (newsize - s.scratchpad.length) none }
  else Reader.undefined

/-- `GetScratchPad`. -/
def getScratchPad (size : Int) : Loader PUnit := do
  let s ← Reader.state
  let scratchpadsize := s.scratchpad.length
  if 0 < size then
    if scratchpadsize < size then reallocScratchPad (size + size / 2).toNat
    else if size * 32 ≤ scratchpadsize then reallocScratchPad (scratchpadsize / 2)
    else pure ⟨⟩
  else pure ⟨⟩

section load

variable (read : LVREADFUNC)

/-- The call of `read`, for a place that has `room` bytes. -/
def transfer (room : Nat) (size : Int) : Loader (Int × List UInt8) := fun s input =>
  let r := read size input
  if r.2.length ≤ room then .ok r s (input.drop r.2.length) else .undefined

/-- `SafeRead`. -/
def safeRead (room : Nat) (size : Int) : Loader (List UInt8) :=
  if size = 0 then pure []
  else do
    let r ← transfer read room size
    if r.1 = size then pure r.2 else Reader.fail readFailure

/-- `SafeRead` to a variable of `w` bits. -/
def readBits (w : Nat) : Loader (BitVec w) := do
  let bytes ← safeRead read (w / 8) ((w / 8 : Nat) : Int)
  return Bytes.toBits w bytes

/-- `CheckTag`. -/
def checkTag (tag : BitVec 32) : Loader PUnit := do
  let t ← readBits read 32
  if t = tag then pure ⟨⟩ else Reader.fail corruptedStream

/-- `SafeRead` to the scratch pad. -/
def readScratchPad (size : Int) : Loader PUnit := do
  let s ← Reader.state
  let stored ← safeRead read s.scratchpad.length size
  Reader.update fun s => { s with
    scratchpad := stored.map some ++ s.scratchpad.drop stored.length }

/-- `LVString::Create`, from the scratch pad. -/
def createString (len : Int) : Loader (List UInt8) := do
  let s ← Reader.state
  let initialized := (s.scratchpad.takeWhile Option.isSome).reduceOption
  match LVStringTable.bytes initialized len with
  | some val => pure val
  | none => Reader.undefined

/-- The string in `ReadObject`, after its length. -/
def readString (len : Int) : Loader (List UInt8) := do
  use (.scratchPad len)
  getScratchPad len
  use (.read len)
  readScratchPad read len
  getScratchPad (-1)
  use (.string len)
  createString len

/-- The `switch` of `ReadObject`. -/
def readPayload (type : BitVec 32) : Loader Object :=
  if type = LVObjectType.OT_STRING.number then do
    let len ← readBits read 64
    let val ← readString read len.toInt
    return .string val
  else if type = LVObjectType.OT_INTEGER.number then do
    let i ← readBits read 64
    return .integer i
  else if type = LVObjectType.OT_BOOL.number then do
    let i ← readBits read 64
    return .bool i
  else if type = LVObjectType.OT_FLOAT.number then do
    let f ← readBits read 32
    return .float f
  else if type = LVObjectType.OT_NULL.number then return .null
  else Reader.fail (cannotSerialize type)

/-- `ReadObject`. -/
def readObject : Loader Object := do
  let type ← readBits read 32
  readPayload read type

def Counts.all (c : Counts) : List Int :=
  [c.nliterals.toInt, c.nparameters.toInt, c.noutervalues.toInt, c.nlocalvarinfos.toInt,
    c.nlineinfos.toInt, c.ndefaultparams.toInt, c.ninstructions.toInt, c.nfunctions.toInt]

/-- `_FUNC_SIZE`. -/
def Counts.size (c : Counts) : Int :=
  232 + (c.ninstructions.toInt - 1) * 8 + c.nliterals.toInt * 16 + c.nparameters.toInt * 16 +
    c.nfunctions.toInt * 16 + c.noutervalues.toInt * 40 + c.nlineinfos.toInt * 16 +
    c.nlocalvarinfos.toInt * 40 + c.ndefaultparams.toInt * 8

/-- `FunctionPrototype::Create`. With a negative count, or a size that overflows, the
arrays lie on each other or leave the block. -/
def create (c : Counts) : Loader PUnit := do
  Reader.update fun s => { s with uses := s.uses ++ c.all.map Use.allocate }
  if (∀ n ∈ c.all, 0 ≤ n) ∧ c.size < MEMORY then pure ⟨⟩ else Reader.undefined

def readCounts : Loader Counts := do
  let nliterals ← readBits read 64
  let nparameters ← readBits read 64
  let noutervalues ← readBits read 64
  let nlocalvarinfos ← readBits read 64
  let nlineinfos ← readBits read 64
  let ndefaultparams ← readBits read 64
  let ninstructions ← readBits read 64
  let nfunctions ← readBits read 64
  return ⟨nliterals, nparameters, noutervalues, nlocalvarinfos, nlineinfos, ndefaultparams,
    ninstructions, nfunctions⟩

/-- `for (i = 0; i < n; i++)`. -/
def loop {α : Type} (n : BitVec 64) (p : Loader α) : Loader (List α) := do
  use (.bound n.toInt)
  Reader.times n.toInt.toNat p

/-- `SafeRead` to an array of `n` records of `size` bytes. -/
def readBlock {α : Type} (size : Nat) (n : BitVec 64) (record : List UInt8 → α) :
    Loader (List α) := do
  let bytes := (BitVec.ofNat 64 size * n).toInt
  use (.read bytes)
  let stored ← safeRead read bytes.toNat bytes
  return (Bytes.blocks size n.toInt.toNat stored).map record

/-- The cast to `LVOuterType` keeps the low bits. -/
def readOuter : Loader LVOuterVar := do
  let type ← readBits read 64
  let o ← readObject read
  let name ← readObject read
  return ⟨type.setWidth 32, name, o⟩

def readLocal : Loader LVLocalVarInfo := do
  let name ← readObject read
  let pos ← readBits read 64
  let start_op ← readBits read 64
  let end_op ← readBits read 64
  return ⟨name, start_op, end_op, pos⟩

def LVLineInfo.ofBytes (bs : List UInt8) : LVLineInfo :=
  ⟨Bytes.toBits 64 (bs.take 8), Bytes.toBits 64 (bs.drop 8)⟩

def LVInstruction.ofBytes (bs : List UInt8) : LVInstruction :=
  ⟨Bytes.toBits 32 (bs.take 4), bs.getD 4 0, bs.getD 5 0, bs.getD 6 0, bs.getD 7 0⟩

/-- `FunctionPrototype::Load` after `Create`; `nested` is its call of itself. -/
def loadArrays (nested : Loader FunctionPrototype) (sourcename name : Object) (c : Counts) :
    Loader FunctionPrototype := do
  checkTag read CLOSURESTREAM_PART
  let literals ← loop c.nliterals (readObject read)
  checkTag read CLOSURESTREAM_PART
  let parameters ← loop c.nparameters (readObject read)
  checkTag read CLOSURESTREAM_PART
  let outervalues ← loop c.noutervalues (readOuter read)
  checkTag read CLOSURESTREAM_PART
  let localvarinfos ← loop c.nlocalvarinfos (readLocal read)
  checkTag read CLOSURESTREAM_PART
  let lineinfos ← readBlock read 16 c.nlineinfos LVLineInfo.ofBytes
  checkTag read CLOSURESTREAM_PART
  let defaultparams ← readBlock read 8 c.ndefaultparams (Bytes.toBits 64)
  checkTag read CLOSURESTREAM_PART
  let instructions ← readBlock read 8 c.ninstructions LVInstruction.ofBytes
  checkTag read CLOSURESTREAM_PART
  let functions ← loop c.nfunctions nested
  let stacksize ← readBits read 64
  let bgenerator ← readBits read 8
  let varparams ← readBits read 64
  return ⟨sourcename, name, stacksize, bgenerator ≠ 0, varparams, localvarinfos, lineinfos,
    literals, parameters, functions, outervalues, defaultparams, instructions⟩

/-- `FunctionPrototype::Load`; the argument is how deep the calls of it may nest. -/
def load : Nat → Loader FunctionPrototype
  | 0 => Reader.undefined
  | depth + 1 => do
    checkTag read CLOSURESTREAM_PART
    let sourcename ← readObject read
    let name ← readObject read
    checkTag read CLOSURESTREAM_PART
    let c ← readCounts read
    create c
    loadArrays read (load depth) sourcename name c

/-- `LVClosure::Load`, up to the creation of the closure. -/
def loadClosure (depth : Nat) : Loader FunctionPrototype := do
  checkTag read CLOSURESTREAM_HEAD
  checkTag read SIZEOF_CHAR
  checkTag read SIZEOF_INTEGER
  checkTag read SIZEOF_FLOAT
  let func ← load read depth
  checkTag read CLOSURESTREAM_TAIL
  return func

end load

/-! ## The interface -/

/-- What is on the stack. -/
inductive Value where
  | object (o : Object)
  | closure (function : FunctionPrototype)

/-- The top of the stack is its head. -/
structure LVVM where
  stack : List Value
  lasterror : String
  loading : Loading

inductive LVRESULT where
  | LV_OK
  | LV_ERROR
  deriving DecidableEq

def LVVM.throw (v : LVVM) (error : String) : LVVM := { v with lasterror := error }

/-- `lv_writeclosure`, and the bytes that were written; `none` on an empty stack.
`printObjVal` is `PrintObjVal`. -/
def lv_writeclosure (printObjVal : Object → String) (write : LVWRITEFUNC)
    (padding : Nat → BitVec 32) (v : LVVM) : Option (LVRESULT × LVVM × List UInt8) :=
  match v.stack with
  | .closure function :: _ =>
    if function.outervalues ≠ [] then
      some (.LV_ERROR, v.throw "a closure with free valiables bound it cannot be serialized", [])
    else
      let tag := Bytes.ofBits BYTECODE_STREAM_TAG
      if write tag ≠ 2 then some (.LV_ERROR, v.throw "io error", tag)
      else
        match saveClosure write padding function tag with
        | (.ok _, bytes) => some (.LV_OK, v, bytes)
        | (.error e, bytes) => some (.LV_ERROR, v.throw e, bytes)
  | .object o :: _ => some (.LV_ERROR, v.throw ("wrong argument type, expected 'function' got '"
      ++ (printObjVal o).take 50 ++ "'"), [])
  | [] => none

def readStreamTag (read : LVREADFUNC) : Loader (BitVec 16) := do
  let r ← transfer read 2 2
  if r.1 ≠ 2 then Reader.fail "io error" else pure (Bytes.toBits 16 r.2)

/-- The reads of `lv_readclosure`. -/
def readClosure (read : LVREADFUNC) (depth : Nat) : Loader FunctionPrototype := do
  let tag ← readStreamTag read
  if tag ≠ BYTECODE_STREAM_TAG then Reader.fail "invalid stream" else loadClosure read depth

/-- `lv_readclosure`; `none` where a step has no defined meaning. -/
def lv_readclosure (read : LVREADFUNC) (depth : Nat) (v : LVVM) (input : List UInt8) :
    Option (LVRESULT × LVVM) :=
  match readClosure read depth v.loading input with
  | .ok closure loading _ => some (.LV_OK,
      { v with stack := .closure closure :: v.stack, loading := loading })
  | .fail e loading => some (.LV_ERROR, { v with lasterror := e, loading := loading })
  | .undefined => none

/-! ## The callbacks for a file -/

/-- `file_read`. To `fread` a negative size is a large one. -/
def file_read : LVREADFUNC := fun size input =>
  let ret := if 0 ≤ size then min size.toNat input.length else input.length
  if ret ≠ 0 then (ret, input.take ret) else (-1, [])

def file_write : LVWRITEFUNC := fun bytes => bytes.length

end Bytecode

end Lavril
