import Lavril.Vm

/-!
# Operations that call metamethods

`Get`, `Set`, `NewSlot` and the other operations on objects push the operands of
a metamethod, call it, and pop them again on every way out. What an object
holds is read and written by operations that call no script: those, and `Call`
itself, are given by `Objects`. `none` as a result is a failure, for which the
error is in `_lasterror`.
-/

namespace Lavril

inductive LVMetaMethod where
  | MT_ADD | MT_SUB | MT_MUL | MT_DIV | MT_UNM | MT_MODULO | MT_SET | MT_GET | MT_TYPEOF
  | MT_NEXTI | MT_CMP | MT_CALL | MT_CLONED | MT_NEWSLOT | MT_DELSLOT | MT_TOSTRING
  | MT_NEWMEMBER | MT_INHERITED
  deriving DecidableEq

/-- A call of a metamethod that has come back. -/
structure MetaCall where
  mm : LVMetaMethod
  /-- It has failed with `_lasterror` null, which stands for "not found". -/
  notFound : Bool
  /-- `_top` and `_nmetamethodscall` are as before the call. -/
  kept : Bool

/-- The virtual machine with the last error, the objects, and the calls of
metamethods that have been made. -/
structure MetaVM (Heap : Type) extends LVVM where
  lasterror : LVObject
  objects : Heap
  calls : List MetaCall

/-- What the operations use of the objects. -/
structure Objects (Heap : Type) where
  /-- `Get` of a table, an instance or a class, or of an array or a string at a number. -/
  get : Heap → LVObject → LVObject → Option LVObject
  /-- `Set` of a table, an instance, or of an array at a number. -/
  set : Heap → LVObject → LVObject → LVObject → Option Heap
  delegate : Heap → LVObject → Option LVObject
  getMetaMethod : Heap → LVObject → LVMetaMethod → Option LVObject
  invokeDefaultDelegate : Heap → LVObject → LVObject → Option LVObject
  /-- `_root` of the running closure, unless it is gone. -/
  root : MetaVM Heap → Option LVObject
  roottable : LVObject
  /-- `NewSlot` of a table, which cannot fail, or of a class. -/
  newSlot : Heap → LVObject → LVObject → LVObject → Bool → Option Heap
  locked : Heap → LVObject → Bool
  setAttributes : Heap → LVObject → LVObject → LVObject → Heap
  remove : Heap → LVObject → LVObject → Heap
  clone : Heap → LVObject → LVObject × Heap
  /-- `Next` of a table or an array from a position on, with the next position. -/
  next : Heap → LVObject → Nat → Option (Nat × LVObject × LVObject)
  /-- `CountUsed` of a table, `Size` of an array. -/
  count : Heap → LVObject → Nat
  /-- `_obj` of a weak reference. -/
  referent : Heap → LVObject → LVObject
  /-- A float in the formats `%g` and `%.14g`. -/
  floatText : LVObject → String
  floatText14 : LVObject → String
  /-- The floating point operation on two numbers. -/
  floatOp : Char → LVObject → LVObject → LVObject
  floatNeg : LVObject → LVObject
  /-- Whether one number is less than, or equal to, another; one is a float. -/
  floatLess : LVObject → LVObject → Bool
  floatEqual : LVObject → LVObject → Bool
  /-- `Call` with the value it gives. -/
  call : LVObject → Nat → Int → MetaVM Heap → Option LVObject × MetaVM Heap

/-- `lv_isnumeric`. -/
def LVObjectType.isnumeric (type : LVObjectType) : Bool :=
  type = .OT_INTEGER || type = .OT_FLOAT

/-- `is_delegable`. -/
def LVObjectType.isDelegable (type : LVObjectType) : Bool :=
  type = .OT_TABLE || type = .OT_USERDATA || type = .OT_INSTANCE

/-- `IdType2Name`. -/
def LVObjectType.name : LVObjectType → String
  | .OT_NULL => "null" | .OT_INTEGER => "integer" | .OT_FLOAT => "float" | .OT_BOOL => "bool"
  | .OT_STRING => "string" | .OT_TABLE => "table" | .OT_ARRAY => "array"
  | .OT_GENERATOR => "generator" | .OT_CLOSURE | .OT_NATIVECLOSURE | .OT_FUNCPROTO => "function"
  | .OT_USERDATA | .OT_USERPOINTER => "userdata" | .OT_THREAD => "thread" | .OT_CLASS => "class"
  | .OT_INSTANCE => "instance" | .OT_WEAKREF => "weakref" | .OT_OUTER => "outer"

namespace LVObject

/-- The union as an integer; the address of a string is not represented. -/
def bits (o : LVObject) : BitVec 64 :=
  match o.unVal with
  | .raw bits => bits
  | .pString _ => 0

def text (o : LVObject) : String :=
  match o.unVal with
  | .raw _ => ""
  | .pString text => text

end LVObject

abbrev ObjectM (Heap : Type) := StateT (MetaVM Heap) Option

namespace ObjectM

variable {Heap : Type} (W : Objects Heap)

def push (o : LVObject) : ObjectM Heap Unit :=
  modify fun s => { s with toLVVM := s.toLVVM.push o }

def pop (n : Nat) : ObjectM Heap Unit :=
  modify fun s => { s with toLVVM := s.toLVVM.pop n }

/-- `_nmetamethodscall++`. -/
def enterMetaMethod : ObjectM Heap Unit :=
  modify fun s => { s with nmetamethodscall := s.nmetamethodscall + 1 }

/-- `_nmetamethodscall--`, by hand or by the `AutoDec` of a scope. -/
def leaveMetaMethod : ObjectM Heap Unit :=
  modify fun s => { s with nmetamethodscall := s.nmetamethodscall - 1 }

def setObjects (objects : Heap) : ObjectM Heap Unit :=
  modify fun s => { s with objects := objects }

def Raise_Error (text : String) : ObjectM Heap Unit :=
  modify fun s => { s with lasterror := .string text }

/-- Raises an error and fails. -/
def raise {α : Type} (text : String) : ObjectM Heap (Option α) := do
  Raise_Error text
  return none

def PrintObjVal (o : LVObject) : String :=
  match o.type with
  | .OT_STRING => o.text
  | .OT_INTEGER => toString o.bits.toInt
  | .OT_FLOAT => W.floatText14 o
  | type => type.name

def idxError (o : LVObject) : String :=
  "the index '" ++ String.ofList ((PrintObjVal W o).toList.take 50) ++ "' does not exist"

def compareError (o1 o2 : LVObject) : String :=
  "comparison between '" ++ String.ofList ((PrintObjVal W o1).toList.take 50) ++ "' and '" ++
    String.ofList ((PrintObjVal W o2).toList.take 50) ++ "'"

/-- `Call` of a metamethod with its operands on top of the stack. -/
def call (mm : LVMetaMethod) (closure : LVObject) (nparams : Nat) :
    ObjectM Heap (Option LVObject) := fun s =>
  let (result, s') := W.call closure nparams (s.top - nparams) s
  some (result, { s' with
    calls := s.calls ++ [{
      mm
      notFound := result.isNone && s'.lasterror.type = .OT_NULL
      kept := s'.top = s.top && s'.nmetamethodscall = s.nmetamethodscall }] })

def CallMetaMethod (closure : LVObject) (mm : LVMetaMethod) (nparams : Nat) :
    ObjectM Heap (Option LVObject) := do
  enterMetaMethod
  let outres ← call W mm closure nparams
  leaveMetaMethod
  pop nparams
  return outres

/-- `GetMetaMethod` of an object that has a delegate. -/
def delegateMetaMethod (objects : Heap) (o : LVObject) (mm : LVMetaMethod) : Option LVObject :=
  (W.delegate objects o).bind fun _ => W.getMetaMethod objects o mm

/-- The same, of an object of any type. -/
def delegableMetaMethod (objects : Heap) (o : LVObject) (mm : LVMetaMethod) : Option LVObject :=
  if o.type.isDelegable then delegateMetaMethod W objects o mm else none

/-! ## `Get` -/

inductive Fallback (α : Type) where
  | FALLBACK_OK (a : α)
  | FALLBACK_NO_MATCH
  | FALLBACK_ERROR

/-- What the receiver itself has for a key. -/
inductive Own where
  | found (val : LVObject)
  | outOfRange
  | missing

def own (objects : Heap) (self key : LVObject) : Own :=
  match self.type with
  | .OT_TABLE | .OT_INSTANCE | .OT_CLASS => (W.get objects self key).elim .missing .found
  | .OT_ARRAY | .OT_STRING =>
    if key.type.isnumeric then (W.get objects self key).elim .outOfRange .found else .missing
  | _ => .missing

/-- The metamethod of `FallBackGet`. -/
def getMetaMethod (self key : LVObject) : ObjectM Heap (Fallback LVObject) := do
  match W.getMetaMethod (← get).objects self .MT_GET with
  | none => return .FALLBACK_NO_MATCH
  | some closure =>
    push self
    push key
    enterMetaMethod
    match ← call W .MT_GET closure 2 with
    | some dest =>
      pop 2
      leaveMetaMethod
      return .FALLBACK_OK dest
    | none =>
      pop 2
      leaveMetaMethod
      return if (← get).lasterror.type ≠ .OT_NULL then .FALLBACK_ERROR else .FALLBACK_NO_MATCH

/-- `FallBackGet`; `getDelegate` is `Get` on the delegate. -/
def FallBackGet (getDelegate : LVObject → ObjectM Heap (Option LVObject)) (self key : LVObject) :
    ObjectM Heap (Fallback LVObject) := do
  match self.type with
  | .OT_TABLE | .OT_USERDATA =>
    match W.delegate (← get).objects self with
    | none => return .FALLBACK_NO_MATCH
    | some delegate =>
      match ← getDelegate delegate with
      | some dest => return .FALLBACK_OK dest
      | none => getMetaMethod W self key
  | .OT_INSTANCE => getMetaMethod W self key
  | _ => return .FALLBACK_NO_MATCH

/-- The fallbacks of `Get`, which `GET_FLAG_RAW` leaves out. -/
def getFallback (raw : Bool) (getDelegate : LVObject → ObjectM Heap (Option LVObject))
    (self key : LVObject) : ObjectM Heap (Fallback LVObject) :=
  if raw then return .FALLBACK_NO_MATCH else FallBackGet W getDelegate self key

/-- There is no such index, which `GET_FLAG_DO_NOT_RAISE_ERROR` keeps quiet about. -/
def noIndex (quiet : Bool) (key : LVObject) : ObjectM Heap (Option LVObject) :=
  if quiet then return none else raise (idxError W key)

/-- `Get`. `raw` and `quiet` are the flags, `selfidx0` is `selfidx == 0`. -/
def Get : Nat → LVObject → LVObject → Bool → Bool → Bool → ObjectM Heap (Option LVObject)
  | 0, _, _, _, _, _ => failure
  | fuel + 1, self, key, raw, quiet, selfidx0 => do
    match own W (← get).objects self key with
    | .found val => return some val
    | .outOfRange => noIndex W quiet key
    | .missing =>
      match ← getFallback W raw (fun d => Get fuel d key false false false) self key with
      | .FALLBACK_OK dest => return some dest
      | .FALLBACK_ERROR => return none
      | .FALLBACK_NO_MATCH =>
        let s ← get
        match if raw then none else W.invokeDefaultDelegate s.objects self key with
        | some dest => return some dest
        | none =>
          match if selfidx0 then W.root s else none with
          | none => noIndex W quiet key
          | some root =>
            match ← Get fuel root key false false false with
            | some dest => return some dest
            | none => noIndex W quiet key

/-! ## `Set` -/

/-- The metamethod of `FallBackSet`. When it fails with null its operands stay. -/
def setMetaMethod (self key val : LVObject) : ObjectM Heap (Fallback Unit) := do
  match W.getMetaMethod (← get).objects self .MT_SET with
  | none => return .FALLBACK_NO_MATCH
  | some closure =>
    push self
    push key
    push val
    enterMetaMethod
    match ← call W .MT_SET closure 3 with
    | some _ =>
      pop 3
      leaveMetaMethod
      return .FALLBACK_OK ()
    | none =>
      if (← get).lasterror.type ≠ .OT_NULL then
        pop 3
        leaveMetaMethod
        return .FALLBACK_ERROR
      else
        leaveMetaMethod
        return .FALLBACK_NO_MATCH

/-- `FallBackSet`; `setDelegate` is `Set` on the delegate. -/
def FallBackSet (setDelegate : LVObject → ObjectM Heap (Option Unit)) (self key val : LVObject) :
    ObjectM Heap (Fallback Unit) := do
  match self.type with
  | .OT_TABLE =>
    match W.delegate (← get).objects self with
    | none => setMetaMethod W self key val
    | some delegate =>
      match ← setDelegate delegate with
      | some () => return .FALLBACK_OK ()
      | none => setMetaMethod W self key val
  | .OT_INSTANCE | .OT_USERDATA => setMetaMethod W self key val
  | _ => return .FALLBACK_NO_MATCH

/-- `Set` of a table or an instance that has no such slot. -/
def setFallback (setDelegate : LVObject → ObjectM Heap (Option Unit)) (self key val : LVObject)
    (selfidx0 : Bool) : ObjectM Heap (Option Unit) := do
  match ← FallBackSet W setDelegate self key val with
  | .FALLBACK_OK () => return some ()
  | .FALLBACK_ERROR => return none
  | .FALLBACK_NO_MATCH =>
    let s ← get
    match if selfidx0 then W.set s.objects W.roottable key val else none with
    | some objects =>
      setObjects objects
      return some ()
    | none => raise (idxError W key)

def Set : Nat → LVObject → LVObject → LVObject → Bool → ObjectM Heap (Option Unit)
  | 0, _, _, _, _ => failure
  | fuel + 1, self, key, val, selfidx0 => do
    match self.type with
    | .OT_TABLE | .OT_INSTANCE =>
      match W.set (← get).objects self key val with
      | some objects =>
        setObjects objects
        return some ()
      | none => setFallback W (fun d => Set fuel d key val false) self key val selfidx0
    | .OT_ARRAY =>
      if key.type.isnumeric then
        match W.set (← get).objects self key val with
        | some objects =>
          setObjects objects
          return some ()
        | none => raise (idxError W key)
      else raise ("indexing " ++ self.type.name ++ " with " ++ key.type.name)
    | type => raise ("trying to set '" ++ type.name ++ "'")

/-! ## New slots, removed slots and clones -/

/-- The metamethod for a new slot of a table, which has none at the key. -/
def newSlotMetaMethod (objects : Heap) (self key : LVObject) : Option LVObject :=
  if (W.get objects self key).isNone then delegateMetaMethod W objects self .MT_NEWSLOT else none

def NewSlot (self key val : LVObject) (bstatic : Bool) : ObjectM Heap (Option Unit) := do
  let s ← get
  if key.type = .OT_NULL then raise "null cannot be used as index"
  else
    match self.type with
    | .OT_TABLE =>
      match newSlotMetaMethod W s.objects self key with
      | some closure =>
        push self
        push key
        push val
        return (← CallMetaMethod W closure .MT_NEWSLOT 3).map fun _ => ()
      | none =>
        setObjects ((W.newSlot s.objects self key val bstatic).getD s.objects)
        return some ()
    | .OT_INSTANCE =>
      match delegateMetaMethod W s.objects self .MT_NEWSLOT with
      | some closure =>
        push self
        push key
        push val
        return (← CallMetaMethod W closure .MT_NEWSLOT 3).map fun _ => ()
      | none => raise "class instances do not support the new slot operator"
    | .OT_CLASS =>
      match W.newSlot s.objects self key val bstatic with
      | some objects =>
        setObjects objects
        return some ()
      | none =>
        if W.locked s.objects self then
          raise "trying to modify a class that has already been instantiated"
        else raise ("the property '" ++ PrintObjVal W key ++ "' already exists")
    | type => raise ("indexing " ++ type.name ++ " with " ++ key.type.name)

def newMemberMetaMethod (objects : Heap) (self : LVObject) (raw : Bool) : Option LVObject :=
  if raw then none else W.getMetaMethod objects self .MT_NEWMEMBER

def NewSlotA (self key val attrs : LVObject) (bstatic raw : Bool) : ObjectM Heap (Option Unit) := do
  if self.type ≠ .OT_CLASS then raise "object must be a class"
  else
    match newMemberMetaMethod W (← get).objects self raw with
    | some mm =>
      push self
      push key
      push val
      push attrs
      push (.bool bstatic)
      return (← CallMetaMethod W mm .MT_NEWMEMBER 5).map fun _ => ()
    | none =>
      match ← NewSlot W self key val bstatic with
      | none => return none
      | some () =>
        if attrs.type ≠ .OT_NULL then
          setObjects (W.setAttributes (← get).objects self key attrs)
        return some ()

def DeleteSlot (self key : LVObject) : ObjectM Heap (Option LVObject) := do
  let s ← get
  if self.type.isDelegable then
    match delegateMetaMethod W s.objects self .MT_DELSLOT with
    | some closure =>
      push self
      push key
      CallMetaMethod W closure .MT_DELSLOT 2
    | none =>
      if self.type = .OT_TABLE then
        match W.get s.objects self key with
        | some t =>
          setObjects (W.remove s.objects self key)
          return some t
        | none => raise (idxError W key)
      else raise ("cannot delete a slot from " ++ self.type.name)
  else raise ("attempt to delete a slot from a " ++ self.type.name)

def Clone (self : LVObject) : ObjectM Heap (Option LVObject) := do
  match self.type with
  | .OT_TABLE | .OT_INSTANCE =>
    let (newobj, objects) := W.clone (← get).objects self
    setObjects objects
    match delegateMetaMethod W objects newobj .MT_CLONED with
    | some closure =>
      push newobj
      push self
      return (← CallMetaMethod W closure .MT_CLONED 2).map fun _ => newobj
    | none => return some newobj
  | .OT_ARRAY =>
    let (target, objects) := W.clone (← get).objects self
    setObjects objects
    return some target
  | type => raise ("cloning a " ++ type.name)

/-! ## Texts -/

/-- `StringCat`; `toStr` is `ToString`. -/
def stringCatWith (toStr : LVObject → ObjectM Heap (Option LVObject)) (str obj : LVObject) :
    ObjectM Heap (Option LVObject) := do
  match ← toStr str with
  | none => return none
  | some a =>
    match ← toStr obj with
    | none => return none
    | some b => return some (.string (a.text ++ b.text))

/-- `StringCat(str, piece, str)` for one piece after the other, whatever it answers. -/
def catAll (toStr : LVObject → ObjectM Heap (Option LVObject)) :
    List LVObject → LVObject → ObjectM Heap LVObject
  | [], str => return str
  | piece :: pieces, str => do
    let dest ← stringCatWith toStr str piece
    catAll toStr pieces (dest.getD str)

def indent (n : Nat) : List LVObject := List.replicate n (.string "  ")

/-- The loop of `ToString` over a table or an array. `rs` keeps the last text. -/
def entries (toStr : LVObject → ObjectM Heap (Option LVObject))
    (toStrIn : LVObject → ObjectM Heap (Option LVObject)) (o : LVObject) (ident : Nat)
    (line : LVObject → LVObject → List LVObject) :
    Nat → Nat → LVObject → LVObject → ObjectM Heap LVObject
  | 0, _, _, _ => failure
  | steps + 1, refidx, rs, str => do
    match W.next (← get).objects o refidx with
    | none => return str
    | some (idx, key, val) =>
      let rs := (← toStrIn val).getD rs
      let str ← catAll toStr (indent (ident + 1) ++ line key rs) str
      entries toStr toStrIn o ident line steps idx rs str

def container (toStr toStrIn : LVObject → ObjectM Heap (Option LVObject)) (steps : Nat)
    (o : LVObject) (ident : Nat) (first last : String) (line : LVObject → LVObject → List LVObject) :
    ObjectM Heap (Option LVObject) := do
  let str ← entries W toStr toStrIn o ident line steps 0 .null (.string first)
  let empty := W.count (← get).objects o = 0
  let str ← catAll toStr (if empty then indent (ident + 1) ++ [.string "(empty)\n"] else []) str
  return some (← catAll toStr (indent ident ++ [.string last]) str)

/-- `ToString`. -/
def ToString : Nat → LVObject → Nat → ObjectM Heap (Option LVObject)
  | 0, _, _ => failure
  | fuel + 1, o, ident => do
    let toStr := fun o => ToString fuel o 0
    match o.type with
    | .OT_STRING => return some o
    | .OT_FLOAT => return some (.string (W.floatText o))
    | .OT_INTEGER => return some (.string (toString o.bits.toInt))
    | .OT_BOOL => return some (.string (if o.bits ≠ 0 then "true" else "false"))
    | .OT_TABLE =>
      container W toStr (fun o => ToString fuel o (ident + 1)) fuel o ident "(table) \x7b\n" "\x7d"
        fun key rs => [key, .string " = ", rs, .string ",\n"]
    | .OT_ARRAY =>
      container W toStr (fun o => ToString fuel o (ident + 1)) fuel o ident "(array) [\n" "]"
        fun key rs => [.string "[", key, .string "] = ", rs, .string ",\n"]
    | .OT_WEAKREF =>
      let rs ← toStr (W.referent (← get).objects o)
      return some (← catAll toStr [rs.getD .null] (.string "(weak reference) -> "))
    | .OT_USERDATA | .OT_INSTANCE =>
      match delegateMetaMethod W (← get).objects o .MT_TOSTRING with
      | none => return some (.string ("(" ++ o.type.name ++ ")"))
      | some closure =>
        push o
        match ← CallMetaMethod W closure .MT_TOSTRING 1 with
        | none => return none
        | some res =>
          return some (if res.type = .OT_STRING then res else .string ("(" ++ o.type.name ++ ")"))
    | type => return some (.string ("(" ++ type.name ++ ")"))

def StringCat (fuel : Nat) (str obj : LVObject) : ObjectM Heap (Option LVObject) :=
  stringCatWith (fun o => ToString W fuel o 0) str obj

def TypeOf (o : LVObject) : ObjectM Heap (Option LVObject) := do
  match delegableMetaMethod W (← get).objects o .MT_TYPEOF with
  | some closure =>
    push o
    CallMetaMethod W closure .MT_TYPEOF 1
  | none => return some (.string o.type.name)

/-! ## Arithmetic and comparison -/

def arithMethod : Char → LVMetaMethod
  | '+' => .MT_ADD | '-' => .MT_SUB | '/' => .MT_DIV | '*' => .MT_MUL | '%' => .MT_MODULO
  | _ => .MT_ADD

def ArithMetaMethod (op : Char) (o1 o2 : LVObject) : ObjectM Heap (Option LVObject) := do
  match delegableMetaMethod W (← get).objects o1 (arithMethod op) with
  | some closure =>
    push o1
    push o2
    CallMetaMethod W closure (arithMethod op) 2
  | none => raise ("arith op " ++ op.toString ++ " on between '" ++ o1.type.name ++ "' and '" ++
      o2.type.name ++ "'")

/-- `INT_MIN`, of a 32-bit `int`. -/
def intMin : BitVec 64 := BitVec.ofInt 64 (-2 ^ 31)

/-- The integer case of `ARITH_OP`: the result, or the error. -/
def arithInteger (op : Char) (i1 i2 : BitVec 64) : Except String (BitVec 64) :=
  match op with
  | '+' => .ok (i1 + i2)
  | '-' => .ok (i1 - i2)
  | '/' =>
    if i2 = 0 then .error "division by zero"
    else if i2 = -1 ∧ i1 = intMin then .error "integer overflow"
    else .ok (i1.sdiv i2)
  | '*' => .ok (i1 * i2)
  | '%' =>
    if i2 = 0 then .error "modulo by zero"
    else if i2 = -1 ∧ i1 = intMin then .ok 0
    else .ok (i1.srem i2)
  | _ => .ok 0xDEADBEEF

def ARITH_OP (fuel : Nat) (op : Char) (o1 o2 : LVObject) : ObjectM Heap (Option LVObject) :=
  if o1.type = .OT_INTEGER ∧ o2.type = .OT_INTEGER then
    match arithInteger op o1.bits o2.bits with
    | .ok res => return some (.integer res)
    | .error text => raise text
  else if o1.type.isnumeric ∧ o2.type.isnumeric then return some (W.floatOp op o1 o2)
  else if op = '+' ∧ (o1.type = .OT_STRING ∨ o2.type = .OT_STRING) then StringCat W fuel o1 o2
  else ArithMetaMethod W op o1 o2

def NEG_OP (o : LVObject) : ObjectM Heap (Option LVObject) := do
  match o.type with
  | .OT_INTEGER => return some (.integer (-o.bits))
  | .OT_FLOAT => return some (W.floatNeg o)
  | type =>
    match delegableMetaMethod W (← get).objects o .MT_UNM with
    | some closure =>
      push o
      CallMetaMethod W closure .MT_UNM 1
    | none => raise ("attempt to negate a " ++ type.name)

/-- `scstrcmp`: the sign, of the texts up to a NUL. -/
def strcmp (s1 s2 : String) : Int :=
  let a := s1.toList.takeWhile (· ≠ '\x00')
  let b := s2.toList.takeWhile (· ≠ '\x00')
  if a = b then 0 else if a < b then -1 else 1

/-- The cases of `ObjCmp` that look at the values only. -/
def compareValues (o1 o2 : LVObject) : Option Int :=
  if o1.type = o2.type then
    match o1.type with
    | .OT_STRING => some (strcmp o1.text o2.text)
    | .OT_INTEGER => some (if o1.bits.slt o2.bits then -1 else 1)
    | .OT_FLOAT => some (if W.floatLess o1 o2 then -1 else 1)
    | _ => some (if o1.bits < o2.bits then -1 else 1)
  else if o1.type.isnumeric ∧ o2.type.isnumeric then
    some (if W.floatEqual o1 o2 then 0 else if W.floatLess o1 o2 then -1 else 1)
  else if o1.type = .OT_NULL then some (-1)
  else if o2.type = .OT_NULL then some 1
  else none

def cmpMetaMethod (objects : Heap) (o1 o2 : LVObject) : Option LVObject :=
  if o1.type = o2.type then delegableMetaMethod W objects o1 .MT_CMP else none

def ObjCmp (o1 o2 : LVObject) : ObjectM Heap (Option Int) := do
  if o1 = o2 then return some 0
  else
    match cmpMetaMethod W (← get).objects o1 o2 with
    | some closure =>
      push o1
      push o2
      match ← CallMetaMethod W closure .MT_CMP 2 with
      | none => return none
      | some res =>
        if res.type ≠ .OT_INTEGER then raise "_cmp must return an integer"
        else return some res.bits.toInt
    | none =>
      match compareValues W o1 o2 with
      | some result => return some result
      | none => raise (compareError W o1 o2)

inductive CmpOP where
  | CMP_G | CMP_GE | CMP_L | CMP_LE | CMP_3W

def CMP_OP (op : CmpOP) (o1 o2 : LVObject) : ObjectM Heap (Option LVObject) := do
  return (← ObjCmp W o1 o2).map fun r =>
    match op with
    | .CMP_G => .bool (r > 0)
    | .CMP_GE => .bool (r ≥ 0)
    | .CMP_L => .bool (r < 0)
    | .CMP_LE => .bool (r ≤ 0)
    | .CMP_3W => .integer (BitVec.ofInt 64 r)

end ObjectM

/-- The operations, with their arguments. -/
inductive ObjectOp where
  | get (self key : LVObject) (raw quiet selfidx0 : Bool)
  | set (self key val : LVObject) (selfidx0 : Bool)
  | newSlot (self key val : LVObject) (bstatic : Bool)
  | newSlotA (self key val attrs : LVObject) (bstatic raw : Bool)
  | deleteSlot (self key : LVObject)
  | clone (self : LVObject)
  | toString (o : LVObject) (ident : Nat)
  | stringCat (str obj : LVObject)
  | typeOf (o : LVObject)
  | objCmp (o1 o2 : LVObject)
  | cmpOp (op : ObjectM.CmpOP) (o1 o2 : LVObject)
  | arithOp (op : Char) (o1 o2 : LVObject)
  | negOp (o : LVObject)

/-- Runs an operation; its result does not matter here. -/
def ObjectOp.run {Heap : Type} (W : Objects Heap) (fuel : Nat) : ObjectOp → ObjectM Heap Unit
  | .get self key raw quiet selfidx0 => discard (ObjectM.Get W fuel self key raw quiet selfidx0)
  | .set self key val selfidx0 => discard (ObjectM.Set W fuel self key val selfidx0)
  | .newSlot self key val bstatic => discard (ObjectM.NewSlot W self key val bstatic)
  | .newSlotA self key val attrs bstatic raw =>
    discard (ObjectM.NewSlotA W self key val attrs bstatic raw)
  | .deleteSlot self key => discard (ObjectM.DeleteSlot W self key)
  | .clone self => discard (ObjectM.Clone W self)
  | .toString o ident => discard (ObjectM.ToString W fuel o ident)
  | .stringCat str obj => discard (ObjectM.StringCat W fuel str obj)
  | .typeOf o => discard (ObjectM.TypeOf W o)
  | .objCmp o1 o2 => discard (ObjectM.ObjCmp W o1 o2)
  | .cmpOp op o1 o2 => discard (ObjectM.CMP_OP W op o1 o2)
  | .arithOp op o1 o2 => discard (ObjectM.ARITH_OP W fuel op o1 o2)
  | .negOp o => discard (ObjectM.NEG_OP W o)

end Lavril
