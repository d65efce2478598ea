import Lavril.TableOperations
import Lavril.Metamethod

/-!
# Classes and instances

A class keeps for each of its members an integer in a table: the index of a default value
or of a method, with a bit that says which. A class that is derived starts with copies of
its base's table and arrays. Classes and instances are known by the order in which they
were created, and none is freed.

`none` as the result of an operation means a failed assertion or an access outside an
array.
-/

namespace Lavril
namespace Classes

structure LVClassMember where
  val : LVObject
  attrs : LVObject

structure LVClass where
  members : LVTable
  base : Option Nat
  defaultvalues : List LVClassMember
  methods : List LVClassMember
  metamethods : LVMetaMethod → LVObject
  abstract : Bool
  locked : Bool
  constructoridx : Int

structure LVInstance where
  /-- `_class`. -/
  theclass : Nat
  values : List LVObject

structure ClassHeap where
  classes : Nat → Option LVClass
  nclasses : Nat
  instances : Nat → Option LVInstance
  ninstances : Nat

/-! ## Member indices -/

def MEMBER_TYPE_METHOD : BitVec 64 := 0x01000000
def MEMBER_TYPE_FIELD : BitVec 64 := 0x02000000

/-- `_integer`. -/
def integerOf (o : LVObject) : BitVec 64 :=
  match o.unVal with
  | .raw bits => bits
  | .pString _ => 0

def isfield (o : LVObject) : Bool := integerOf o &&& MEMBER_TYPE_FIELD ≠ 0
def ismethod (o : LVObject) : Bool := integerOf o &&& MEMBER_TYPE_METHOD ≠ 0
def memberIdx (o : LVObject) : Nat := (integerOf o &&& 0x00FFFFFF).toNat
def makeMethodIdx (i : Nat) : LVObject := .integer (MEMBER_TYPE_METHOD ||| .ofNat 64 i)
def makeFieldIdx (i : Nat) : LVObject := .integer (MEMBER_TYPE_FIELD ||| .ofNat 64 i)

/-- What the operations use of the rest: the hash function, how much deeper than twice
the table's recursion may go, what weak references refer to, and the copy of a closure
for a class with this base. -/
structure ClassEnv where
  HashObj : LVObject → Nat
  depth : Nat
  weakref : LVObjectValue → LVObject
  cloneFor : Nat → LVObject → LVObject

/-- The names of the metamethods. -/
def metamethodNames : List (String × LVMetaMethod) :=
  [("_add", .MT_ADD), ("_sub", .MT_SUB), ("_mul", .MT_MUL), ("_div", .MT_DIV), ("_unm", .MT_UNM),
    ("_modulo", .MT_MODULO), ("_set", .MT_SET), ("_get", .MT_GET), ("_typeof", .MT_TYPEOF),
    ("_nexti", .MT_NEXTI), ("_cmp", .MT_CMP), ("_call", .MT_CALL), ("_cloned", .MT_CLONED),
    ("_newslot", .MT_NEWSLOT), ("_delslot", .MT_DELSLOT), ("_tostring", .MT_TOSTRING),
    ("_newmember", .MT_NEWMEMBER), ("_inherited", .MT_INHERITED)]

/-- `GetMetaMethodIdxByName`. -/
def getMetaMethodIdxByName : LVObject → Option LVMetaMethod
  | ⟨.OT_STRING, .pString name⟩ => metamethodNames.lookup name
  | _ => none

/-- Stores to an element of an array. -/
def setVal (l : List LVClassMember) (i : Nat) (val : LVObject) : Option (List LVClassMember) :=
  if i < l.length then some (l.modify i ({ · with val := val })) else none

namespace LVClass

variable (env : ClassEnv)

/-- The constructor of `LVClass`. -/
def create (base : Option (Nat × LVClass)) : Option LVClass :=
  match base with
  | none => some {
      members := LVTable.create 0, base := none, defaultvalues := [], methods := []
      metamethods := fun _ => .null, abstract := false, locked := false, constructoridx := -1 }
  | some (address, base) => (base.members.clone env.HashObj (env.depth + 2)).map fun members => {
      members := members, base := some address, defaultvalues := base.defaultvalues
      methods := base.methods, metamethods := base.metamethods, abstract := false, locked := false
      constructoridx := base.constructoridx }

/-- Stores a member that is not there yet, or replaces its index. -/
def bind (c : LVClass) (key idx : LVObject) : Option LVTable :=
  (c.members.newSlot env.HashObj (env.depth + 2) key idx).map Prod.snd

def isClosure (val : LVObject) : Bool := val.type = .OT_CLOSURE ∨ val.type = .OT_NATIVECLOSURE

/-- `theval`: a closure is copied for a class with a base. -/
def theval (c : LVClass) (val : LVObject) : LVObject :=
  match c.base with
  | some base => if val.type = .OT_CLOSURE then env.cloneFor base val else val
  | none => val

/-- The part of `NewSlot` for what `belongs_to_static_table`; `temp` is the index that is
there. -/
def newMethod (c : LVClass) (key val temp : LVObject) : Option (Bool × LVClass) :=
  match if isClosure val then getMetaMethodIdxByName key else none with
  | some mmidx => some (true, { c with metamethods := Function.update c.metamethods mmidx val })
  | none => do
    if temp.type = .OT_NULL then
      let constructoridx := if key = .string "constructor" then (c.methods.length : Int)
        else c.constructoridx
      let members ← c.bind env key (makeMethodIdx c.methods.length)
      return (true, { c with
        constructoridx := constructoridx
        members := members
        methods := c.methods ++ [⟨c.theval env val, .null⟩] })
    else
      let methods ← setVal c.methods (memberIdx temp) (c.theval env val)
      return (true, { c with methods := methods })

/-- `NewSlot`. -/
def newSlot (c : LVClass) (key val : LVObject) (bstatic : Bool) : Option (Bool × LVClass) := do
  let belongs_to_static_table := isClosure val || bstatic
  if c.locked && !belongs_to_static_table then return (false, c)
  else
    let found ← c.members.get env.HashObj env.weakref key
    let temp := found.getD .null
    if found.isSome && isfield temp then
      let defaultvalues ← setVal c.defaultvalues (memberIdx temp) val
      return (true, { c with defaultvalues := defaultvalues })
    else if belongs_to_static_table then c.newMethod env key val temp
    else
      let members ← c.bind env key (makeFieldIdx c.defaultvalues.length)
      return (true, { c with
        members := members
        defaultvalues := c.defaultvalues ++ [⟨val, .null⟩] })

end LVClass

namespace ClassHeap

variable (env : ClassEnv) (h : ClassHeap)

def setClass (address : Nat) (c : LVClass) : ClassHeap :=
  { h with classes := Function.update h.classes address (some c) }

/-- Allocates an instance. -/
def push (inst : LVInstance) : ClassHeap :=
  { h with
    instances := Function.update h.instances h.ninstances (some inst)
    ninstances := h.ninstances + 1 }

/-- The class that `LVClass::Create` makes. -/
def newClass (base : Option Nat) : Option LVClass :=
  match base with
  | none => LVClass.create env none
  | some address => (h.classes address).bind fun base => LVClass.create env (some (address, base))

/-- `LVClass::Create`. -/
def createClass (base : Option Nat) : Option ClassHeap :=
  (h.newClass env base).map fun c => { h with
    classes := Function.update h.classes h.nclasses (some c)
    nclasses := h.nclasses + 1 }

def newSlot (address : Nat) (key val : LVObject) (bstatic : Bool) : Option (Bool × ClassHeap) := do
  let c ← h.classes address
  let (stored, c) ← c.newSlot env key val bstatic
  return (stored, h.setClass address c)

/-- `Lock`; the first argument bounds the number of classes it goes up. -/
def lock : Nat → Nat → ClassHeap → Option ClassHeap
  | 0, _, _ => none
  | fuel + 1, address, h => do
    let c ← h.classes address
    let h := h.setClass address { c with locked := true }
    match c.base with
    | none => return h
    | some base => lock fuel base h

/-- `if (!_locked) Lock()`. -/
def lockOnce (address : Nat) : Option ClassHeap := do
  let c ← h.classes address
  if !c.locked then lock h.nclasses address h else some h

/-- `CreateInstance`. -/
def createInstance (address : Nat) : Option ClassHeap := do
  let h ← h.lockOnce address
  let c ← h.classes address
  return h.push ⟨address, c.defaultvalues.map (·.val)⟩

/-- `LVInstance::Set`. -/
def set (inst : Nat) (key val : LVObject) : Option (Bool × ClassHeap) := do
  let i ← h.instances inst
  let c ← h.classes i.theclass
  match ← c.members.get env.HashObj env.weakref key with
  | some idx =>
    if isfield idx then
      if memberIdx idx < i.values.length then
        return (true, { h with
          instances := Function.update h.instances inst
            (some { i with values := i.values.set (memberIdx idx) val }) })
      else none
    else return (false, h)
  | none => return (false, h)

/-- `LVInstance::Clone`. -/
def clone (inst : Nat) : Option ClassHeap := do
  let i ← h.instances inst
  let c ← h.classes i.theclass
  if c.defaultvalues.length ≤ i.values.length then
    return h.push ⟨i.theclass, i.values.take c.defaultvalues.length⟩
  else none

/-- No class and no instance. -/
def empty : ClassHeap := ⟨fun _ => none, 0, fun _ => none, 0⟩

end ClassHeap

/-- What programs do with classes and instances. -/
inductive Operation where
  | create (base : Option Nat)
  | newSlot (address : Nat) (key val : LVObject) (bstatic : Bool)
  | createInstance (address : Nat)
  | set (inst : Nat) (key val : LVObject)
  | clone (inst : Nat)

def Operation.apply (env : ClassEnv) (h : ClassHeap) : Operation → Option ClassHeap
  | .create base => h.createClass env base
  | .newSlot address key val bstatic => (h.newSlot env address key val bstatic).map Prod.snd
  | .createInstance address => h.createInstance address
  | .set inst key val => (h.set env inst key val).map Prod.snd
  | .clone inst => h.clone inst

/-- The states that sequences of operations lead to, each with fewer than 2^24 default
values and methods in a class. -/
inductive Reaches (env : ClassEnv) : ClassHeap → Prop
  | empty : Reaches env .empty
  | step {h h' : ClassHeap} (op : Operation) (before : Reaches env h)
      (run : op.apply env h = some h') (few : ∀ a c, h'.classes a = some c →
        c.defaultvalues.length < 2 ^ 24 ∧ c.methods.length < 2 ^ 24) : Reaches env h'

end Classes
end Lavril
