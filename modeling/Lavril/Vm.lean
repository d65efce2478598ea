import Lavril.FuncState
import Mathlib.Logic.Function.Basic

/-!
# The virtual machine: frames and calls

The stack is one array for all frames; `stackbase` is where the registers of
the running frame start. An object other than a string is known by its address
in the heap, and `next` is the first address not in use. The debug hook is off.
`none` is a call that raises an error.
-/

namespace Lavril

structure CallInfo where
  closure : LVObject
  literals : List LVObject
  ip : Nat
  generator : Option Nat
  etraps : Int
  prevstkbase : Int
  prevtop : Int
  target : Int
  ncalls : Int
  root : Bool

structure LVExceptionTrap where
  stackbase : Int
  stacksize : Int
  ip : Nat
  extarget : Int

/-- Every script function has at least the parameter `this`. -/
structure LVClosure where
  function : FunctionPrototype
  this : 0 < function.parameters.length
  env : Option LVObject
  outervalues : List LVObject
  defaultparams : List LVObject

/-- `typecheck` lists the types each parameter may have; none is any type. -/
structure LVNativeClosure where
  nparamscheck : Int
  typecheck : List (Option (List LVObjectType))
  outervalues : List LVObject
  env : Option LVObject

/-- `constructor` is what `GetConstructor` finds. -/
structure LVClass where
  abstract : Bool
  constructor : Option LVObject
  /-- `_metamethods[MT_CALL]`. -/
  call : Option LVObject

inductive LVGeneratorState where
  | eRunning | eSuspended | eDead
  deriving DecidableEq

structure LVGenerator where
  closure : LVObject
  state : LVGeneratorState
  stack : List LVObject
  /-- Whether the first value is kept by a weak reference only. -/
  weakThis : Bool
  ci : Option CallInfo
  etraps : List LVExceptionTrap

/-- `delegable` is a table or user data with what `GetMetaMethod` finds for
`MT_CALL`; an outer that is still open has no value of its own. -/
inductive HeapObject where
  | closure (c : LVClosure)
  | nativeclosure (c : LVNativeClosure)
  | class (c : LVClass)
  | instance (class_ : LVObject) (call : Option LVObject)
  | delegable (call : Option LVObject)
  | generator (g : LVGenerator)
  | array (values : List LVObject)
  | outer (value : Option LVObject)

/-- The types of the values that refer to an object. -/
def HeapObject.types : HeapObject → List LVObjectType
  | .closure _ => [.OT_CLOSURE]
  | .nativeclosure _ => [.OT_NATIVECLOSURE]
  | .class _ => [.OT_CLASS]
  | .instance _ _ => [.OT_INSTANCE]
  | .delegable _ => [.OT_TABLE, .OT_USERDATA]
  | .generator _ => [.OT_GENERATOR]
  | .array _ => [.OT_ARRAY]
  | .outer _ => [.OT_OUTER]

structure LVVM where
  stack : Int → LVObject
  /-- `_stack.size()`. -/
  stacksize : Int
  stackbase : Int
  top : Int
  /-- The running frame, `ci`, comes first. -/
  callsstack : List CallInfo
  /-- The frames there is room for before `GrowCallStack`. -/
  alloccallsstacksize : Nat
  nmetamethodscall : Nat
  nnativecalls : Nat
  etraps : List LVExceptionTrap
  /-- Address and slot of every open outer, the highest slot first. -/
  openouters : List (Nat × Int)
  heap : Nat → Option HeapObject
  next : Nat

def MIN_STACK_OVERHEAD : Int := 15
def MAX_NATIVE_CALLS : Nat := 100

/-- The reference to the object of that type at an address. -/
def LVObject.ofAddress (type : LVObjectType) (address : Nat) : LVObject :=
  .ref type (BitVec.ofNat 64 address)

def LVObjectType.refCounted : LVObjectType → Bool
  | .OT_NULL | .OT_INTEGER | .OT_FLOAT | .OT_BOOL | .OT_USERPOINTER => false
  | _ => true

namespace LVVM

variable (v : LVVM)

/-- The object a value refers to. -/
def lookup (o : LVObject) : Option HeapObject :=
  match o.unVal with
  | .raw bits => (v.heap bits.toNat).filter (o.type ∈ ·.types)
  | .pString _ => none

/-- A new object, with the reference to it. -/
def create (type : LVObjectType) (object : HeapObject) : LVObject × LVVM :=
  (.ofAddress type v.next,
    { v with heap := Function.update v.heap v.next (some object), next := v.next + 1 })

def setSlot (slot : Int) (o : LVObject) : LVVM :=
  { v with stack := Function.update v.stack slot o }

/-- The bound `this` of a closure, if it has one, goes into the first register. -/
def setEnv (env : Option LVObject) (stackbase : Int) : LVVM :=
  env.elim v (v.setSlot stackbase)

/-- Stores null in the slots from `low` up to but not including `high`. -/
def nullSlots (low high : Int) : LVVM :=
  { v with stack := fun s => if low ≤ s ∧ s < high then .null else v.stack s }

/-- `Push`. -/
def push (o : LVObject) : LVVM := { v.setSlot v.top o with top := v.top + 1 }

/-- `Pop(n)`. -/
def pop (n : Nat) : LVVM := { v.nullSlots (v.top - n) v.top with top := v.top - n }

/-- `CloseOuters`, on the outers at or above a slot. -/
def closeOuters (slot : Int) : LVVM :=
  { v with
    openouters := v.openouters.dropWhile (slot ≤ ·.2)
    heap := (v.openouters.takeWhile (slot ≤ ·.2)).foldl
      (fun heap o => Function.update heap o.1 (some (.outer (some (v.stack o.2))))) v.heap }

/-- The new frame of `EnterFrame`, before it looks at the size of the stack. -/
def pushFrame (newbase newtop : Int) : LVVM :=
  let ci : CallInfo := {
    closure := .null, literals := [], ip := 0, generator := none, etraps := 0
    prevstkbase := newbase - v.stackbase, prevtop := v.top - v.stackbase
    target := 0, ncalls := 1, root := false }
  let alloc := v.alloccallsstacksize
  { v with
    callsstack := ci :: v.callsstack
    alloccallsstacksize := if v.callsstack.length = alloc then alloc * 2 else alloc
    stackbase := newbase, top := newtop }

/-- `EnterFrame`. When it fails the frame stays, as `pushFrame` has left it. -/
def enterFrame (newbase newtop : Int) (tailcall : Bool) : Option LVVM :=
  let v₁ : Option LVVM :=
    if tailcall then
      match v.callsstack with
      | [] => none
      | ci :: rest => some { v with
          callsstack := { ci with ncalls := ci.ncalls + 1 } :: rest
          stackbase := newbase, top := newtop }
    else some (v.pushFrame newbase newtop)
  v₁.bind fun v =>
    if newtop + MIN_STACK_OVERHEAD > v.stacksize then
      if v.nmetamethodscall ≠ 0 then none
      else
        let size := newtop + MIN_STACK_OVERHEAD * 4
        some { v.nullSlots v.stacksize size with stacksize := size }
    else some v

/-- `LeaveFrame`. -/
def leaveFrame : Option LVVM :=
  match v.callsstack with
  | [] => none
  | ci :: rest =>
    let stackbase := v.stackbase - ci.prevstkbase
    let top := stackbase + ci.prevtop
    let v₁ := v.closeOuters v.stackbase
    some { v₁.nullSlots top (v.top + 1) with
      callsstack := rest, stackbase := stackbase, top := top }

/-- The value `Return(_arg0, _arg1)` hands to the caller. -/
def resultValue (arg0 : Nat) (arg1 : Int) : LVObject :=
  if arg0 ≠ 0xFF then v.stack (v.stackbase + arg1) else .null

/-- `Return`. In a root frame the value goes to the caller of `Execute`. -/
def return_ (arg0 : Nat) (arg1 : Int) : Option LVVM :=
  match v.callsstack with
  | [] => none
  | ci :: _ =>
    let callerbase := v.stackbase - ci.prevstkbase
    if ci.root ∨ ci.target = -1 then v.leaveFrame
    else (v.setSlot (callerbase + ci.target) (v.resultValue arg0 arg1)).leaveFrame

/-- `LVGenerator::Yield` of a generator that runs in the current frame. -/
def yield_ (address : Nat) (g : LVGenerator) (target : Nat) : Option LVVM :=
  match g.state, v.callsstack with
  | .eRunning, ci :: _ =>
    let size := (v.top - v.stackbase).toNat
    let this := v.stack v.stackbase
    -- `resize` keeps what the vector held beyond the registers that are copied
    let saved := (List.range size).map fun n =>
      if n = 0 then this else if n < target then v.stack (v.stackbase + n)
      else g.stack.getD n .null
    let traps := (v.etraps.take ci.etraps.toNat).map fun et =>
      { et with stackbase := et.stackbase - v.stackbase, stacksize := et.stacksize - v.stackbase }
    let g := { g with
      stack := saved, weakThis := this.type.refCounted, ci := some { ci with generator := none }
      etraps := g.etraps ++ traps, state := .eSuspended }
    some { v.nullSlots v.stackbase v.top with
      heap := Function.update v.heap address (some (.generator g))
      etraps := v.etraps.drop ci.etraps.toNat }
  | _, _ => none

/-- The parameters of a script call: extra ones go into an array, missing ones
get their default values. -/
def bindParameters (closure : LVClosure) (args : Nat) (stackbase : Int) : Option LVVM :=
  let func := closure.function
  let nparameters : Int := func.parameters.length
  if func.varparams then
    let paramssize := nparameters - 1
    if args < paramssize then none
    else
      let pbase := stackbase + paramssize
      let nvargs := args - paramssize
      let values := (List.range nvargs.toNat).map fun n => v.stack (pbase + n)
      let (arr, v) := (v.nullSlots pbase (pbase + nvargs)).create .OT_ARRAY (.array values)
      some (v.setSlot pbase arr)
  else if nparameters ≠ args then
    let ndef := func.defaultparams.length
    let diff := nparameters - args
    if ndef ≠ 0 ∧ args < nparameters ∧ diff ≤ ndef then
      some { v with stack := fun s =>
        if stackbase + args ≤ s ∧ s < stackbase + nparameters then
          closure.defaultparams.getD (ndef - diff + (s - (stackbase + args))).toNat .null
        else v.stack s }
    else none
  else some v

/-- `StartCall` up to the point where the frame of the callee is complete. -/
def startFrame (clo : LVObject) (closure : LVClosure) (target : Int) (args : Nat)
    (stackbase : Int) (tailcall : Bool) : Option LVVM := do
  let func := closure.function
  let v ← v.bindParameters closure args stackbase
  let v := v.setEnv closure.env stackbase
  let v ← v.enterFrame stackbase (stackbase + func.stacksize) tailcall
  return { v with callsstack := v.callsstack.modifyHead fun ci =>
    { ci with closure := clo, literals := func.literals, ip := 0, target := target } }

/-- The generator branch of `StartCall`. -/
def startGenerator (clo : LVObject) (closure : LVClosure) (target : Int) : Option LVVM := do
  let g : LVGenerator := ⟨clo, .eRunning, [], false, none, []⟩
  let (gen, v₁) := v.create .OT_GENERATOR (.generator g)
  let v₁ ← v₁.yield_ v.next g closure.function.stacksize
  let v₁ ← v₁.return_ 1 target
  return v₁.setSlot (v₁.stackbase + target) gen

/-- `StartCall` of the closure that `clo` refers to. -/
def startCall (clo : LVObject) (closure : LVClosure) (target : Int) (args : Nat)
    (stackbase : Int) (tailcall : Bool) : Option LVVM := do
  let v ← v.startFrame clo closure target args stackbase tailcall
  if closure.function.bgenerator then v.startGenerator clo closure target else return v

/-- The checks of `CallNative` on the number and the types of its arguments. -/
def acceptsArgs (nclosure : LVNativeClosure) (nargs : Nat) (newbase : Int) : Bool :=
  let nparamscheck := nclosure.nparamscheck
  (nparamscheck = 0 ∨ (nparamscheck > 0 ∧ nparamscheck = nargs) ∨
    (nparamscheck < 0 ∧ -nparamscheck ≤ nargs)) &&
  (nclosure.typecheck.take nargs).zipIdx.all fun (types, n) =>
    types.all ((v.stack (newbase + n)).type ∈ ·)

/-- `CallNative` up to the call of the native function. -/
def enterNative (clo : LVObject) (nclosure : LVNativeClosure) (nargs : Nat) (newbase : Int) :
    Option LVVM :=
  let outers := nclosure.outervalues
  let newtop := newbase + nargs + outers.length
  if v.nnativecalls + 1 > MAX_NATIVE_CALLS then none
  else if v.acceptsArgs nclosure nargs newbase = false then none
  else do
    let v ← v.enterFrame newbase newtop false
    let v := { v with
      callsstack := v.callsstack.modifyHead fun ci => { ci with closure := clo }
      stack := fun s =>
        if newbase + nargs ≤ s ∧ s < newtop then outers.getD (s - (newbase + nargs)).toNat .null
        else v.stack s }
    return v.setEnv nclosure.env newbase

/-- `CallNative` after the native function has returned `ret`. -/
def leaveNative (ret : Int) : Option (LVObject × LVVM) :=
  if ret < 0 then none
  else v.leaveFrame.map fun v' => (if ret ≠ 0 then v.stack (v.top - 1) else .null, v')

end LVVM

end Lavril
