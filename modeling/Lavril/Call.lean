import Lavril.Vm

/-!
# The call instructions

`callOp` executes `CALL` up to the point where the callee runs, `tailcallOp`
does so for `TAILCALL`; `Completes` is what happens once it is done. In between, `Body` allows the callee to do
anything at or above the place where its registers start.
-/

namespace Lavril

/-- `sarg0`: the target as a signed byte. -/
def LVInstruction.sarg0 (i : LVInstruction) : Int :=
  if i.arg0 < 128 then i.arg0 else (i.arg0 : Int) - 256

/-- What a `CALL` waits for. -/
inductive Awaiting where
  /-- Nothing: the value of the call is there. -/
  | done (value : LVObject)
  /-- The `RETURN` of the frame that was pushed. -/
  | script
  /-- A native function. -/
  | native
  /-- The frame of a constructor, script or native, called for an instance. -/
  | constructor (inst : LVObject) (native : Bool)
  /-- A metamethod, called with that many values on top of the stack. -/
  | metamethod (nparams : Nat)

namespace LVVM

variable (v : LVVM)

/-- The register `a` of the running frame. -/
def register (a : Int) : LVObject := v.stack (v.stackbase + a)

/-- `STK(arg0) = value`, unless the target is the "no target" marker. -/
def storeTarget (i : LVInstruction) (value : LVObject) : LVVM :=
  if i.sarg0 ≠ -1 then v.setSlot (v.stackbase + i.arg0) value else v

/-- `CreateClassInstance`, with the instance stored in the target. -/
def instantiate (i : LVInstruction) (clo : LVObject) (c : LVClass) : LVObject × LVVM :=
  let (inst, v) := v.create .OT_INSTANCE (.instance clo c.call)
  (inst, v.storeTarget i inst)

/-- The call of a constructor with the instance as `this`. -/
def callConstructor (i : LVInstruction) (inst constructor : LVObject) :
    Option HeapObject → Option (Awaiting × LVVM)
  | some (.closure k) => do
    let stkbase := v.stackbase + i.arg2
    let v ← (v.setSlot stkbase inst).startCall constructor k (-1) i.arg3 stkbase false
    return (if k.function.bgenerator then .done inst else .constructor inst false, v)
  | some (.nativeclosure k) => do
    let stkbase := v.stackbase + i.arg2
    let v ← (v.setSlot stkbase inst).enterNative constructor k i.arg3 stkbase
    return (.constructor inst true, v)
  | _ => some (.done inst, v)

/-- The `OT_CLASS` case of `CALL`. -/
def callClass (i : LVInstruction) (clo : LVObject) (c : LVClass) : Option (Awaiting × LVVM) :=
  if c.abstract then none
  else
    let created := v.instantiate i clo c
    match c.constructor with
    | some o => created.2.callConstructor i created.1 o (v.lookup o)
    | none => some (.done created.1, created.2)

/-- The delegate case of `CALL`. -/
def callDelegate (i : LVInstruction) (clo : LVObject) : Awaiting × LVVM :=
  let v := (List.range i.arg3).foldl (fun v n => v.push (v.register (i.arg2 + n))) (v.push clo)
  (.metamethod (i.arg3 + 1), { v with nmetamethodscall := v.nmetamethodscall + 1 })

/-- `CALL` up to the point where the callee runs. -/
def callOp (i : LVInstruction) : Option (Awaiting × LVVM) :=
  let clo := v.register i.arg1
  let stkbase := v.stackbase + i.arg2
  match v.lookup clo with
  | some (.closure k) => do
    let v₁ ← v.startCall clo k i.sarg0 i.arg3 stkbase false
    return (if k.function.bgenerator then .done (.ofAddress .OT_GENERATOR (v₁.next - 1)) else .script,
      v₁)
  | some (.nativeclosure k) => do return (.native, ← v.enterNative clo k i.arg3 stkbase)
  | some (.class c) => v.callClass i clo c
  | some (.instance _ (some _)) | some (.delegable (some _)) => some (v.callDelegate i clo)
  | _ => none

/-- `TAILCALL`: a script function that is no generator runs in the frame of the
caller; everything else is called as by `CALL`. -/
def tailcallOp (i : LVInstruction) : Option (Awaiting × LVVM) :=
  let t := v.register i.arg1
  match v.lookup t, v.callsstack with
  | some (.closure k), ci :: _ =>
    if k.function.bgenerator then v.callOp i
    else
      let v₁ := v.closeOuters v.stackbase
      let v₁ := { v₁ with stack := fun s =>
        if v.stackbase ≤ s ∧ s < v.stackbase + i.arg3 then v.stack (s + i.arg2) else v.stack s }
      (v₁.startCall t k ci.target i.arg3 v.stackbase true).map fun v₂ => (.script, v₂)
  | _, _ => v.callOp i

end LVVM

/-- The first slot the callee may use. -/
def Awaiting.limit (w : Awaiting) (v : LVVM) : Int :=
  match w with
  | .metamethod nparams => v.top - nparams
  | _ => v.stackbase

/-- What `Return` and `LeaveFrame` read of a frame. -/
def CallInfo.linkage (ci : CallInfo) : Int × Int × Int × Bool :=
  (ci.prevstkbase, ci.prevtop, ci.target, ci.root)

/-- The callee has run from `v₁` to `v₂`. Below its own registers it has written
captured variables only. -/
structure Body (w : Awaiting) (v₁ v₂ : LVVM) : Prop where
  stackbase : v₂.stackbase = v₁.stackbase
  frames : v₂.callsstack.map CallInfo.linkage = v₁.callsstack.map CallInfo.linkage
  below : ∀ s, s < w.limit v₁ → s ∉ v₁.openouters.map Prod.snd → v₂.stack s = v₁.stack s
  /-- A metamethod has taken its frame off again. -/
  top : ∀ n, w = .metamethod n → v₂.top = v₁.top
  /-- Nothing runs when the value is already there. -/
  idle : ∀ o, w = .done o → v₂ = v₁

/-- How the call ends, with its value. -/
inductive Completes (i : LVInstruction) : Awaiting → LVVM → LVObject → LVVM → Prop
  | done {v value} : Completes i (.done value) v value v
  | script {v v'} (arg0 : Nat) (arg1 : Int) (ret : v.return_ arg0 arg1 = some v') :
      Completes i .script v (v.resultValue arg0 arg1) v'
  | native {v v' value} (ret : Int) (leave : v.leaveNative ret = some (value, v')) :
      Completes i .native v value (v'.storeTarget i value)
  | constructor {v v' inst} (arg0 : Nat) (arg1 : Int) (ret : v.return_ arg0 arg1 = some v') :
      Completes i (.constructor inst false) v inst v'
  | nativeConstructor {v v' inst value} (ret : Int) (leave : v.leaveNative ret = some (value, v')) :
      Completes i (.constructor inst true) v inst v'
  | metamethod {v value nparams} :
      Completes i (.metamethod nparams) v value
        ({ v.pop nparams with nmetamethodscall := v.nmetamethodscall - 1 }.storeTarget i value)

end Lavril
