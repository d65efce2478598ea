import Lavril.Generator
import Lavril.Machine

/-!
# Runs of the machine

`Execute` is one loop that interprets the running frame; a native function or
a metamethod it calls may call `Execute` again, through `lv_call` or
`lv_resume`. `Control` is one level of that C++ stack. `Exec.instruction`
executes one instruction of the innermost loop, and `Step` is everything the
machine and the program around it can do next. What an instruction does that
writes only registers, tables and the like, and what a native function does
to its own registers, is left open by `Local`.
-/

namespace Lavril

/-- A run of `Execute`: its counter `traps`, and the number of frames and the
traps there were when it was entered. -/
structure Activation where
  traps : Int
  depth : Nat
  entry : List LVExceptionTrap

inductive Control where
  | execute (a : Activation)
  /-- A native function, with its frame. -/
  | native
  /-- A metamethod or the error handler, called with that many values. -/
  | metamethod (nparams : Nat)
  /-- The program that embeds the machine. -/
  | host

/-- Who resumed a generator: `lv_resume`, and what the C++ stack was then, or
script code, with its level of that stack and its frames. -/
inductive Resumer where
  | host (controls : List Control)
  | script (level : Nat) (frames : List CallInfo)

structure Exec where
  vm : LVVM
  /-- The innermost call first. -/
  controls : List Control
  /-- What `lv_wakeupvm` continues. -/
  suspended : Option Activation
  /-- A record of the latest resumption of each generator. -/
  resumers : Nat → Option Resumer

namespace LVVM

variable (v : LVVM)

/-- The next instruction, and the state with `ip` behind it. -/
def fetch : Option (LVInstruction × LVVM) := do
  let k ← v.currentClosure
  match v.callsstack with
  | [] => none
  | ci :: rest =>
    let i ← k.function.instructions[ci.ip]?
    return (i, { v with callsstack := { ci with ip := ci.ip + 1 } :: rest })

/-- An instruction that works on the registers of its frame. -/
def registerOp (i : LVInstruction) : Option LVVM :=
  match v.callsstack with
  | [] => none
  | ci :: rest => do
    let f ← Frame.exec (fun _ _ => none) ci.literals i ⟨ci.ip, fun r => v.register r⟩
    return { v with
      callsstack := { ci with ip := f.ip.toNat } :: rest
      stack := fun s => if v.stackbase ≤ s then f.regs (s - v.stackbase).toNat else v.stack s }

def addEtraps (n : Int) : LVVM :=
  { v with callsstack := v.callsstack.modifyHead fun ci => { ci with etraps := ci.etraps + n } }

def setRoot : LVVM :=
  { v with callsstack := v.callsstack.modifyHead fun ci => { ci with root := true } }

/-- `PUSHTRAP`. -/
def pushTrapOp (i : LVInstruction) : Option LVVM :=
  match v.callsstack with
  | [] => none
  | ci :: _ =>
    let et : LVExceptionTrap := {
      stackbase := v.stackbase, stacksize := v.top
      ip := (ci.ip + i.arg1).toNat, extarget := i.arg0 }
    some { v.addEtraps 1 with etraps := et :: v.etraps }

/-- `POPTRAP`. -/
def popTrapOp (i : LVInstruction) : LVVM :=
  { v.addEtraps (-i.arg0) with etraps := v.etraps.drop i.arg0 }

/-- The trap of the running frame takes an exception. `last_top` is the top of
the stack where it was raised. -/
def catch_ (error : LVObject) (last_top : Int) : Option LVVM :=
  match v.etraps with
  | [] => none
  | et :: rest =>
    let v₁ := { v with
      callsstack := v.callsstack.modifyHead fun ci =>
        { ci with ip := et.ip, etraps := ci.etraps - 1 }
      top := et.stacksize, stackbase := et.stackbase, etraps := rest }
    some ((v₁.setSlot (et.stackbase + et.extarget) error).nullSlots et.stacksize (last_top + 1))

/-- The loop of `exception_trap` over the frames; whether one of them takes the
exception. -/
def unwind (error : LVObject) (last_top : Int) : List CallInfo → LVVM → Option (Bool × LVVM)
  | [], v => some (false, v)
  | ci :: rest, v =>
    if ci.etraps > 0 then (v.catch_ error last_top).map (true, ·)
    else do
      let v₁ ← (v.killGenerator ci).leaveFrame
      if ci.root then return (false, v₁) else unwind error last_top rest v₁

/-- `_nnativecalls` counts the calls of `Execute` and of native functions. -/
def countCall (n : Int) : LVVM := { v with nnativecalls := (v.nnativecalls + n).toNat }

end LVVM

/-- What the C++ stack holds for a call that has not returned. -/
def Awaiting.controls : Awaiting → List Control
  | .native | .constructor _ true => [.native]
  | .metamethod nparams => [.metamethod nparams]
  | .done _ | .script | .constructor _ false => []

/-- The native functions among them. -/
def Awaiting.nativeCalls : Awaiting → Int
  | .native | .constructor _ true => 1
  | _ => 0

/-- How an instruction ends. `traps` is what it adds to the counter. -/
inductive Ran where
  | next (v : LVVM) (traps : Int)
  | call (w : Awaiting) (v : LVVM)
  /-- `Execute` returns. -/
  | finish (v : LVVM) (traps : Int)

namespace LVVM

/-- The number of traps of the running frame. -/
def frameTraps (v : LVVM) : Int := (v.callsstack.head?.map (·.etraps)).getD 0

/-- Whether `Execute` returns when the running frame does. -/
def frameRoot (v : LVVM) : Bool := (v.callsstack.head?.map (·.root)).getD false

/-- `RETURN`. -/
def returnOp (v : LVVM) (i : LVInstruction) : Option Ran :=
  match v.callsstack with
  | [] => none
  | ci :: _ => do
    let v₁ ← (v.killGenerator ci).return_ i.arg0 i.arg1
    return if ci.root then .finish v₁ 0 else .next v₁ 0

/-- `YIELD` with its `Return`. -/
def yieldReturn (v : LVVM) (i : LVInstruction) : Option Ran := do
  let v₁ ← v.yieldOp i
  let v₂ ← v₁.return_ i.arg0 i.arg1
  return if v.frameRoot then .finish v₂ (-v.frameTraps) else .next v₂ (-v.frameTraps)

/-- The instruction `i`, once `ip` has moved past it. -/
def instruction (alive : LVObject → Bool) (v : LVVM) (i : LVInstruction) : Option Ran :=
  match i.op with
  | .OP_CALL => (v.callOp i).map fun (w, v₁) => .call w v₁
  | .OP_TAILCALL => (v.tailcallOp i).map fun (w, v₁) => .call w v₁
  | .OP_RETURN => v.returnOp i
  | .OP_YIELD => v.yieldReturn i
  | .OP_RESUME => (v.resumeOp alive i).map fun v₁ => .next v₁ v₁.frameTraps
  | .OP_FOREACH => (v.foreachOp alive i).map (.next · 0)
  | .OP_POSTFOREACH => (v.postForeachOp i).map (.next · 0)
  | .OP_PUSHTRAP => (v.pushTrapOp i).map (.next · 1)
  | .OP_POPTRAP => some (.next (v.popTrapOp i) (-i.arg0))
  | .OP_CLOSURE => do
    let k ← v.currentClosure
    let func ← k.function.functions[i.arg1.toNat]?
    return .next (← v.closureOp k i func) 0
  | .OP_GETOUTER => (v.getOuterOp i).map (.next · 0)
  | .OP_SETOUTER => (v.setOuterOp i).map (.next · 0)
  | .OP_CLOSE => some (.next (v.closeOp i) 0)
  | _ => (v.registerOp i).map (.next · 0)

/-- Whether `i` changes neither the frames nor their traps. -/
def isLocal (v : LVVM) (i : LVInstruction) : Bool :=
  match i.op with
  | .OP_CALL | .OP_TAILCALL | .OP_RETURN | .OP_YIELD | .OP_RESUME | .OP_POSTFOREACH
  | .OP_PUSHTRAP | .OP_POPTRAP | .OP_THROW | .OP_CLOSURE | .OP_GETOUTER | .OP_SETOUTER
  | .OP_CLOSE => false
  | .OP_FOREACH => (v.generatorOf (v.register i.arg0)).isNone
  | _ => true

/-- What may happen to the running frame apart from the above: its registers,
`ip`, tables, arrays and so on change, and objects are created that are no
generators. The functions of new closures come from `Program`. -/
structure Local (Program : FunctionPrototype → Prop) (v v' : LVVM) : Prop where
  below : ∀ s, s < v.stackbase → v'.stack s = v.stack s
  stackbase : v'.stackbase = v.stackbase
  callsstack : ∃ ip, v'.callsstack = v.callsstack.modifyHead fun ci => { ci with ip := ip }
  alloc : v'.alloccallsstacksize = v.alloccallsstacksize
  etraps : v'.etraps = v.etraps
  openouters : v'.openouters = v.openouters
  stacksize : v.stacksize ≤ v'.stacksize
  generators : ∀ a, v'.generatorAt a = v.generatorAt a
  outers : ∀ a o, v.heap a = some (.outer o) → v'.heap a = some (.outer o)
  closures : ∀ a k, v.heap a = some (.closure k) → v'.heap a = some (.closure k)
  created : ∀ a k, v'.heap a = some (.closure k) →
    v.heap a = some (.closure k) ∨ Program k.function
  next : v.next ≤ v'.next ∧ ∀ a, v'.next ≤ a → v.heap a = none → v'.heap a = none

/-- What an instruction may have done when it raises an error. `EnterFrame`
leaves its frame behind. -/
inductive Interrupted (Program : FunctionPrototype → Prop) : LVVM → LVVM → Prop
  | local {v v'} (h : Local Program v v') : Interrupted Program v v'
  /-- `TAILCALL` closes the outers before it enters the frame. -/
  | close {v v'} (h : Interrupted Program (v.closeOuters v.stackbase) v') : Interrupted Program v v'
  | enter {v v' newbase newtop} (le : v.stackbase ≤ newbase) (h : Local Program v v') :
      Interrupted Program v (v'.pushFrame newbase newtop)

/-- How `Execute` begins: it fails, it has its result already, or the loop starts
with that counter. A frame whose `ci` is null cannot be run. -/
inductive Entry where
  | fail (v : LVVM)
  | done (outres : LVObject) (v : LVVM)
  | loop (v : LVVM) (traps : Int)
  | undefined

/-- `Execute` with `ET_CALL`. `moved` says whether the call-info array is at
another address when it has grown. -/
def executeCall (v : LVVM) (clo : LVObject) (k : LVClosure) (nargs : Nat) (stackbase : Int)
    (moved : Bool) : Entry :=
  if v.nnativecalls + 1 > MAX_NATIVE_CALLS then .fail v
  else
    match v.startCall clo k (v.top - nargs) nargs stackbase false with
    | none => .fail v
    | some v₁ =>
      let grown := v.callsstack.length = v.alloccallsstacksize
      if k.function.bgenerator ∧ ¬ (grown ∧ moved) then .done (v₁.register (v₁.top - nargs)) v₁
      else if v₁.callsstack = [] then .undefined
      else .loop v₁.setRoot 0

/-- `lv_resume` up to the loop of `Execute` with `ET_RESUME_GENERATOR`. -/
def executeResume (alive : LVObject → Bool) (v : LVVM) (address : Nat) (g : LVGenerator) : Entry :=
  let v := v.push .null
  if v.nnativecalls + 1 > MAX_NATIVE_CALLS then .fail v
  else
    -- what `Resume` answers is not looked at
    let v₁ :=
      match v.resume_ alive address g (v.top - 1 - v.stackbase) with
      | some v₁ => v₁
      | none =>
        if g.state = LVGeneratorState.eSuspended then v.pushFrame v.top (v.top + g.stack.length) else v
    if v₁.callsstack = [] then .undefined else .loop v₁.setRoot v₁.frameTraps

/-- The arguments of a metamethod. -/
def pushArgs (v : LVVM) (args : List LVObject) : LVVM :=
  { args.foldl push v with nmetamethodscall := v.nmetamethodscall + 1 }

/-- The generator that an instruction resumes. -/
def resumes (v : LVVM) (i : LVInstruction) : Option (Nat × LVGenerator) :=
  match i.op with
  | .OP_RESUME => v.generatorOf (v.register i.arg1)
  | .OP_FOREACH =>
    (v.generatorOf (v.register i.arg0)).filter fun (_, g) => g.state = .eSuspended
  | _ => none

end LVVM

/-- What happens next. -/
inductive Event where
  /-- An instruction is executed; the state is the one `ip` has moved in. -/
  | instruction (i : LVInstruction) (v : LVVM)
  | call (k : LVClosure) (moved : Bool)
  | resume (address : Nat) (g : LVGenerator)
  /-- C++ code writes a captured variable. -/
  | setOuter (address : Nat)
  | other

namespace Exec

/-- The loop of activation `a` after an instruction. -/
def advance (e : Exec) (a : Activation) (cs : List Control) : Ran → Exec
  | .next v traps =>
    { e with vm := v, controls := .execute { a with traps := a.traps + traps } :: cs }
  | .call w v =>
    { e with
      vm := v.countCall w.nativeCalls
      controls := w.controls ++ .execute a :: cs }
  | .finish v _ => { e with vm := v.countCall (-1), controls := cs }

/-- The C++ stack and the record after a resumption by `lv_resume`. -/
def enter (e : Exec) (v : LVVM) (traps : Int) : Exec :=
  { e with
    vm := v.countCall 1
    controls := .execute ⟨traps, e.vm.callsstack.length, e.vm.etraps⟩ :: e.controls }

/-- The record after an instruction that resumes a generator. -/
def note (e : Exec) (v : LVVM) (i : LVInstruction) : Exec :=
  match v.resumes i with
  | some (address, _) =>
    let resumer := .script e.controls.length v.callsstack
    { e with resumers := Function.update e.resumers address (some resumer) }
  | none => e

/-- The C++ code on top is not the loop of `Execute`. -/
def Outside (e : Exec) : Prop := ∀ a, e.controls.head? ≠ some (.execute a)

/-- It is a native function or the program around the machine. -/
def InApi (e : Exec) : Prop := e.controls.head? = some .native ∨ e.controls.head? = some .host

/-- What the activation `a` does with an error that was raised in `v`. -/
inductive Raises (e : Exec) (a : Activation) (cs : List Control) (v : LVVM) : Exec → Prop
  | caught {error : LVObject} {v' : LVVM}
      (h : LVVM.unwind error v.top v.callsstack v = some (true, v')) :
      Raises e a cs v
        { e with vm := v', controls := .execute { a with traps := a.traps - 1 } :: cs }
  | uncaught {error : LVObject} {v' : LVVM}
      (h : LVVM.unwind error v.top v.callsstack v = some (false, v')) :
      Raises e a cs v { e with vm := v'.countCall (-1), controls := cs }

/-- One step of the machine or of the program around it. -/
inductive Step (alive : LVVM → LVObject → Bool) (Program : FunctionPrototype → Prop) :
    Event → Exec → Exec → Prop
  | instruction {e a cs i v r} (controls : e.controls = .execute a :: cs)
      (fetch : e.vm.fetch = some (i, v)) (run : v.instruction (alive v) i = some r) :
      Step alive Program (.instruction i v) e ((e.note v i).advance a cs r)
  /-- Instructions that `instruction` does not cover. -/
  | local {e a cs i v v'} (controls : e.controls = .execute a :: cs)
      (fetch : e.vm.fetch = some (i, v)) (op : v.isLocal i = true)
      (effect : v.Local Program v') (top : v'.top = v.top) :
      Step alive Program .other e { e with vm := v' }
  /-- An instruction, or `exception_trap`, calls a metamethod or the error handler. -/
  | metamethod {e a cs i v} {args : List LVObject} (controls : e.controls = .execute a :: cs)
      (fetch : e.vm.fetch = some (i, v)) :
      Step alive Program .other e { e with
        vm := v.pushArgs args, controls := .metamethod args.length :: e.controls }
  | raise {e a cs i v v' e'} (controls : e.controls = .execute a :: cs)
      (fetch : e.vm.fetch = some (i, v)) (effect : v.Interrupted Program v')
      (raises : e.Raises a cs v' e') : Step alive Program .other e e'
  /-- `lv_call` of a script closure, and the calls the machine makes. -/
  | call {e clo k nargs moved v traps} (outside : e.Outside)
      (callee : e.vm.lookup clo = some (.closure k))
      (entry : e.vm.executeCall clo k nargs (e.vm.top - nargs) moved = .loop v traps) :
      Step alive Program (.call k moved) e (e.enter v traps)
  | generator {e clo k nargs moved o v} (outside : e.Outside)
      (callee : e.vm.lookup clo = some (.closure k))
      (entry : e.vm.executeCall clo k nargs (e.vm.top - nargs) moved = .done o v) :
      Step alive Program (.call k moved) e { e with vm := v }
  | native {e clo k nargs v} (outside : e.Outside)
      (callee : e.vm.lookup clo = some (.nativeclosure k))
      (entry : e.vm.enterNative clo k nargs (e.vm.top - nargs) = some v) :
      Step alive Program .other e
        { e with vm := v.countCall 1, controls := .native :: e.controls }
  | resume {e address g v traps} (api : e.InApi)
      (found : e.vm.generatorOf (e.vm.stack (e.vm.top - 1)) = some (address, g))
      (entry : e.vm.executeResume (alive e.vm) address g = .loop v traps) :
      Step alive Program (.resume address g) e
        { e.enter v traps with
          resumers := Function.update e.resumers address (some (.host e.controls)) }
  /-- C++ code at work, in the slots above its own base. -/
  | api {e v} (api : e.InApi) (effect : e.vm.Local Program v) :
      Step alive Program .other e { e with vm := v }
  | apiMetamethod {e} {args : List LVObject} (api : e.InApi) :
      Step alive Program .other e { e with
        vm := e.vm.pushArgs args, controls := .metamethod args.length :: e.controls }
  /-- A call that fails and leaves its frame behind. -/
  | failCall {e newbase newtop} (outside : e.Outside) (le : e.vm.stackbase ≤ newbase) :
      Step alive Program .other e { e with vm := e.vm.pushFrame newbase newtop }
  | setOuter {e address o} (api : e.InApi) (found : ∃ x, e.vm.heap address = some (.outer x)) :
      Step alive Program (.setOuter address) e { e with vm := e.vm.setOuterValue address o }
  /-- A native function returns. -/
  | returnNative {e cs ret value v v'} (controls : e.controls = .native :: cs)
      (leave : e.vm.leaveNative ret = some (value, v)) (store : v.Local Program v')
      (top : v'.top = v.top) :
      Step alive Program .other e { e with vm := v'.countCall (-1), controls := cs }
  | failNative {e a cs v e'} (controls : e.controls = .native :: .execute a :: cs)
      (leave : e.vm.leaveFrame = some v)
      (raises : { e with vm := v.countCall (-1) }.Raises a cs (v.countCall (-1)) e') :
      Step alive Program .other e e'
  | failNativeOutside {e cs v} (controls : e.controls = .native :: cs)
      (leave : e.vm.leaveFrame = some v) (outside : { e with controls := cs }.Outside) :
      Step alive Program .other e { e with vm := v.countCall (-1), controls := cs }
  | returnMetamethod {e nparams cs v'} (controls : e.controls = .metamethod nparams :: cs)
      (store : (e.vm.pop nparams).Local Program v') (top : v'.top = (e.vm.pop nparams).top) :
      Step alive Program .other e
        { e with
          vm := { v' with nmetamethodscall := v'.nmetamethodscall - 1 }, controls := cs }
  | failMetamethod {e nparams a cs e'}
      (controls : e.controls = .metamethod nparams :: .execute a :: cs)
      (raises : e.Raises a cs
        { e.vm.pop nparams with nmetamethodscall := e.vm.nmetamethodscall - 1 } e') :
      Step alive Program .other e e'
  /-- A native function that a script has called suspends the machine. -/
  | suspend {e a v} (controls : e.controls = [.native, .execute a, .host])
      (awake : e.suspended = none) (leave : e.vm.leaveFrame = some v) :
      Step alive Program .other e
        { e with vm := v.countCall (-2), controls := [.host], suspended := some a }
  /-- `lv_wakeupvm`. -/
  | wakeup {e a v} (controls : e.controls = [.host]) (asleep : e.suspended = some a)
      (effect : e.vm.Local Program v) :
      Step alive Program .other e
        { e with vm := v.countCall 1, controls := [.execute a, .host], suspended := none }

end Exec

end Lavril
