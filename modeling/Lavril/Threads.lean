import Lavril.Entry

/-!
# Threads

A thread is a machine of its own on the heap that all of them share. One runs
at a time: `thread.call` and `thread.wakeup` run another one and wait for it,
and `suspend` goes back to the machine that waits. The threads `newthread` will
make are there from the start. `lv_call` is modelled up to the point where the
callee runs; what script code does then is left open by `Work`.
-/

namespace Lavril
namespace Threads

open LVVM

/-- A machine, with what `suspend` saves in it. -/
structure Thread where
  vm : LVVM
  roottable : LVObject
  suspended : Bool
  suspendedTarget : Int
  suspendedRoot : Bool
  suspendedTraps : Int

inductive VMState where
  | LV_VMSTATE_IDLE | LV_VMSTATE_RUNNING | LV_VMSTATE_SUSPENDED
  deriving DecidableEq

def Thread.lv_getvmstate (t : Thread) : VMState :=
  if t.suspended then .LV_VMSTATE_SUSPENDED
  else if t.vm.callsstack.length ≠ 0 then .LV_VMSTATE_RUNNING
  else .LV_VMSTATE_IDLE

/-! ## `lv_call` -/

/-- How `LVVM::Call` begins. -/
inductive Begun where
  /-- It returns false. -/
  | failed (v : LVVM)
  /-- It returns true, without having run anything. -/
  | returned (outres : LVObject) (v : LVVM)
  | running (v : LVVM)
  /-- `Execute` runs on with a frame that is not there. -/
  | undefined

/-- `Execute` with `ET_CALL`. A call that does not fit in the stack fails with
its frame in place. -/
def beginClosure (v : LVVM) (clo : LVObject) (k : LVClosure) (nparams : Nat) (stackbase : Int)
    (moved : Bool) : Begun :=
  if v.nnativecalls + 1 > MAX_NATIVE_CALLS then .failed v
  else
    match v.bindParameters k nparams stackbase with
    | none => .failed v
    | some bound =>
      let v₁ := bound.setEnv k.env stackbase
      let newtop := stackbase + k.function.stacksize
      match v₁.enterFrame stackbase newtop false with
      | none => .failed (v₁.pushFrame stackbase newtop)
      | some _ =>
        match v.executeCall clo k nparams stackbase moved with
        | .fail v' => .failed v'
        | .done outres v' => .returned outres v'
        | .loop v' _ => .running (v'.countCall 1)
        | .undefined => .undefined

/-- `CallNative`. -/
def beginNative (v : LVVM) (clo : LVObject) (k : LVNativeClosure) (nparams : Nat)
    (stackbase : Int) : Begun :=
  if v.nnativecalls + 1 > MAX_NATIVE_CALLS then .failed v
  else if v.acceptsArgs k nparams stackbase = false then .failed v
  else
    match v.enterNative clo k nparams stackbase with
    | none => .failed (v.pushFrame stackbase (stackbase + nparams + k.outervalues.length))
    | some v' => .running (v'.countCall 1)

/-- The value of a call of a class is the instance, whatever the constructor returns. -/
def Begun.instead (inst : LVObject) : Begun → Begun
  | .returned _ v => .returned inst v
  | begun => begun

/-- `LVVM::Call`. -/
def call (v : LVVM) (closure : LVObject) (nparams : Nat) (stackbase : Int) (moved : Bool) : Begun :=
  match v.lookup closure with
  | some (.closure k) => beginClosure v closure k nparams stackbase moved
  | some (.nativeclosure k) => beginNative v closure k nparams stackbase
  | some (.class c) =>
    let (inst, v₁) := v.create .OT_INSTANCE (.instance closure c.call)
    let constr := c.constructor.getD .null
    match v.lookup constr with
    | some (.closure k) =>
      (beginClosure (v₁.setSlot stackbase inst) constr k nparams stackbase moved).instead inst
    | some (.nativeclosure k) => beginNative (v₁.setSlot stackbase inst) constr k nparams stackbase
    | _ => .returned inst v₁
  | _ => .failed v

/-- `lv_wakeupvm`: whether `Execute` goes on with the frame that `suspend` has left. `none` is
a machine without frames. -/
def lv_wakeupvm (t : Thread) (wakeupret : Bool) : Option (Bool × Thread) :=
  if t.suspended = false then some (false, t)
  else
    let slot := t.vm.stackbase + t.suspendedTarget
    let ret := if wakeupret then t.vm.stack (t.vm.top - 1) else .null
    let v := if t.suspendedTarget ≠ -1 then t.vm.setSlot slot ret else t.vm
    let v := if wakeupret then v.pop 1 else v
    if v.nnativecalls + 1 > MAX_NATIVE_CALLS then some (false, { t with vm := v })
    else
      match v.callsstack with
      | [] => none
      | ci :: rest =>
        some (true, { t with
          suspended := false
          vm := { v.countCall 1 with callsstack := { ci with root := t.suspendedRoot } :: rest } })

/-- `lv_settop`. -/
def settop (v : LVVM) (newtop : Int) : LVVM :=
  let top := v.top - v.stackbase
  if top > newtop then v.pop (top - newtop).toNat
  else { v.nullSlots v.top (v.stackbase + newtop) with top := v.stackbase + newtop }

/-- What `suspend` and the instruction `CALL` do once the native function has returned
`SUSPEND_FLAG`, with the value of the call. -/
def suspend (t : Thread) (sarg0 traps : Int) : Option (LVObject × Thread) :=
  if t.suspended ∨ t.vm.nnativecalls ≠ 2 then none
  else
    t.vm.leaveFrame.bind fun v =>
      match v.callsstack with
      | [] => none
      | ci :: _ =>
        some (t.vm.stack (t.vm.top - 1), { t with
          vm := v.countCall (-2), suspended := true, suspendedTarget := sarg0
          suspendedRoot := ci.root, suspendedTraps := traps })

/-! ## The machines together -/

/-- What the machine below waits in. -/
inductive Waiting where
  /-- The program that embeds the machines. -/
  | host
  /-- `thread.call`, which has pushed that many values. -/
  | call (nparams : Nat)
  /-- `thread.wakeup`, or `thread.wakeupthrow` with its last argument. -/
  | wakeup (rethrow : Bool)

structure Level where
  id : Nat
  waiting : Waiting

/-- The machine that runs comes first in `chain`; every other one there waits
for the one before it. -/
structure World where
  thread : Nat → Thread
  chain : List Level
  shared : ∀ s t, (thread s).vm.heap = (thread t).vm.heap ∧ (thread s).vm.next = (thread t).vm.next

/-- The thread on the heap of another one. -/
def Thread.seeing (t : Thread) (v : LVVM) : Thread :=
  { t with vm := { t.vm with heap := v.heap, next := v.next } }

/-- How a call of `thread.call`, `thread.wakeup` or `thread.wakeupthrow` ends. -/
inductive Answer where
  /-- `LV_ERROR`. -/
  | error
  | value
  /-- The thread runs now. -/
  | waits
  /-- Values are stored behind the end of the stack, or `Execute` has no frame. -/
  | undefined

namespace World

variable (w : World)

def put (s : Nat) (t : Thread) : World where
  thread := Function.update (fun r => (w.thread r).seeing t.vm) s t
  chain := w.chain
  shared r q := by
    have same : ∀ r, (Function.update (fun r => (w.thread r).seeing t.vm) s t r).vm.heap = t.vm.heap ∧
        (Function.update (fun r => (w.thread r).seeing t.vm) s t r).vm.next = t.vm.next := by
      intro r
      by_cases h : r = s
      · rw [h, Function.update_self]
        exact ⟨rfl, rfl⟩
      · rw [Function.update_of_ne h]
        exact ⟨rfl, rfl⟩
    exact ⟨(same r).1.trans (same q).1.symm, (same r).2.trans (same q).2.symm⟩

def putVM (s : Nat) (v : LVVM) : World := w.put s { w.thread s with vm := v }

def enter (level : Level) : World := { w with chain := level :: w.chain }

/-- The values a thread function of `s` was called with, from the second on. -/
def arguments (s : Nat) : List LVObject :=
  let v := (w.thread s).vm
  (List.range ((v.top - v.stackbase).toNat - 1)).map fun n => v.stack (v.stackbase + 1 + n)

/-- `lv_move(s, t, -1)` and `lv_pop(t, 1)`. -/
def moveResult (s t : Nat) : World :=
  let w := w.putVM s ((w.thread s).vm.push ((w.thread t).vm.stack ((w.thread t).vm.top - 1)))
  w.putVM t ((w.thread t).vm.pop 1)

/-- `thread.call` after `lv_call` has called the function with success. -/
def callReturned (s t nparams : Nat) (res : LVObject) : World :=
  let target := w.thread t
  let v := if target.suspended then target.vm else target.vm.pop nparams
  (w.putVM t (v.push res)).moveResult s t

/-- The machine `t` with the values that `thread.call` pushes: the root table and
the arguments. -/
def pushed (s t : Nat) : LVVM :=
  ((w.thread t).roottable :: w.arguments s).foldl push (w.thread t).vm

/-- The number of values of a call. -/
def nparams (s : Nat) : Nat := (w.arguments s).length + 1

/-- `thread_call` of the thread `t` by the machine `s`, up to where the callee
runs. -/
def thread_call (s t : Nat) (moved : Bool) : Answer × World :=
  let v := w.pushed s t
  let n := w.nparams s
  if v.top > v.stacksize then (.undefined, w)
  else
    match call v (v.stack (v.top - (n + 1))) n (v.top - n) moved with
    | .failed v => (.error, w.putVM t (v.pop n))
    | .returned res v => (.value, (w.putVM t v).callReturned s t n res)
    | .running v => (.waits, (w.putVM t v).enter ⟨t, .call n⟩)
    | .undefined => (.undefined, w)

/-- `thread.wakeup` after the thread has run: with success, `ret` is its value. -/
def wakeupReturned (s t : Nat) (ret : LVObject) : World :=
  let w := (w.putVM t ((w.thread t).vm.push ret)).moveResult s t
  if (w.thread t).lv_getvmstate = .LV_VMSTATE_IDLE then w.putVM t (settop (w.thread t).vm 1) else w

def wakeupFailed (t : Nat) (rethrow : Bool) : Answer × World :=
  (if rethrow then .error else .value, w.putVM t (settop (w.thread t).vm 1))

/-- `lv_wakeupvm` of `t`, called by a thread function. -/
def wake (t : Nat) (target : Thread) (wakeupret rethrow : Bool) : Answer × World :=
  match lv_wakeupvm target wakeupret with
  | none => (.undefined, w)
  | some (true, target) => (.waits, (w.put t target).enter ⟨t, .wakeup rethrow⟩)
  | some (false, target) => (w.put t target).wakeupFailed t rethrow

/-- `thread_wakeup`. -/
def thread_wakeup (s t : Nat) : Answer × World :=
  let target := w.thread t
  if target.lv_getvmstate ≠ .LV_VMSTATE_SUSPENDED then (.error, w)
  else
    match w.arguments s with
    | [] => w.wake t target false true
    | retval :: _ => w.wake t { target with vm := target.vm.push retval } true true

/-- `thread_wakeupthrow`. The exception goes through the thread's stack. -/
def thread_wakeupthrow (s t : Nat) (rethrow : Bool) : Answer × World :=
  let target := w.thread t
  if target.lv_getvmstate ≠ .LV_VMSTATE_SUSPENDED then (.error, w)
  else
    let error := (w.arguments s).headD .null
    w.wake t { target with vm := (target.vm.push error).pop 1 } false rethrow

/-- The call that the machine `s` waits in gets the value of `t`. -/
def returned (s t : Nat) (res : LVObject) : Waiting → World
  | .host => w
  | .call nparams => w.callReturned s t nparams res
  | .wakeup _ => w.wakeupReturned s t res

/-- It gets an error. -/
def failed (t : Nat) : Waiting → World
  | .host => w
  | .call nparams => w.putVM t ((w.thread t).vm.pop nparams)
  | .wakeup rethrow => (w.wakeupFailed t rethrow).2

end World

/-! ## Runs -/

/-- Nothing but the heap and slots outside `S` differ. -/
structure Thread.Keeps (S : Int → Prop) (a b : Thread) : Prop where
  rest : b = { a with vm :=
    { a.vm with stack := b.vm.stack, heap := b.vm.heap, next := b.vm.next } }
  stack : ∀ s, S s → b.vm.stack s = a.vm.stack s

/-- The thread apart from what is above the top of its stack. -/
def Thread.Unchanged (a b : Thread) : Prop := a.Keeps (· < a.vm.top) b

/-- The same, apart from captured variables as well. -/
def Thread.Stays (a b : Thread) : Prop :=
  a.Keeps (fun s => s < a.vm.top ∧ s ∉ a.vm.openouters.map Prod.snd) b

/-- Script code and native functions other than those of threads: they work on
the machine that runs them, and write the captured variables of any. -/
structure Work (s : Nat) (w w' : World) : Prop where
  chain : w'.chain = w.chain
  own : ∃ roottable vm, w'.thread s = { w.thread s with roottable, vm }
  others : ∀ t, t ≠ s → (w.thread t).Stays (w'.thread t)

inductive Event where
  | work
  | call (s t : Nat)
  /-- `thread.wakeup`, or with an exception `thread.wakeupthrow`. -/
  | wakeup (s t : Nat)
  | suspend
  /-- The code that a machine was entered for has ended. -/
  | end
  /-- The embedding program runs a machine. -/
  | host (r : Nat)

inductive Step : Event → World → World → Prop where
  | work {w w' s waiting rest} (chain : w.chain = ⟨s, waiting⟩ :: rest) (effect : Work s w w') :
      Step .work w w'
  /-- The native function has a frame on its machine. -/
  | call {w s waiting rest t moved} (chain : w.chain = ⟨s, waiting⟩ :: rest)
      (frame : (w.thread s).vm.callsstack.length ≠ 0) :
      Step (.call s t) w (w.thread_call s t moved).2
  | wakeup {w s waiting rest t} (chain : w.chain = ⟨s, waiting⟩ :: rest)
      (frame : (w.thread s).vm.callsstack.length ≠ 0) :
      Step (.wakeup s t) w (w.thread_wakeup s t).2
  | wakeupthrow {w s waiting rest t rethrow} (chain : w.chain = ⟨s, waiting⟩ :: rest)
      (frame : (w.thread s).vm.callsstack.length ≠ 0) :
      Step (.wakeup s t) w (w.thread_wakeupthrow s t rethrow).2
  | suspend {w s t waiting below rest target traps res thread}
      (chain : w.chain = ⟨t, waiting⟩ :: ⟨s, below⟩ :: rest)
      (suspends : Threads.suspend (w.thread t) target traps = some (res, thread)) :
      Step .suspend w
        { (w.put t thread).returned s t res waiting with chain := ⟨s, below⟩ :: rest }
  | suspendHost {w t target traps res thread} (chain : w.chain = [⟨t, .host⟩])
      (suspends : Threads.suspend (w.thread t) target traps = some (res, thread)) :
      Step .suspend w { w.put t thread with chain := [] }
  | returned {w s t waiting below rest res}
      (chain : w.chain = ⟨t, waiting⟩ :: ⟨s, below⟩ :: rest) :
      Step .end w { w.returned s t res waiting with chain := ⟨s, below⟩ :: rest }
  | failed {w s t waiting below rest}
      (chain : w.chain = ⟨t, waiting⟩ :: ⟨s, below⟩ :: rest) :
      Step .end w { w.failed t waiting with chain := ⟨s, below⟩ :: rest }
  | endHost {w t} (chain : w.chain = [⟨t, .host⟩]) : Step .end w { w with chain := [] }
  | host {w r} (chain : w.chain = []) (awake : (w.thread r).suspended = false) :
      Step (.host r) w (w.enter ⟨r, .host⟩)
  | hostWakes {w r thread wakeupret} (chain : w.chain = [])
      (wakes : lv_wakeupvm (w.thread r) wakeupret = some (true, thread)) :
      Step (.host r) w ((w.put r thread).enter ⟨r, .host⟩)

/-- Steps that each meet a condition on the state before it. -/
inductive Runs (Allowed : World → Event → Prop) : World → World → Prop where
  | refl {w} : Runs Allowed w w
  | step {w w' w'' ev} (run : Runs Allowed w w') (allowed : Allowed w' ev)
      (step : Step ev w' w'') : Runs Allowed w w''

/-- The embedding program is about to run one of the machines. -/
structure Initial (w : World) : Prop where
  chain : w.chain = []
  awake : ∀ t, (w.thread t).suspended = false

end Threads
end Lavril
