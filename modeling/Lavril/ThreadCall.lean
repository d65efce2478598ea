import Lavril.Bookkeeping
import Lavril.Threads

/-!
# Calls of threads that are suspended or running

`thread.wakeup` looks at the state of the thread first, `thread.call` does not:
it calls whatever is on top of the thread's stack. As long as `LVVM::Call`
refuses that, a thread runs at most once, and a suspended one stays as it is
until it is woken.
-/

namespace Lavril
namespace Threads

open LVVM

variable {v v' : LVVM} {o : LVObject} {k : LVClosure} {stackbase : Int}

/-! ## What `LVVM::Call` refuses -/

/-- The number of arguments is right, or made right by default values. -/
def AcceptsNumber (k : LVClosure) (nargs : Nat) : Prop :=
  let nparameters := k.function.parameters.length
  let ndef := k.function.defaultparams.length
  if k.function.varparams then nparameters ≤ nargs + 1
  else nparameters = nargs ∨ (ndef ≠ 0 ∧ nargs < nparameters ∧ nparameters ≤ nargs + ndef)

def RefusesClosure (v : LVVM) (k : LVClosure) (nargs : Nat) : Prop :=
  v.nnativecalls + 1 > MAX_NATIVE_CALLS ∨ ¬ AcceptsNumber k nargs

def RefusesNative (v : LVVM) (k : LVNativeClosure) (nargs : Nat) (stackbase : Int) : Prop :=
  v.nnativecalls + 1 > MAX_NATIVE_CALLS ∨ v.acceptsArgs k nargs stackbase = false

/-- `LVVM::Call` returns false before it enters a frame. The constructor of a
class has the new instance as its first argument. -/
def Refuses (v : LVVM) (closure : LVObject) (nargs : Nat) (stackbase : Int) : Prop :=
  match v.lookup closure with
  | some (.closure k) => RefusesClosure v k nargs
  | some (.nativeclosure k) => RefusesNative v k nargs stackbase
  | some (.class c) =>
    match v.lookup (c.constructor.getD .null) with
    | some (.closure k) => RefusesClosure v k nargs
    | some (.nativeclosure k) =>
      RefusesNative (v.setSlot stackbase (.ofAddress .OT_INSTANCE v.next)) k nargs stackbase
    | _ => False
  | _ => True

/-- Below `limit` the stack is the same, and so is everything but the heap. -/
structure SameMachine (limit : Int) (v v' : LVVM) : Prop where
  rest : v' = { v with stack := v'.stack, heap := v'.heap, next := v'.next }
  stack : ∀ s, s < limit → v'.stack s = v.stack s

theorem SameMachine.refl (limit : Int) (v : LVVM) : SameMachine limit v v := ⟨rfl, fun _ _ => rfl⟩

theorem SameMachine.symm {limit : Int} (same : SameMachine limit v v') : SameMachine limit v' v where
  rest := by rw [same.rest]
  stack s lt := (same.stack s lt).symm

theorem SameMachine.trans {limit : Int} {v'' : LVVM} (h₁ : SameMachine limit v v')
    (h₂ : SameMachine limit v' v'') : SameMachine limit v v'' where
  rest := by rw [h₂.rest, h₁.rest]
  stack s lt := (h₂.stack s lt).trans (h₁.stack s lt)

theorem SameMachine.callsstack {limit : Int} (same : SameMachine limit v v') :
    v'.callsstack = v.callsstack := by rw [same.rest]

theorem bindParameters_isSome_iff (v : LVVM) (k : LVClosure) (nargs : Nat) (stackbase : Int) :
    (v.bindParameters k nargs stackbase).isSome ↔ AcceptsNumber k nargs := by
  simp only [bindParameters, AcceptsNumber]
  by_cases varargs : k.function.varparams = true
  · rw [if_pos varargs, if_pos varargs]
    split
    · rename_i few
      simp only [Option.isSome_none, Bool.false_eq_true, false_iff]
      omega
    · rename_i few
      simp only [Option.isSome_some, true_iff]
      omega
  · rw [if_neg varargs, if_neg varargs]
    split
    · rename_i number
      split
      · rename_i defaults
        simp only [Option.isSome_some, true_iff]
        omega
      · rename_i none
        simp only [Option.isSome_none, Bool.false_eq_true, false_iff]
        omega
    · rename_i number
      simp only [Option.isSome_some, true_iff]
      omega

/-- A script function whose frame has been entered is called. -/
theorem executeCall_ne_fail {clo : LVObject} {nargs : Nat} {moved : Bool} {bound entered : LVVM}
    (limit : ¬ v.nnativecalls + 1 > MAX_NATIVE_CALLS)
    (bind : v.bindParameters k nargs stackbase = some bound)
    (enter : (bound.setEnv k.env stackbase).enterFrame stackbase
      (stackbase + k.function.stacksize) false = some entered) :
    ∀ w, v.executeCall clo k nargs stackbase moved ≠ .fail w := by
  intro w fails
  have room := (enterFrame_stacksize enter).2
  obtain ⟨size, calls⟩ := bound_stacksize bind
  rw [size, calls] at room
  obtain ⟨started, start⟩ := startFrame_isSome clo (v.top - nargs) (by rw [bind]; rfl) room
  have called : ∃ v₁, v.startCall clo k (v.top - nargs) nargs stackbase false = some v₁ := by
    simp only [startCall, start, Option.bind_eq_bind, Option.bind_some]
    by_cases generator : k.function.bgenerator = true
    · rw [if_pos generator]
      have enters : Enters v started := startFrame_bookkeeping start
      obtain ⟨ci, frames, -⟩ := enters.frame
      exact startGenerator_isSome clo k (v.top - nargs) frames
    · rw [if_neg generator]
      exact ⟨started, rfl⟩
  obtain ⟨v₁, call⟩ := called
  simp only [executeCall, if_neg limit, call] at fails
  split at fails
  · cases fails
  · split at fails <;> cases fails

/-- A call that leaves a frame behind has not left the machine as it was. -/
theorem SameMachine.not_pushFrame {limit newbase newtop : Int} {w : LVVM}
    (frames : w.callsstack = v.callsstack) : ¬ SameMachine limit v (w.pushFrame newbase newtop) := by
  intro same
  have longer := congrArg List.length same.callsstack
  simp only [pushFrame, List.length_cons, frames] at longer
  omega

theorem beginClosure_refuses_iff {clo : LVObject} {nargs : Nat} {limit : Int} {moved : Bool} :
    (∃ v', beginClosure v clo k nargs stackbase moved = .failed v' ∧ SameMachine limit v v') ↔
      RefusesClosure v k nargs := by
  unfold RefusesClosure
  rw [← bindParameters_isSome_iff v k nargs stackbase]
  constructor
  · rintro ⟨v', begun, same⟩
    by_contra accepted
    obtain ⟨limit, parameters⟩ := not_or.mp accepted
    obtain ⟨bound, bind⟩ := Option.isSome_iff_exists.mp (not_not.mp parameters)
    simp only [beginClosure, if_neg limit, bind] at begun
    split at begun
    · cases begun
      have frames : (bound.setEnv k.env stackbase).callsstack = v.callsstack := by
        rw [setEnv_callsstack]
        exact congrArg Bookkeeping.callsstack (bindParameters_bookkeeping bind)
      exact same.not_pushFrame frames
    · rename_i entered enter
      split at begun
      · rename_i w fails
        exact executeCall_ne_fail limit bind enter w fails
      · cases begun
      · cases begun
      · cases begun
  · intro refuses
    refine ⟨v, ?_, .refl limit v⟩
    unfold beginClosure
    by_cases limit : v.nnativecalls + 1 > MAX_NATIVE_CALLS
    · rw [if_pos limit]
    · have none : v.bindParameters k nargs stackbase = none :=
        Option.not_isSome_iff_eq_none.mp (refuses.resolve_left limit)
      rw [if_neg limit, none]

theorem beginNative_refuses_iff {clo : LVObject} {k : LVNativeClosure} {nargs : Nat} {limit : Int} :
    (∃ v', beginNative v clo k nargs stackbase = .failed v' ∧ SameMachine limit v v') ↔
      RefusesNative v k nargs stackbase := by
  unfold RefusesNative
  constructor
  · rintro ⟨v', begun, same⟩
    by_contra accepted
    obtain ⟨limit, args⟩ := not_or.mp accepted
    simp only [beginNative, if_neg limit, if_neg args] at begun
    split at begun
    · cases begun
      exact same.not_pushFrame rfl
    · cases begun
  · intro refuses
    refine ⟨v, ?_, .refl limit v⟩
    unfold beginNative
    by_cases limit : v.nnativecalls + 1 > MAX_NATIVE_CALLS
    · rw [if_pos limit]
    · rw [if_neg limit, if_pos (refuses.resolve_left limit)]

theorem instead_failed {inst : LVObject} {begun : Begun} :
    begun.instead inst = .failed v ↔ begun = .failed v := by
  cases begun <;> simp [Begun.instead]

theorem call_refuses_iff (v : LVVM) (closure : LVObject) (nargs : Nat) (stackbase : Int)
    (moved : Bool) :
    (∃ v', call v closure nargs stackbase moved = .failed v' ∧ SameMachine stackbase v v') ↔
      Refuses v closure nargs stackbase := by
  have refused : (∃ v', Begun.failed v = .failed v' ∧ SameMachine stackbase v v') ↔ True :=
    ⟨fun _ => trivial, fun _ => ⟨v, rfl, .refl stackbase v⟩⟩
  have made : ∀ {w inst v₁}, (∃ v', Begun.returned inst v₁ = .failed v' ∧
      SameMachine stackbase w v') ↔ False := by
    refine ⟨?_, False.elim⟩
    rintro ⟨v', begun, -⟩
    cases begun
  unfold call Refuses
  rcases v.lookup closure with _ | object
  · exact refused
  cases object with
  | closure k => exact beginClosure_refuses_iff
  | nativeclosure k => exact beginNative_refuses_iff
  | «class» c =>
    -- the constructor is called on a machine that has the instance already
    let w := (v.create .OT_INSTANCE (.instance closure c.call)).2.setSlot stackbase
      (.ofAddress .OT_INSTANCE v.next)
    have created : SameMachine stackbase v w :=
      ⟨rfl, fun s lt => setSlot_stack_of_ne (v := (v.create _ _).2) (by omega)⟩
    have same : ∀ v', SameMachine stackbase v v' ↔ SameMachine stackbase w v' := fun v' =>
      ⟨created.symm.trans, created.trans⟩
    simp only [same]
    rcases v.lookup (c.constructor.getD .null) with _ | constr
    · exact made
    cases constr with
    | closure k =>
      simp only [instead_failed]
      exact beginClosure_refuses_iff (v := w)
    | nativeclosure k => exact beginNative_refuses_iff (v := w)
    | _ => exact made
  | _ => exact refused

/-! ## `thread.call` of one thread -/

theorem foldl_push_same (args : List LVObject) (v : LVVM) :
    args.foldl push v = { v with
      stack := (args.foldl push v).stack, top := v.top + args.length } ∧
    ∀ s, s < v.top → (args.foldl push v).stack s = v.stack s := by
  induction args generalizing v with
  | nil =>
    refine ⟨?_, fun _ _ => rfl⟩
    simp only [List.foldl_nil, List.length_nil, Int.natCast_zero, add_zero]
  | cons o args ih =>
    obtain ⟨same, stack⟩ := ih (v.push o)
    constructor
    · rw [List.foldl_cons, same]
      simp only [push, setSlot, List.length_cons, Int.natCast_add, Int.natCast_one]
      congr 1
      omega
    · intro s lt
      rw [List.foldl_cons, stack s (by simp only [push]; omega)]
      exact setSlot_stack_of_ne (by omega)

/-! ## What an operation leaves of a thread -/

theorem Thread.Stays.frames {a b : Thread} (stays : a.Stays b) :
    b.suspended = a.suspended ∧ b.vm.callsstack = a.vm.callsstack := by
  constructor
  · rw [stays.rest]
  · rw [stays.rest]

theorem Thread.Stays.refl (a : Thread) : a.Stays a := ⟨rfl, fun _ _ => rfl⟩

theorem Thread.Stays.trans {a b c : Thread} (h₁ : a.Stays b) (h₂ : b.Stays c) : a.Stays c where
  rest := by rw [h₂.rest, h₁.rest]
  stack slot own := by
    have top : b.vm.top = a.vm.top := by rw [h₁.rest]
    have outers : b.vm.openouters = a.vm.openouters := by rw [h₁.rest]
    rw [h₂.stack slot (by rwa [top, outers]), h₁.stack slot own]

theorem Thread.Unchanged.stays {a b : Thread} (unchanged : a.Unchanged b) : a.Stays b :=
  ⟨unchanged.rest, fun slot own => unchanged.stack slot own.1⟩

theorem Thread.seeing_stays (a : Thread) (v : LVVM) : a.Stays (a.seeing v) := ⟨rfl, fun _ _ => rfl⟩

namespace World

variable {w w' : World} {s t r : Nat} {thread : Thread}

@[simp] theorem put_thread_self : (w.put t thread).thread t = thread := by
  simp only [put, Function.update_self]

theorem put_thread_of_ne (ne : r ≠ t) :
    (w.put t thread).thread r = (w.thread r).seeing thread.vm := by
  simp only [put, Function.update_of_ne ne]

@[simp] theorem putVM_thread_self : (w.putVM t v).thread t = { w.thread t with vm := v } :=
  put_thread_self

theorem pushed_same (w : World) (s t : Nat) :
    w.pushed s t = { (w.thread t).vm with
      stack := (w.pushed s t).stack, top := (w.thread t).vm.top + w.nparams s } ∧
    ∀ slot, slot < (w.thread t).vm.top →
      (w.pushed s t).stack slot = (w.thread t).vm.stack slot := by
  obtain ⟨same, stack⟩ := foldl_push_same ((w.thread t).roottable :: w.arguments s) (w.thread t).vm
  exact ⟨same, stack⟩

/-- `thread.call` answers with an error and leaves the thread as it was. -/
def RejectsCall (w : World) (s t : Nat) (moved : Bool) : Prop :=
  (∃ w', w.thread_call s t moved = (.error, w') ∧ (w.thread t).Unchanged (w'.thread t))

/-- What is on top of the thread's stack is refused, and the values that are pushed
for it are on the stack. -/
structure CallRefused (w : World) (s t : Nat) : Prop where
  fits : (w.thread t).vm.top + w.nparams s ≤ (w.thread t).vm.stacksize
  refuses : Refuses (w.pushed s t) ((w.thread t).vm.stack ((w.thread t).vm.top - 1)) (w.nparams s)
    (w.thread t).vm.top

/-- Popping what has been pushed leaves the thread as it was if the call has done so. -/
theorem unchanged_pop_iff (w : World) (s t : Nat) (v' : LVVM) (top : v'.top = (w.pushed s t).top) :
    (w.thread t).Unchanged { w.thread t with vm := v'.pop (w.nparams s) } ↔
      SameMachine (w.thread t).vm.top (w.pushed s t) v' := by
  obtain ⟨pushed, stack⟩ := w.pushed_same s t
  have back : v'.top - w.nparams s = (w.thread t).vm.top := by
    rw [top, pushed]
    simp only
    omega
  have below : ∀ slot, slot < (w.thread t).vm.top →
      (v'.pop (w.nparams s)).stack slot = v'.stack slot := fun slot lt =>
    nullSlots_stack_of_lt (by omega)
  have machine : v'.pop (w.nparams s) = { (w.thread t).vm with
      stack := (v'.pop (w.nparams s)).stack, heap := v'.heap, next := v'.next } ↔
      v' = { w.pushed s t with stack := v'.stack, heap := v'.heap, next := v'.next } := by
    rw [pushed]
    rw [pushed] at top
    cases v'
    simp only [pop, nullSlots, LVVM.mk.injEq, true_and, and_true] at top back ⊢
    simp only [top, add_sub_cancel_right, true_and]
  constructor
  · intro unchanged
    refine ⟨machine.mp (congrArg Thread.vm unchanged.rest), fun slot lt => ?_⟩
    rw [stack slot lt, ← unchanged.stack slot lt]
    exact (below slot lt).symm
  · intro same
    refine ⟨?_, fun slot lt => ?_⟩
    · exact congrArg (fun vm => { w.thread t with vm }) (machine.mpr same.rest)
    · exact (below slot lt).trans ((same.stack slot lt).trans (stack slot lt))

/-- `thread.call` looks at the top of the thread's stack and at nothing else. -/
theorem rejectsCall_iff (w : World) (s t : Nat) (moved : Bool) :
    w.RejectsCall s t moved ↔ w.CallRefused s t := by
  obtain ⟨pushed, stack⟩ := w.pushed_same s t
  have top : (w.pushed s t).top = (w.thread t).vm.top + w.nparams s := by rw [pushed]
  have size : (w.pushed s t).stacksize = (w.thread t).vm.stacksize := by rw [pushed]
  have base : (w.pushed s t).top - w.nparams s = (w.thread t).vm.top := by omega
  have closure : (w.pushed s t).stack ((w.pushed s t).top - (w.nparams s + 1)) =
      (w.thread t).vm.stack ((w.thread t).vm.top - 1) := by
    rw [← stack _ (by omega)]
    congr 1
    omega
  have refuses := call_refuses_iff (w.pushed s t) ((w.thread t).vm.stack ((w.thread t).vm.top - 1))
    (w.nparams s) (w.thread t).vm.top moved
  by_cases fits : (w.pushed s t).top > (w.pushed s t).stacksize
  · constructor
    · rintro ⟨w', answer, -⟩
      simp only [thread_call, if_pos fits, Prod.mk.injEq, reduceCtorEq, false_and] at answer
    · intro refused
      have := refused.fits
      omega
  · constructor
    · rintro ⟨w', answer, unchanged⟩
      refine ⟨by omega, refuses.mp ?_⟩
      simp only [thread_call, if_neg fits, base, closure] at answer
      split at answer
      · rename_i v' begun
        obtain ⟨-, rfl⟩ := Prod.mk.inj answer
        rw [putVM_thread_self] at unchanged
        have back : v'.top - w.nparams s = (w.thread t).vm.top :=
          congrArg (fun a => a.vm.top) unchanged.rest
        exact ⟨v', begun, (w.unchanged_pop_iff s t v' (by omega)).mp unchanged⟩
      · cases answer
      · cases answer
      · cases answer
    · intro refused
      obtain ⟨v', begun, same⟩ := refuses.mpr refused.refuses
      refine ⟨w.putVM t (v'.pop (w.nparams s)), ?_, ?_⟩
      · simp only [thread_call, if_neg fits, base, closure, begun]
      · rw [putVM_thread_self]
        exact (w.unchanged_pop_iff s t v' (by rw [same.rest])).mpr same

/-! ## What the steps leave alone -/

/-- The frames and the flag of the machines outside `T`. -/
def FramesStay (T : Set Nat) (w w' : World) : Prop :=
  ∀ r, r ∉ T → (w'.thread r).suspended = (w.thread r).suspended ∧
    (w'.thread r).vm.callsstack = (w.thread r).vm.callsstack

/-- The machines outside `T`. -/
def OthersStay (T : Set Nat) (w w' : World) : Prop :=
  ∀ r, r ∉ T → (w.thread r).Stays (w'.thread r)

variable {T : Set Nat} {w'' : World}

theorem FramesStay.refl (w : World) : FramesStay T w w := fun _ _ => ⟨rfl, rfl⟩

theorem FramesStay.trans (h₁ : FramesStay T w w') (h₂ : FramesStay T w' w'') :
    FramesStay T w w'' := by
  intro r out
  obtain ⟨flag₁, frames₁⟩ := h₁ r out
  obtain ⟨flag₂, frames₂⟩ := h₂ r out
  exact ⟨flag₂.trans flag₁, frames₂.trans frames₁⟩

theorem OthersStay.refl (w : World) : OthersStay T w w := fun _ _ => .refl _

theorem OthersStay.trans (h₁ : OthersStay T w w') (h₂ : OthersStay T w' w'') :
    OthersStay T w w'' := fun r out => (h₁ r out).trans (h₂ r out)

theorem put_framesStay (mem : t ∈ T) : FramesStay T w (w.put t thread) := by
  intro r out
  have ne : r ≠ t := fun eq => out (eq ▸ mem)
  rw [put_thread_of_ne ne]
  exact ((w.thread r).seeing_stays thread.vm).frames

theorem putVM_framesStay (frames : v.callsstack = (w.thread t).vm.callsstack) :
    FramesStay T w (w.putVM t v) := by
  intro r out
  by_cases h : r = t
  · rw [h, putVM_thread_self]
    exact ⟨rfl, frames⟩
  · rw [putVM, put_thread_of_ne h]
    exact ((w.thread r).seeing_stays v).frames

theorem put_othersStay (mem : t ∈ T) : OthersStay T w (w.put t thread) := by
  intro r out
  have ne : r ≠ t := fun eq => out (eq ▸ mem)
  rw [put_thread_of_ne ne]
  exact (w.thread r).seeing_stays thread.vm

theorem moveResult_framesStay : FramesStay T w (w.moveResult s t) := by
  have pushed : FramesStay T w
      (w.putVM s ((w.thread s).vm.push ((w.thread t).vm.stack ((w.thread t).vm.top - 1)))) :=
    putVM_framesStay rfl
  exact pushed.trans (putVM_framesStay rfl)

theorem moveResult_othersStay (memS : s ∈ T) (memT : t ∈ T) : OthersStay T w (w.moveResult s t) :=
  .trans (put_othersStay memS) (put_othersStay memT)

theorem callReturned_framesStay {n : Nat} {res : LVObject} :
    FramesStay T w (w.callReturned s t n res) := by
  have called : FramesStay T w (w.putVM t ((if (w.thread t).suspended then (w.thread t).vm
      else (w.thread t).vm.pop n).push res)) := by
    refine putVM_framesStay ?_
    split <;> rfl
  exact called.trans moveResult_framesStay

theorem callReturned_othersStay {n : Nat} {res : LVObject} (memS : s ∈ T) (memT : t ∈ T) :
    OthersStay T w (w.callReturned s t n res) :=
  .trans (put_othersStay memT) (moveResult_othersStay memS memT)

theorem settop_callsstack (v : LVVM) (n : Int) : (settop v n).callsstack = v.callsstack := by
  simp only [settop]
  split <;> rfl

theorem wakeupReturned_framesStay {ret : LVObject} :
    FramesStay T w (w.wakeupReturned s t ret) := by
  have pushed : FramesStay T w (w.putVM t ((w.thread t).vm.push ret)) := putVM_framesStay rfl
  have moved := pushed.trans (moveResult_framesStay (s := s) (t := t))
  simp only [wakeupReturned]
  split
  · exact moved.trans (putVM_framesStay (settop_callsstack _ _))
  · exact moved

theorem wakeupReturned_othersStay {ret : LVObject} (memS : s ∈ T) (memT : t ∈ T) :
    OthersStay T w (w.wakeupReturned s t ret) := by
  have pushed : OthersStay T w (w.putVM t ((w.thread t).vm.push ret)) := put_othersStay memT
  have moved := pushed.trans (moveResult_othersStay memS memT)
  simp only [wakeupReturned]
  split
  · exact moved.trans (put_othersStay memT)
  · exact moved

theorem returned_framesStay {res : LVObject} (waiting : Waiting) :
    FramesStay T w (w.returned s t res waiting) := by
  cases waiting with
  | host => exact .refl w
  | call n => exact callReturned_framesStay
  | wakeup rethrow => exact wakeupReturned_framesStay

theorem returned_othersStay {res : LVObject} (waiting : Waiting) (memS : s ∈ T) (memT : t ∈ T) :
    OthersStay T w (w.returned s t res waiting) := by
  cases waiting with
  | host => exact .refl w
  | call n => exact callReturned_othersStay memS memT
  | wakeup rethrow => exact wakeupReturned_othersStay memS memT

theorem failed_framesStay (waiting : Waiting) : FramesStay T w (w.failed t waiting) := by
  cases waiting with
  | host => exact .refl w
  | call n => exact putVM_framesStay rfl
  | wakeup rethrow => exact putVM_framesStay (settop_callsstack _ _)

theorem failed_othersStay (waiting : Waiting) (memT : t ∈ T) :
    OthersStay T w (w.failed t waiting) := by
  cases waiting with
  | host => exact .refl w
  | call n => exact put_othersStay memT
  | wakeup rethrow => exact put_othersStay memT

/-- What a thread function does at most: it enters the thread. -/
structure MayEnter (w : World) (t : Nat) (w' : World) : Prop where
  frames : FramesStay {t} w w'
  chain : w'.chain = w.chain ∨
    ((w'.thread t).suspended = false ∧ ∃ waiting, w'.chain = ⟨t, waiting⟩ :: w.chain)

theorem thread_call_mayEnter (moved : Bool) (awake : (w.thread t).suspended = false) :
    MayEnter w t (w.thread_call s t moved).2 := by
  have self : t ∈ ({t} : Set Nat) := rfl
  simp only [thread_call]
  split
  · exact ⟨.refl w, .inl rfl⟩
  · split
    · exact ⟨put_framesStay self, .inl rfl⟩
    · rename_i res v begun
      have called : FramesStay {t} w (w.putVM t v) := put_framesStay self
      exact ⟨called.trans callReturned_framesStay, .inl rfl⟩
    · refine ⟨put_framesStay self, .inr ⟨?_, _, rfl⟩⟩
      simp only [enter, putVM_thread_self]
      exact awake
    · exact ⟨.refl w, .inl rfl⟩

theorem thread_call_othersStay (moved : Bool) (memS : s ∈ T) (memT : t ∈ T) :
    OthersStay T w (w.thread_call s t moved).2 := by
  simp only [thread_call]
  split
  · exact .refl w
  · split
    · exact put_othersStay memT
    · rename_i res v begun
      have called : OthersStay T w (w.putVM t v) := put_othersStay memT
      exact called.trans (callReturned_othersStay memS memT)
    · rename_i v begun
      have called : OthersStay T w (w.putVM t v) := put_othersStay memT
      exact called
    · exact .refl w

theorem lv_wakeupvm_awake {target target' : Thread} {wakeupret : Bool}
    (wakes : lv_wakeupvm target wakeupret = some (true, target')) : target'.suspended = false := by
  unfold lv_wakeupvm at wakes
  split at wakes
  · cases wakes
  · extract_lets slot ret stored v at wakes
    clear_value v
    split at wakes
    · cases wakes
    · split at wakes
      · cases wakes
      · cases wakes
        rfl

theorem wake_mayEnter (target : Thread) (wakeupret rethrow : Bool) :
    MayEnter w t (w.wake t target wakeupret rethrow).2 := by
  have self : t ∈ ({t} : Set Nat) := rfl
  unfold wake
  split
  · exact ⟨.refl w, .inl rfl⟩
  · rename_i target' wakes
    refine ⟨put_framesStay self, .inr ⟨?_, _, rfl⟩⟩
    simp only [enter, put_thread_self]
    exact lv_wakeupvm_awake wakes
  · rename_i target' fails
    have put : FramesStay {t} w (w.put t target') := put_framesStay self
    exact ⟨put.trans (putVM_framesStay (settop_callsstack _ _)), .inl rfl⟩

theorem wake_othersStay (target : Thread) (wakeupret rethrow : Bool) (memT : t ∈ T) :
    OthersStay T w (w.wake t target wakeupret rethrow).2 := by
  unfold wake
  split
  · exact .refl w
  · rename_i target' wakes
    have put : OthersStay T w (w.put t target') := put_othersStay memT
    exact put
  · rename_i target' fails
    have put : OthersStay T w (w.put t target') := put_othersStay memT
    exact put.trans (put_othersStay memT)

/-- `thread.wakeup` and `thread.wakeupthrow` look at the state first. -/
theorem thread_wakeup_rejects
    (state : (w.thread t).lv_getvmstate ≠ .LV_VMSTATE_SUSPENDED) (rethrow : Bool) :
    w.thread_wakeup s t = (.error, w) ∧ w.thread_wakeupthrow s t rethrow = (.error, w) :=
  ⟨if_pos state, if_pos state⟩

theorem thread_wakeup_mayEnter : MayEnter w t (w.thread_wakeup s t).2 := by
  simp only [thread_wakeup]
  split
  · exact ⟨.refl w, .inl rfl⟩
  · split
    · exact wake_mayEnter _ _ _
    · exact wake_mayEnter _ _ _

theorem thread_wakeup_othersStay (memT : t ∈ T) : OthersStay T w (w.thread_wakeup s t).2 := by
  simp only [thread_wakeup]
  split
  · exact .refl w
  · split
    · exact wake_othersStay _ _ _ memT
    · exact wake_othersStay _ _ _ memT

theorem thread_wakeupthrow_mayEnter (rethrow : Bool) :
    MayEnter w t (w.thread_wakeupthrow s t rethrow).2 := by
  simp only [thread_wakeupthrow]
  split
  · exact ⟨.refl w, .inl rfl⟩
  · exact wake_mayEnter _ _ _

theorem thread_wakeupthrow_othersStay (rethrow : Bool) (memT : t ∈ T) :
    OthersStay T w (w.thread_wakeupthrow s t rethrow).2 := by
  simp only [thread_wakeupthrow]
  split
  · exact .refl w
  · exact wake_othersStay _ _ _ memT

/-! ## Runs in which calls of busy threads are refused -/

/-- No machine runs twice or while it is suspended, and one that waits is in a frame. -/
structure Apart (w : World) : Prop where
  nodup : (w.chain.map Level.id).Nodup
  awake : ∀ l ∈ w.chain, (w.thread l.id).suspended = false
  waits : ∀ l ∈ w.chain.tail, (w.thread l.id).vm.callsstack.length ≠ 0

/-- The condition on a step. -/
def Guarded (w : World) : Event → Prop
  | .call s t => (w.thread t).lv_getvmstate ≠ .LV_VMSTATE_IDLE → w.CallRefused s t
  | _ => True

theorem Apart.framesStay (apart : Apart w) (stay : FramesStay ∅ w w')
    (chain : w'.chain = w.chain) : Apart w' where
  nodup := chain ▸ apart.nodup
  awake l mem := (stay l.id (Set.notMem_empty _)).1.trans (apart.awake l (chain ▸ mem))
  waits l mem := by
    rw [(stay l.id (Set.notMem_empty _)).2]
    exact apart.waits l (chain ▸ mem)

/-- A suspended machine is not on the chain. -/
theorem Apart.asleep (apart : Apart w) (asleep : (w.thread t).suspended = true) :
    t ∉ w.chain.map Level.id := by
  intro mem
  obtain ⟨l, here, rfl⟩ := List.mem_map.mp mem
  rw [apart.awake l here] at asleep
  cases asleep

/-- A thread that is not on the chain is entered by a machine that has a frame. -/
theorem Apart.enter (apart : Apart w) {waiting : Waiting} {rest : List Level}
    (chain : w.chain = ⟨s, waiting⟩ :: rest) (frame : (w.thread s).vm.callsstack.length ≠ 0)
    (out : t ∉ w.chain.map Level.id) (enters : MayEnter w t w') : Apart w' := by
  have same : ∀ l ∈ w.chain, (w'.thread l.id).suspended = (w.thread l.id).suspended ∧
      (w'.thread l.id).vm.callsstack = (w.thread l.id).vm.callsstack := by
    intro l mem
    apply enters.frames
    rintro rfl
    exact out (List.mem_map_of_mem mem)
  have awake : ∀ l ∈ w.chain, (w'.thread l.id).suspended = false := fun l mem =>
    (same l mem).1.trans (apart.awake l mem)
  rcases enters.chain with chain' | ⟨self, waits, chain'⟩
  · refine ⟨chain' ▸ apart.nodup, ?_, ?_⟩
    · rw [chain']
      exact awake
    · intro l mem
      rw [chain'] at mem
      rw [(same l (List.mem_of_mem_tail mem)).2]
      exact apart.waits l mem
  · refine ⟨?_, ?_, ?_⟩
    · rw [chain', List.map_cons, List.nodup_cons]
      exact ⟨out, apart.nodup⟩
    · intro l mem
      rw [chain', List.mem_cons] at mem
      rcases mem with rfl | mem
      · exact self
      · exact awake l mem
    · intro l mem
      rw [chain', List.tail_cons] at mem
      rw [(same l mem).2]
      rw [chain] at mem
      rcases List.mem_cons.mp mem with rfl | below
      · exact frame
      · apply apart.waits l
        rw [chain]
        exact below

/-- The machine on top ends or is suspended. -/
theorem Apart.leave (apart : Apart w) {waiting below : Waiting} {rest : List Level}
    (chain : w.chain = ⟨t, waiting⟩ :: ⟨s, below⟩ :: rest) (stay : FramesStay {t} w w')
    (chain' : w'.chain = ⟨s, below⟩ :: rest) : Apart w' := by
  have nodup := apart.nodup
  rw [chain, List.map_cons, List.nodup_cons] at nodup
  have same : ∀ l ∈ w'.chain, (w'.thread l.id).suspended = (w.thread l.id).suspended ∧
      (w'.thread l.id).vm.callsstack = (w.thread l.id).vm.callsstack := by
    intro l mem
    apply stay
    intro eq
    rw [chain'] at mem
    exact nodup.1 (List.mem_map.mpr ⟨l, mem, eq⟩)
  have tail : w'.chain = w.chain.tail := by rw [chain', chain, List.tail_cons]
  refine ⟨chain' ▸ nodup.2, fun l mem => ?_, fun l mem => ?_⟩
  · rw [(same l mem).1]
    exact apart.awake l (List.mem_of_mem_tail (tail ▸ mem))
  · rw [(same l (List.mem_of_mem_tail mem)).2]
    exact apart.waits l (List.mem_of_mem_tail (tail ▸ mem))

theorem Apart.nothing (chain : w.chain = []) : Apart w where
  nodup := by
    rw [chain]
    exact List.nodup_nil
  awake l mem := by
    rw [chain] at mem
    cases mem
  waits l mem := by
    rw [chain] at mem
    cases mem

theorem Apart.host (chain : w.chain = [⟨r, .host⟩]) (awake : (w.thread r).suspended = false) :
    Apart w where
  nodup := by
    rw [chain]
    exact List.nodup_singleton _
  awake l mem := by
    rw [chain, List.mem_singleton] at mem
    rw [mem]
    exact awake
  waits l mem := by
    rw [chain] at mem
    cases mem

theorem lv_getvmstate_idle {a : Thread} : a.lv_getvmstate = .LV_VMSTATE_IDLE ↔
    a.suspended = false ∧ a.vm.callsstack.length = 0 := by
  unfold Thread.lv_getvmstate
  cases a.suspended with
  | true => simp
  | false =>
    by_cases h : a.vm.callsstack.length = 0
    · simp [h]
    · simp [h]

theorem lv_getvmstate_suspended {a : Thread} :
    a.lv_getvmstate = .LV_VMSTATE_SUSPENDED ↔ a.suspended = true := by
  unfold Thread.lv_getvmstate
  cases a.suspended with
  | true => simp
  | false =>
    by_cases h : a.vm.callsstack.length = 0
    · simp [h]
    · simp [h]

theorem thread_call_error {moved : Bool} (answer : w.thread_call s t moved = (.error, w')) :
    ∃ v, w' = w.putVM t v := by
  simp only [thread_call] at answer
  split at answer
  · cases answer
  · split at answer
    · cases answer
      exact ⟨_, rfl⟩
    · cases answer
    · cases answer
    · cases answer

/-- A machine that is not idle can be called only where that is refused. -/
theorem Apart.call (apart : Apart w) {waiting : Waiting} {rest : List Level} {moved : Bool}
    (chain : w.chain = ⟨s, waiting⟩ :: rest) (frame : (w.thread s).vm.callsstack.length ≠ 0)
    (guarded : w.Guarded (.call s t)) : Apart (w.thread_call s t moved).2 := by
  by_cases idle : (w.thread t).lv_getvmstate = .LV_VMSTATE_IDLE
  · obtain ⟨awake, none⟩ := lv_getvmstate_idle.mp idle
    refine apart.enter chain frame ?_ (thread_call_mayEnter moved awake)
    rw [chain, List.map_cons, List.mem_cons]
    rintro (rfl | below)
    · exact frame none
    · obtain ⟨l, mem, rfl⟩ := List.mem_map.mp below
      refine apart.waits l ?_ none
      rw [chain]
      exact mem
  · obtain ⟨w', answer, unchanged⟩ := (w.rejectsCall_iff s t moved).mpr (guarded idle)
    have stays := unchanged.stays.frames
    obtain ⟨v, rfl⟩ := thread_call_error answer
    rw [putVM_thread_self] at stays
    rw [answer]
    exact apart.framesStay (putVM_framesStay stays.2) rfl

/-- A step keeps the machines apart if no busy one is called. -/
theorem Apart.step {ev : Event} (apart : Apart w) (guarded : w.Guarded ev) (step : Step ev w w') :
    Apart w' := by
  cases step with
  | @work _ _ s waiting rest chain effect =>
    obtain ⟨roottable, vm, own⟩ := effect.own
    have nodup := apart.nodup
    rw [chain, List.map_cons, List.nodup_cons] at nodup
    have flags : ∀ r, (w'.thread r).suspended = (w.thread r).suspended := by
      intro r
      by_cases h : r = s
      · rw [h, own]
      · exact (effect.others r h).frames.1
    refine ⟨effect.chain ▸ apart.nodup, fun l mem => ?_, fun l mem => ?_⟩
    · rw [flags]
      exact apart.awake l (effect.chain ▸ mem)
    · rw [effect.chain] at mem
      have ne : l.id ≠ s := by
        intro eq
        rw [chain] at mem
        exact nodup.1 (List.mem_map.mpr ⟨l, mem, eq⟩)
      rw [(effect.others l.id ne).frames.2]
      exact apart.waits l mem
  | call chain frame => exact apart.call chain frame guarded
  | @wakeup _ s waiting rest t chain frame =>
    by_cases asleep : (w.thread t).suspended = true
    · exact apart.enter chain frame (apart.asleep asleep) thread_wakeup_mayEnter
    · rw [(thread_wakeup_rejects (mt lv_getvmstate_suspended.mp asleep) true).1]
      exact apart
  | @wakeupthrow _ s waiting rest t rethrow chain frame =>
    by_cases asleep : (w.thread t).suspended = true
    · exact apart.enter chain frame (apart.asleep asleep) (thread_wakeupthrow_mayEnter rethrow)
    · rw [(thread_wakeup_rejects (mt lv_getvmstate_suspended.mp asleep) rethrow).2]
      exact apart
  | @suspend _ s t waiting below rest target traps res thread chain suspends =>
    have put : FramesStay {t} w (w.put t thread) := put_framesStay rfl
    exact apart.leave chain (put.trans (returned_framesStay waiting)) rfl
  | suspendHost chain suspends => exact .nothing rfl
  | @returned _ s t waiting below rest res chain =>
    exact apart.leave chain (returned_framesStay waiting) rfl
  | @failed _ s t waiting below rest chain => exact apart.leave chain (failed_framesStay waiting) rfl
  | endHost chain => exact .nothing rfl
  | @host _ r chain awake =>
    refine .host ?_ awake
    rw [World.enter, chain]
  | @hostWakes _ r thread wakeupret chain wakes =>
    refine Apart.host (r := r) ?_ ?_
    · change _ :: w.chain = _
      rw [chain]
    · change ((w.put r thread).thread r).suspended = false
      rw [put_thread_self]
      exact lv_wakeupvm_awake wakes

theorem Apart.runs {Allowed : World → Event → Prop} (apart : Apart w) (run : Runs Allowed w w')
    (guards : ∀ w ev, Allowed w ev → w.Guarded ev) : Apart w' := by
  induction run with
  | refl => exact apart
  | step run allowed step ih => exact ih.step (guards _ _ allowed) step

/-- The step wakes the thread. -/
def Wakes (t : Nat) : Event → Prop
  | .wakeup _ r | .host r => r = t
  | _ => False

/-- A thread that is suspended stays as it is, captured variables apart. -/
theorem Apart.stays {ev : Event} (apart : Apart w) (asleep : (w.thread t).suspended = true)
    (guarded : w.Guarded ev) (sleeps : ¬ Wakes t ev) (step : Step ev w w') :
    (w.thread t).Stays (w'.thread t) := by
  have out := apart.asleep asleep
  have ne : ∀ l ∈ w.chain, t ≠ l.id := fun l mem eq => out (eq ▸ List.mem_map_of_mem mem)
  have running : ∀ {s r waiting rest w'}, (∀ {T : Set Nat}, s ∈ T → r ∈ T → OthersStay T w w') →
      w.chain = ⟨s, waiting⟩ :: rest → t ≠ r → (w.thread t).Stays (w'.thread t) := by
    intro s r waiting rest w' others chain neR
    have neS := ne ⟨s, waiting⟩ (by rw [chain]; exact List.mem_cons_self)
    have both : OthersStay {s, r} w w' := others (.inl rfl) (.inr rfl)
    apply both t
    rintro (rfl | rfl)
    · exact neS rfl
    · exact neR rfl
  cases step with
  | @work _ _ s waiting rest chain effect =>
    exact effect.others t (ne ⟨s, waiting⟩ (by rw [chain]; exact List.mem_cons_self))
  | @call _ s waiting rest r moved chain frame =>
    by_cases same : r = t
    · subst same
      have busy : (w.thread r).lv_getvmstate ≠ .LV_VMSTATE_IDLE := by
        intro idle
        rw [(lv_getvmstate_idle.mp idle).1] at asleep
        cases asleep
      obtain ⟨w', answer, unchanged⟩ := (w.rejectsCall_iff s r moved).mpr (guarded busy)
      rw [answer]
      exact unchanged.stays
    · exact running (thread_call_othersStay moved) chain (Ne.symm same)
  | @wakeup _ s waiting rest r chain frame =>
    exact running (fun _ memT => thread_wakeup_othersStay memT) chain (Ne.symm sleeps)
  | @wakeupthrow _ s waiting rest r rethrow chain frame =>
    exact running (fun _ memT => thread_wakeupthrow_othersStay rethrow memT) chain (Ne.symm sleeps)
  | @suspend _ s r waiting below rest target traps res thread chain suspends =>
    have put : ∀ {T}, r ∈ T → OthersStay T w (w.put r thread) := put_othersStay
    have first := ne ⟨r, waiting⟩ (by rw [chain]; exact List.mem_cons_self)
    have second := ne ⟨s, below⟩ (by rw [chain]; exact .tail _ (.head _))
    have both : OthersStay {s, r} w ((w.put r thread).returned s r res waiting) :=
      (put (.inr rfl)).trans (returned_othersStay waiting (.inl rfl) (.inr rfl))
    exact both t (by rintro (rfl | rfl); exacts [second rfl, first rfl])
  | @suspendHost _ r target traps res thread chain suspends =>
    have alone : OthersStay {r} w (w.put r thread) := put_othersStay rfl
    exact alone t (ne ⟨r, .host⟩ (by rw [chain]; exact List.mem_cons_self))
  | @returned _ s r waiting below rest res chain =>
    have first := ne ⟨r, waiting⟩ (by rw [chain]; exact List.mem_cons_self)
    have second := ne ⟨s, below⟩ (by rw [chain]; exact .tail _ (.head _))
    have both : OthersStay {s, r} w (w.returned s r res waiting) :=
      returned_othersStay waiting (.inl rfl) (.inr rfl)
    exact both t (by rintro (rfl | rfl); exacts [second rfl, first rfl])
  | @failed _ s r waiting below rest chain =>
    have alone : OthersStay {r} w (w.failed r waiting) := failed_othersStay waiting rfl
    exact alone t (ne ⟨r, waiting⟩ (by rw [chain]; exact List.mem_cons_self))
  | endHost chain => exact .refl _
  | host chain awake => exact .refl _
  | @hostWakes _ r thread wakeupret chain wakes =>
    have alone : OthersStay {r} w (w.put r thread) := put_othersStay rfl
    exact alone t (Ne.symm sleeps)

/-- It stays so until it is woken, whatever the machines do. -/
theorem Apart.stays_asleep (apart : Apart w) (asleep : (w.thread t).suspended = true)
    (run : Runs (fun w ev => w.Guarded ev ∧ ¬ Wakes t ev) w w') :
    (w.thread t).Stays (w'.thread t) := by
  induction run with
  | refl => exact .refl _
  | step run allowed step ih =>
    have flag := ih.frames.1.trans asleep
    have apart := apart.runs run fun _ _ allowed => allowed.1
    exact ih.trans (apart.stays flag allowed.1 allowed.2 step)

/-- The running machine goes on. -/
theorem work_putVM (w : World) (s : Nat) (v : LVVM) : Work s w (w.putVM s v) where
  chain := rfl
  own := ⟨(w.thread s).roottable, v, putVM_thread_self⟩
  others t ne := by
    rw [putVM, put_thread_of_ne ne]
    exact (w.thread t).seeing_stays v

/-- In a run whose calls of suspended or running threads are refused, `thread.call` of such a
thread is rejected and leaves it as it was exactly where that is so; the wakeup functions reject
every thread that is not suspended; no machine runs twice, and a suspended thread keeps its frames,
its flag and its target until it is woken. -/
theorem calls_respect_threads {w₀ : World} (initial : Initial w₀) (run : Runs Guarded w₀ w) :
    (∀ s t moved, (w.thread t).lv_getvmstate ≠ .LV_VMSTATE_IDLE →
      (w.RejectsCall s t moved ↔ w.CallRefused s t)) ∧
    (∀ s t rethrow, (w.thread t).lv_getvmstate ≠ .LV_VMSTATE_SUSPENDED →
      w.thread_wakeup s t = (.error, w) ∧ w.thread_wakeupthrow s t rethrow = (.error, w)) ∧
    Apart w ∧
    ∀ t w', (w.thread t).lv_getvmstate = .LV_VMSTATE_SUSPENDED →
      Runs (fun w ev => w.Guarded ev ∧ ¬ Wakes t ev) w w' → (w.thread t).Stays (w'.thread t) := by
  have apart : Apart w := (Apart.nothing initial.chain).runs run fun _ _ guarded => guarded
  refine ⟨fun s t moved _ => w.rejectsCall_iff s t moved, fun s t rethrow state => ?_, apart,
    fun t w' state run => ?_⟩
  · exact thread_wakeup_rejects state rethrow
  · exact apart.stays_asleep (lv_getvmstate_suspended.mp state) run

/-- A function of four registers and no arguments. -/
def coroutine : LVClosure where
  function := ⟨4, false, false, [], [], [], ["this"], [], [], []⟩
  this := Nat.zero_lt_one
  env := none
  outervalues := []
  defaultparams := []

def machine (stack : Int → LVObject) (stackbase top : Int) (callsstack : List CallInfo)
    (nnativecalls : Nat) : LVVM where
  stack := stack
  stacksize := 100
  stackbase := stackbase
  top := top
  callsstack := callsstack
  alloccallsstacksize := 4
  nmetamethodscall := 0
  nnativecalls := nnativecalls
  etraps := []
  openouters := []
  heap address := if address < 2 then some (.closure coroutine) else none
  next := 2

/-- A frame that ends four slots above the base of its caller. -/
def frameAt (prevstkbase : Int) (root : Bool) : CallInfo :=
  ⟨.null, [], 0, none, 0, prevstkbase, 4, 1, 1, root⟩

/-- `newthread` has made the thread 1. -/
def created : World where
  thread t := {
    vm := machine (fun s => if t = 1 ∧ s = 0 then .ofAddress .OT_CLOSURE 0 else .null) 0 1 [] 0
    roottable := .null, suspended := false, suspendedTarget := -1, suspendedRoot := false
    suspendedTraps := -1 }
  chain := []
  shared _ _ := ⟨rfl, rfl⟩

/-- A script has called `thread.call`. -/
def caller : LVVM := machine (fun _ => .null) 4 5 [frameAt 4 false, frameAt 0 true] 2

def calling : World := (created.enter ⟨0, .host⟩).putVM 0 caller

/-- The coroutine has called `suspend` with the argument `o`, which is in its last register. -/
def suspending (o : LVObject) : World :=
  (calling.thread_call 0 1 false).2.putVM 1
    (machine (fun s => if s = 4 then o else .null) 3 5 [frameAt 2 false, frameAt 1 true] 2)

def suspended (o : LVObject) : World :=
  let w := suspending o
  match suspend (w.thread 1) 1 0 with
  | none => w
  | some (res, thread) => { (w.put 1 thread).returned 0 1 res (.call 1) with chain := [⟨0, .host⟩] }

/-- The script calls `thread.call` again. -/
def asleep (o : LVObject) : World := (suspended o).putVM 0 caller

theorem created_initial : Initial created := ⟨rfl, fun _ => rfl⟩

theorem asleep_reached (o : LVObject) : Runs Guarded created (asleep o) := by
  have host : created.Guarded (.host 0) := trivial
  have work : ∀ w : World, w.Guarded .work := fun _ => trivial
  have idle : calling.Guarded (.call 0 1) := fun busy => absurd rfl busy
  have suspends : (suspending o).Guarded .suspend := trivial
  have begun := Runs.step .refl host (.host rfl rfl)
  have called : Runs Guarded created calling := .step begun (work _) (.work rfl (work_putVM _ 0 _))
  have entered : Runs Guarded created (calling.thread_call 0 1 false).2 :=
    .step called idle (.call rfl (by decide))
  have worked : Runs Guarded created (suspending o) :=
    .step entered (work _) (.work rfl (work_putVM _ 1 _))
  have asleep : Runs Guarded created (suspended o) := .step worked suspends (.suspend rfl rfl)
  exact .step asleep (work _) (.work rfl (work_putVM _ 0 _))

/-- The last register of the coroutine is null. -/
theorem calls_respect_threads_asleep :
    ((asleep .null).thread 1).lv_getvmstate = .LV_VMSTATE_SUSPENDED ∧
    (asleep .null).RejectsCall 0 1 false ∧ Apart (asleep .null) := by
  obtain ⟨calls, -, apart, -⟩ := calls_respect_threads created_initial (asleep_reached .null)
  exact ⟨rfl, (calls 0 1 false (by decide)).mpr ⟨by decide, trivial⟩, apart⟩

/-- It is a function: that runs, and when it has returned there is a value more on the stack. -/
theorem call_runs_suspended : Runs Guarded created (asleep (.ofAddress .OT_CLOSURE 1)) ∧
    ((asleep (.ofAddress .OT_CLOSURE 1)).thread 1).lv_getvmstate = .LV_VMSTATE_SUSPENDED ∧
    ¬ (asleep (.ofAddress .OT_CLOSURE 1)).RejectsCall 0 1 false ∧
    ∃ w v, (asleep (.ofAddress .OT_CLOSURE 1)).thread_call 0 1 false = (.waits, w) ∧
      (w.thread 1).vm.return_ 0xFF 0 = some v ∧
      (((w.putVM 1 (v.countCall (-1))).returned 0 1 .null (.call 1)).thread 1).vm.top =
        ((asleep (.ofAddress .OT_CLOSURE 1)).thread 1).vm.top + 1 := by
  have answer : (asleep (.ofAddress .OT_CLOSURE 1)).thread_call 0 1 false =
      (.waits, ((asleep (.ofAddress .OT_CLOSURE 1)).thread_call 0 1 false).2) := rfl
  refine ⟨asleep_reached _, rfl, ?_, _, _, answer, rfl, ?_⟩
  · rintro ⟨w', answer, -⟩
    cases congrArg Prod.fst answer
  · decide

end World

end Threads
end Lavril
