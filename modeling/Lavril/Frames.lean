import Lavril.Call
import Mathlib.Tactic.Common

/-!
# What entering and leaving a frame does to the stack

A frame is entered without touching a slot below its own base. `Return` writes
the target of the frame and nothing else below the top of the caller.
-/

namespace Lavril

namespace LVVM

variable {v v' : LVVM}

@[simp] theorem setSlot_stack_self (slot : Int) (o : LVObject) :
    (v.setSlot slot o).stack slot = o := by simp [setSlot]

@[simp] theorem setSlot_stack_of_ne {slot s : Int} {o : LVObject} (ne : s ≠ slot) :
    (v.setSlot slot o).stack s = v.stack s := by simp [setSlot, ne]

@[simp] theorem setSlot_stackbase (slot : Int) (o : LVObject) :
    (v.setSlot slot o).stackbase = v.stackbase := rfl
@[simp] theorem setSlot_top (slot : Int) (o : LVObject) : (v.setSlot slot o).top = v.top := rfl
@[simp] theorem setSlot_callsstack (slot : Int) (o : LVObject) :
    (v.setSlot slot o).callsstack = v.callsstack := rfl

theorem nullSlots_stack_of_lt {low high s : Int} (lt : s < low) :
    (v.nullSlots low high).stack s = v.stack s := by simp [nullSlots]; omega

@[simp] theorem setEnv_stackbase (env : Option LVObject) (slot : Int) :
    (v.setEnv env slot).stackbase = v.stackbase := by cases env <;> rfl
@[simp] theorem setEnv_callsstack (env : Option LVObject) (slot : Int) :
    (v.setEnv env slot).callsstack = v.callsstack := by cases env <;> rfl
@[simp] theorem setEnv_openouters (env : Option LVObject) (slot : Int) :
    (v.setEnv env slot).openouters = v.openouters := by cases env <;> rfl

theorem setEnv_stack_of_lt {env : Option LVObject} {slot s : Int} (lt : s < slot) :
    (v.setEnv env slot).stack s = v.stack s := by
  cases env with
  | none => rfl
  | some env => exact setSlot_stack_of_ne (by omega)

/-- The slots below a limit, the frames and the open outers are the same. -/
structure SameBelow (limit : Int) (v v' : LVVM) : Prop where
  stack : ∀ s, s < limit → v'.stack s = v.stack s
  stackbase : v'.stackbase = v.stackbase
  top : v'.top = v.top
  stacksize : v'.stacksize = v.stacksize
  callsstack : v'.callsstack = v.callsstack
  openouters : v'.openouters = v.openouters

theorem SameBelow.setSlot {limit slot : Int} {o : LVObject} (same : SameBelow limit v v')
    (le : limit ≤ slot) : SameBelow limit v (v'.setSlot slot o) where
  stack s lt := by rw [setSlot_stack_of_ne (by omega), same.stack s lt]
  stackbase := same.stackbase
  top := same.top
  stacksize := same.stacksize
  callsstack := same.callsstack
  openouters := same.openouters

theorem SameBelow.setEnv {limit slot : Int} (same : SameBelow limit v v')
    (env : Option LVObject) (le : limit ≤ slot) :
    SameBelow limit v (v'.setEnv env slot) ∧ (v'.setEnv env slot).next = v'.next := by
  cases env with
  | none => exact ⟨same, rfl⟩
  | some env => exact ⟨same.setSlot le, rfl⟩

/-- The frame that `EnterFrame` pushes. -/
structure Entered (newbase newtop : Int) (v v' : LVVM) : Prop where
  stackbase : v'.stackbase = newbase
  top : v'.top = newtop
  frame : ∃ ci, v'.callsstack = ci :: v.callsstack ∧
    ci.prevstkbase = newbase - v.stackbase ∧ ci.prevtop = v.top - v.stackbase ∧ ci.root = false
  stack : ∀ s, s < newbase → s < v.stacksize → v'.stack s = v.stack s
  openouters : v'.openouters = v.openouters

theorem enterFrame_spec {newbase newtop : Int} (run : v.enterFrame newbase newtop false = some v') :
    Entered newbase newtop v v' := by
  simp only [enterFrame, Bool.false_eq_true, if_false, Option.bind_some] at run
  split at run
  · split at run
    · cases run
    · cases run
      refine ⟨rfl, rfl, ⟨_, rfl, rfl, rfl, rfl⟩, fun s _ below => ?_, rfl⟩
      exact nullSlots_stack_of_lt below
  · cases run
    exact ⟨rfl, rfl, ⟨_, rfl, rfl, rfl, rfl⟩, fun _ _ _ => rfl, rfl⟩

theorem leaveFrame_spec {ci : CallInfo} {rest : List CallInfo} (frame : v.callsstack = ci :: rest)
    (run : v.leaveFrame = some v') :
    v'.stackbase = v.stackbase - ci.prevstkbase ∧
    v'.top = v.stackbase - ci.prevstkbase + ci.prevtop ∧ v'.callsstack = rest ∧
    ∀ s, s < v'.top → v'.stack s = v.stack s := by
  simp only [leaveFrame, frame, Option.some.injEq] at run
  subst run
  exact ⟨rfl, rfl, rfl, fun s lt => nullSlots_stack_of_lt lt⟩

theorem leaveFrame_isSome {ci : CallInfo} {rest : List CallInfo} (frame : v.callsstack = ci :: rest) :
    ∃ v', v.leaveFrame = some v' := by
  simp [leaveFrame, frame]

/-- `Return` to a caller that wants no value. -/
theorem return_without_target {ci : CallInfo} {rest : List CallInfo} {arg0 : Nat} {arg1 : Int}
    (frame : v.callsstack = ci :: rest) (noTarget : ci.target = -1)
    (run : v.return_ arg0 arg1 = some v') :
    v'.stackbase = v.stackbase - ci.prevstkbase ∧ v'.callsstack = rest ∧
    ∀ s, s < v.stackbase - ci.prevstkbase + ci.prevtop → v'.stack s = v.stack s := by
  simp only [return_, frame, noTarget, or_true, if_true] at run
  obtain ⟨base, top, rest, stack⟩ := leaveFrame_spec frame run
  exact ⟨base, rest, fun s lt => stack s (by omega)⟩

/-- `Return` writes the target of its frame, which the caller's base is added to. -/
theorem return_with_target {ci : CallInfo} {rest : List CallInfo} {arg0 : Nat} {arg1 : Int}
    (frame : v.callsstack = ci :: rest) (notRoot : ci.root = false) (target : ci.target ≠ -1)
    (run : v.return_ arg0 arg1 = some v') :
    v'.stackbase = v.stackbase - ci.prevstkbase ∧ v'.callsstack = rest ∧
    ∀ s, s < v.stackbase - ci.prevstkbase + ci.prevtop →
      v'.stack s = if s = v.stackbase - ci.prevstkbase + ci.target then v.resultValue arg0 arg1
        else v.stack s := by
  simp only [return_, frame, notRoot, target, Bool.false_eq_true, or_false, if_false] at run
  obtain ⟨base, top, rest, stack⟩ := leaveFrame_spec
    (v := v.setSlot (v.stackbase - ci.prevstkbase + ci.target) (v.resultValue arg0 arg1)) frame run
  refine ⟨base, rest, fun s lt => ?_⟩
  rw [stack s (by simpa [top] using lt)]
  split
  · rename_i eq
    rw [eq, setSlot_stack_self]
  · rename_i ne
    exact setSlot_stack_of_ne ne

theorem return_isSome {ci : CallInfo} {rest : List CallInfo} (arg0 : Nat) (arg1 : Int)
    (frame : v.callsstack = ci :: rest) : ∃ v', v.return_ arg0 arg1 = some v' := by
  simp only [return_, frame]
  split <;> exact leaveFrame_isSome (by simpa using frame)

theorem bindParameters_spec {closure : LVClosure} {args : Nat} {stackbase : Int}
    (run : v.bindParameters closure args stackbase = some v') :
    SameBelow stackbase v v' ∧ v.next ≤ v'.next ∧ v'.next ≤ v.next + 1 := by
  have this := closure.this
  simp only [bindParameters] at run
  split at run
  · split at run
    · cases run
    · cases run
      refine ⟨SameBelow.setSlot ⟨fun s lt => ?_, rfl, rfl, rfl, rfl, rfl⟩ (by omega), ?_, ?_⟩
      · exact nullSlots_stack_of_lt (by omega)
      · simp [setSlot, create, nullSlots]
      · simp [setSlot, create, nullSlots]
  · split at run
    · split at run
      · cases run
        refine ⟨⟨fun s lt => ?_, rfl, rfl, rfl, rfl, rfl⟩, le_refl _, Nat.le_succ _⟩
        simp only [ite_eq_right_iff, and_imp]
        omega
      · cases run
    · cases run
      exact ⟨⟨fun _ _ => rfl, rfl, rfl, rfl, rfl, rfl⟩, le_refl _, Nat.le_succ _⟩

/-- The frame of a script callee. -/
structure Started (target newbase : Int) (v v' : LVVM) : Prop where
  stackbase : v'.stackbase = newbase
  frame : ∃ ci, v'.callsstack = ci :: v.callsstack ∧
    ci.prevstkbase = newbase - v.stackbase ∧ ci.prevtop = v.top - v.stackbase ∧
    ci.root = false ∧ ci.target = target
  stack : ∀ s, s < newbase → v'.stack s = v.stack s
  openouters : v'.openouters = v.openouters
  next : v.next ≤ v'.next ∧ v'.next ≤ v.next + 1

theorem enterFrame_next {newbase newtop : Int}
    (run : v.enterFrame newbase newtop false = some v') : v'.next = v.next := by
  simp only [enterFrame, Bool.false_eq_true, if_false, Option.bind_some] at run
  split at run
  · split at run
    · cases run
    · cases run
      rfl
  · cases run
    rfl

theorem startFrame_spec {clo : LVObject} {closure : LVClosure} {target newbase : Int} {args : Nat}
    (fits : newbase ≤ v.stacksize)
    (run : v.startFrame clo closure target args newbase false = some v') :
    Started target newbase v v' := by
  simp only [startFrame, Option.bind_eq_bind, Option.bind_eq_some_iff, Option.pure_def,
    Option.some.injEq] at run
  obtain ⟨bound, bind, entered, enter, rfl⟩ := run
  obtain ⟨bindSame, least, most⟩ := bindParameters_spec bind
  obtain ⟨same, eq⟩ := bindSame.setEnv closure.env (le_refl newbase)
  obtain ⟨base, -, ⟨ci, frames, prevstkbase, prevtop, root⟩, stack, outers⟩ := enterFrame_spec enter
  have next := enterFrame_next enter
  refine ⟨base, ?_, fun s lt => ?_, ?_, ?_⟩
  · simp only [frames, same.callsstack, List.modifyHead_cons]
    rw [same.stackbase] at prevstkbase prevtop
    rw [same.top] at prevtop
    exact ⟨_, rfl, prevstkbase, prevtop, root, rfl⟩
  · exact (stack s lt (by rw [same.stacksize]; omega)).trans (same.stack s lt)
  · exact outers.trans same.openouters
  · change v.next ≤ entered.next ∧ entered.next ≤ v.next + 1
    omega

theorem yield_spec {address target : Nat} {g : LVGenerator}
    (run : v.yield_ address g target = some v') :
    v'.stackbase = v.stackbase ∧ v'.callsstack = v.callsstack ∧ v'.next = v.next ∧
    ∀ s, s < v.stackbase → v'.stack s = v.stack s := by
  unfold yield_ at run
  split at run
  · cases run
    exact ⟨rfl, rfl, rfl, fun s lt => nullSlots_stack_of_lt lt⟩
  · cases run

theorem return_next {arg0 : Nat} {arg1 : Int} (run : v.return_ arg0 arg1 = some v') :
    v'.next = v.next := by
  unfold return_ at run
  split at run
  · cases run
  · rename_i ci rest frame
    split at run
    · simp only [leaveFrame, frame, Option.some.injEq] at run
      subst run
      rfl
    · simp only [leaveFrame, setSlot_callsstack, frame, Option.some.injEq] at run
      subst run
      rfl

/-- The generator goes to the target, whichever number that is. -/
theorem startGenerator_spec {clo : LVObject} {closure : LVClosure} {target newbase : Int}
    {v₀ : LVVM} (started : Started target newbase v₀ v)
    (run : v.startGenerator clo closure target = some v') :
    v'.stackbase = v₀.stackbase ∧ v'.next = v.next + 1 ∧
    v'.stack (v₀.stackbase + target) = .ofAddress .OT_GENERATOR v.next ∧
    ∀ s, s < newbase → s < v₀.top → s ≠ v₀.stackbase + target → v'.stack s = v₀.stack s := by
  obtain ⟨ci, frames, prevstkbase, prevtop, root, eq⟩ := started.frame
  simp only [startGenerator, create, Option.bind_eq_bind, Option.bind_eq_some_iff,
    Option.pure_def, Option.some.injEq] at run
  obtain ⟨yielded, yield, returned, ret, rfl⟩ := run
  obtain ⟨base, calls, next, below⟩ := yield_spec yield
  simp only at base calls next below
  have retNext := return_next ret
  have callerbase : yielded.stackbase - ci.prevstkbase = v₀.stackbase := by
    rw [base, started.stackbase, prevstkbase]
    omega
  have frame : yielded.callsstack = ci :: v₀.callsstack := calls.trans frames
  have unchanged : returned.stackbase = v₀.stackbase ∧
      ∀ s, s < v₀.top → s ≠ v₀.stackbase + target → returned.stack s = yielded.stack s := by
    by_cases noTarget : ci.target = -1
    · obtain ⟨returnBase, -, stack⟩ := return_without_target frame noTarget ret
      refine ⟨returnBase.trans callerbase, fun s lt _ => stack s ?_⟩
      rw [callerbase, prevtop]
      omega
    · obtain ⟨returnBase, -, stack⟩ := return_with_target frame root noTarget ret
      refine ⟨returnBase.trans callerbase, fun s lt ne => ?_⟩
      rw [stack s (by rw [callerbase, prevtop]; omega), callerbase, eq, if_neg ne]
  obtain ⟨returnBase, stack⟩ := unchanged
  refine ⟨by simpa using returnBase, ?_, by simp [returnBase], fun s ltBase ltTop ne => ?_⟩
  · change returned.next = _
    omega
  · rw [setSlot_stack_of_ne (by rwa [returnBase]), stack s ltTop ne,
      below s (by rw [started.stackbase]; exact ltBase), started.stack s ltBase]

/-- The frame of a native callee. -/
theorem enterNative_spec {clo : LVObject} {nclosure : LVNativeClosure} {nargs : Nat} {newbase : Int}
    (fits : newbase ≤ v.stacksize) (run : v.enterNative clo nclosure nargs newbase = some v') :
    v'.stackbase = newbase ∧ (∃ ci, v'.callsstack = ci :: v.callsstack ∧
      ci.prevstkbase = newbase - v.stackbase ∧ ci.prevtop = v.top - v.stackbase) ∧
    v'.openouters = v.openouters ∧ ∀ s, s < newbase → v'.stack s = v.stack s := by
  unfold enterNative at run
  split at run
  · cases run
  split at run
  · cases run
  simp only [Option.bind_eq_bind, Option.bind_eq_some_iff, Option.pure_def,
    Option.some.injEq] at run
  obtain ⟨entered, enter, rfl⟩ := run
  obtain ⟨base, -, ⟨ci, frames, prevstkbase, prevtop, -⟩, stack, outers⟩ := enterFrame_spec enter
  refine ⟨?_, ?_, ?_, fun s lt => ?_⟩
  · simpa using base
  · simp only [setEnv_callsstack, frames, List.modifyHead_cons]
    exact ⟨_, rfl, prevstkbase, prevtop⟩
  · simpa using outers
  · rw [setEnv_stack_of_lt lt, ← stack s lt (by omega)]
    simp only [ite_eq_right_iff, and_imp]
    omega

end LVVM

end Lavril
