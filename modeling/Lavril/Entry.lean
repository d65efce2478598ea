import Lavril.Captured

/-!
# How `Execute` begins

What a resumption by `lv_resume` does with a generator that cannot be resumed,
and what the call of a generator function by C++ code does.
-/

namespace Lavril

namespace LVVM

variable {v : LVVM} {alive : LVObject → Bool}

/-- `lv_resume` has failed before an instruction is executed. The frames, the
traps and the stack are as they were, apart from the slot for the result. -/
def ResumeRefused (v : LVVM) (entry : Entry) : Prop :=
  ∃ v', entry = .fail v' ∧ v'.callsstack = v.callsstack ∧ v'.stackbase = v.stackbase ∧
    v'.etraps = v.etraps ∧ v'.top = v.top + 1 ∧ ∀ s, s ≠ v.top → v'.stack s = v.stack s

/-- Only the limit on native calls makes `lv_resume` fail: otherwise the loop
goes on with the frame that is there. -/
theorem resume_refused_iff {address : Nat} {g : LVGenerator} (notSuspended : g.state ≠ .eSuspended) :
    ResumeRefused v (v.executeResume alive address g) ↔ v.nnativecalls + 1 > MAX_NATIVE_CALLS := by
  have none : (v.push .null).resume_ alive address g
      ((v.push .null).top - 1 - (v.push .null).stackbase) = none := by
    unfold resume_
    split
    · rename_i suspended is
      exact absurd suspended notSuspended
    · rfl
  constructor
  · rintro ⟨v', entry, -⟩
    by_contra limit
    simp only [executeResume, none, notSuspended, if_false] at entry
    split at entry
    · exact absurd ‹_› limit
    · split at entry <;> cases entry
  · intro limit
    refine ⟨v.push .null, ?_, rfl, rfl, rfl, rfl, fun s ne => setSlot_stack_of_ne ne⟩
    simp only [executeResume]
    exact if_pos limit

/-- A generator that has ended, under a native function that a script has called. -/
def nativeWithDead : LVVM where
  stack s := if s = 5 then .ofAddress .OT_GENERATOR 1 else .null
  stacksize := 100
  stackbase := 4
  top := 6
  callsstack :=
    [⟨.ofAddress .OT_NATIVECLOSURE 2, [], 0, none, 0, 4, 4, 0, 1, false⟩,
     ⟨.ofAddress .OT_CLOSURE 0, [], 3, none, 0, 0, 0, 0, 1, true⟩]
  alloccallsstacksize := 4
  nmetamethodscall := 0
  nnativecalls := 2
  etraps := []
  openouters := []
  heap address :=
    match address with
    | 0 => some (.closure (Exec.generatorFunction (LVInstruction.mk .OP_CALL 0 1 2 1)))
    | 1 => some (.generator ⟨.null, .eDead, [], false, none, []⟩)
    | 2 => some (.nativeclosure ⟨0, [], [], none⟩)
    | _ => none
  next := 3

theorem resume_refused_nativeWithDead :
    ¬ ResumeRefused nativeWithDead
      (nativeWithDead.executeResume (fun _ => true) 1 ⟨.null, .eDead, [], false, none, []⟩) := by
  rw [resume_refused_iff (by decide)]
  decide

/-- `Execute` makes the frame of the native function its root and interprets it. -/
theorem resume_dead_runs : nativeWithDead.generatorAt 1 = some ⟨.null, .eDead, [], false, none, []⟩ ∧
    ∃ v', nativeWithDead.executeResume (fun _ => true) 1 ⟨.null, .eDead, [], false, none, []⟩ =
      .loop v' 0 ∧ v'.frameRoot = true ∧ nativeWithDead.frameRoot = false :=
  ⟨rfl, _, rfl, rfl, rfl⟩

/-! ## Generator functions called by C++ code -/

/-- The call has its value, a new generator, and the frames are those of the
caller; below the arguments nothing has changed. `Return(1, target)` reads its
value from `stackbase + target` and stores it, as `STK(target)` does the
generator, at the caller's base plus the target. -/
def MakesGenerator (v : LVVM) (clo : LVObject) (nargs : Nat) (stackbase : Int) : Entry → Prop
  | .done o v' =>
    (∃ a g, v.next ≤ a ∧ o = .ofAddress .OT_GENERATOR a ∧ v'.generatorAt a = some g ∧
      g.state = .eSuspended ∧ g.closure = clo) ∧
    v'.callsstack = v.callsstack ∧ v'.stackbase = v.stackbase ∧ v'.top = v.top ∧
    (∀ s, s < stackbase → v'.stack s = v.stack s) ∧
    ∀ slot ∈ [stackbase + (v.top - nargs), v.stackbase + (v.top - nargs)],
      stackbase ≤ slot ∧ slot < v'.stacksize
  | _ => False

/-- The size of the stack after `EnterFrame`. -/
def enteredStacksize (v : LVVM) (newtop : Int) : Int :=
  if newtop + MIN_STACK_OVERHEAD > v.stacksize then newtop + MIN_STACK_OVERHEAD * 4
  else v.stacksize

/-- What every call asks for. -/
structure CallAccepted (v : LVVM) (k : LVClosure) (nargs : Nat) (stackbase : Int) : Prop where
  limit : v.nnativecalls + 1 ≤ MAX_NATIVE_CALLS
  parameters : (v.bindParameters k nargs stackbase).isSome
  room : v.nmetamethodscall = 0 ∨
    stackbase + k.function.stacksize + MIN_STACK_OVERHEAD ≤ v.stacksize

theorem enterFrame_stacksize {v' : LVVM} {newbase newtop : Int}
    (run : v.enterFrame newbase newtop false = some v') :
    v'.stacksize = v.enteredStacksize newtop ∧
      (v.nmetamethodscall = 0 ∨ newtop + MIN_STACK_OVERHEAD ≤ v.stacksize) := by
  simp only [enterFrame, Bool.false_eq_true, if_false, Option.bind_some, pushFrame] at run
  unfold enteredStacksize
  split at run
  · rename_i grows
    split at run
    · cases run
    · rename_i outside
      cases run
      exact ⟨(if_pos grows).symm, .inl (not_not.mp outside)⟩
  · rename_i fits
    cases run
    exact ⟨(if_neg fits).symm, .inr (by omega)⟩

theorem enterFrame_isSome {newbase newtop : Int}
    (room : v.nmetamethodscall = 0 ∨ newtop + MIN_STACK_OVERHEAD ≤ v.stacksize) :
    ∃ v', v.enterFrame newbase newtop false = some v' := by
  simp only [enterFrame, Bool.false_eq_true, if_false, Option.bind_some, pushFrame]
  split
  · rename_i grows
    rw [if_neg (by rcases room with outside | fits <;> omega)]
    exact ⟨_, rfl⟩
  · exact ⟨_, rfl⟩

theorem bindParameters_nmetamethodscall {v' : LVVM} {k : LVClosure} {args : Nat} {stackbase : Int}
    (run : v.bindParameters k args stackbase = some v') :
    v'.nmetamethodscall = v.nmetamethodscall := by
  simp only [bindParameters] at run
  split at run
  · split at run <;> cases run
    rfl
  · split at run
    · split at run <;> cases run
      rfl
    · cases run
      rfl

theorem setEnv_stacksize (v : LVVM) (env : Option LVObject) (slot : Int) :
    (v.setEnv env slot).stacksize = v.stacksize ∧
      (v.setEnv env slot).nmetamethodscall = v.nmetamethodscall := by
  cases env <;> exact ⟨rfl, rfl⟩

/-- The state in which `StartCall` calls `EnterFrame`. -/
theorem bound_stacksize {bound : LVVM} {k : LVClosure} {args : Nat} {stackbase : Int}
    (bind : v.bindParameters k args stackbase = some bound) :
    (bound.setEnv k.env stackbase).stacksize = v.stacksize ∧
      (bound.setEnv k.env stackbase).nmetamethodscall = v.nmetamethodscall := by
  obtain ⟨size, calls⟩ := bound.setEnv_stacksize k.env stackbase
  obtain ⟨same, -⟩ := bindParameters_spec bind
  exact ⟨size.trans same.stacksize, calls.trans (bindParameters_nmetamethodscall bind)⟩

theorem startFrame_accepted {v' : LVVM} {clo : LVObject} {k : LVClosure} {target stackbase : Int}
    {args : Nat} (run : v.startFrame clo k target args stackbase false = some v') :
    v'.stacksize = v.enteredStacksize (stackbase + k.function.stacksize) ∧
    (v.bindParameters k args stackbase).isSome ∧ (v.nmetamethodscall = 0 ∨
      stackbase + k.function.stacksize + MIN_STACK_OVERHEAD ≤ v.stacksize) := by
  simp only [startFrame, Option.bind_eq_bind, Option.bind_eq_some_iff, Option.pure_def,
    Option.some.injEq] at run
  obtain ⟨bound, bind, entered, enter, rfl⟩ := run
  obtain ⟨size, calls⟩ := bound_stacksize bind
  obtain ⟨grown, room⟩ := enterFrame_stacksize enter
  rw [size, calls] at room
  refine ⟨grown.trans ?_, by rw [bind]; rfl, room⟩
  simp only [enteredStacksize, size]

/-- `StartCall` enters the frame when the parameters can be bound and it fits. -/
theorem startFrame_isSome {k : LVClosure} {stackbase : Int} {args : Nat} (clo : LVObject)
    (target : Int) (parameters : (v.bindParameters k args stackbase).isSome) (room : v.nmetamethodscall = 0 ∨
      stackbase + k.function.stacksize + MIN_STACK_OVERHEAD ≤ v.stacksize) :
    ∃ v', v.startFrame clo k target args stackbase false = some v' := by
  obtain ⟨bound, bind⟩ := Option.isSome_iff_exists.mp parameters
  obtain ⟨size, calls⟩ := bound_stacksize bind
  obtain ⟨entered, enter⟩ := @enterFrame_isSome (bound.setEnv k.env stackbase) stackbase
    (stackbase + k.function.stacksize) (by rwa [size, calls])
  exact ⟨_, by simp only [startFrame, bind, Option.bind_eq_bind, Option.bind_some, enter]; rfl⟩

theorem leaveFrame_stacksize {v' : LVVM} (run : v.leaveFrame = some v') :
    v'.stacksize = v.stacksize := by
  unfold leaveFrame at run
  split at run <;> cases run
  rfl

theorem return_top {v' : LVVM} {ci : CallInfo} {rest : List CallInfo} {arg0 : Nat} {arg1 : Int}
    (frames : v.callsstack = ci :: rest) (run : v.return_ arg0 arg1 = some v') :
    v'.top = v.stackbase - ci.prevstkbase + ci.prevtop ∧ v'.stacksize = v.stacksize := by
  simp only [return_, frames] at run
  split at run
  · exact ⟨(leaveFrame_spec frames run).2.1, leaveFrame_stacksize run⟩
  · have left := leaveFrame_stacksize run
    exact ⟨(leaveFrame_spec (v := v.setSlot _ _) frames run).2.1, left⟩

theorem startGenerator_isSome {ci : CallInfo} {rest : List CallInfo} (clo : LVObject) (k : LVClosure)
    (target : Int) (frames : v.callsstack = ci :: rest) :
    ∃ v', v.startGenerator clo k target = some v' := by
  have yields : ∃ yielded, (v.create .OT_GENERATOR (.generator (.new clo))).2.yield_ v.next
      (.new clo) k.function.stacksize = some yielded ∧ yielded.callsstack = v.callsstack := by
    simp only [yield_, LVVM.create, LVGenerator.new, frames]
    exact ⟨_, rfl, rfl⟩
  obtain ⟨yielded, yield, calls⟩ := yields
  obtain ⟨returned, ret⟩ := return_isSome 1 target (calls.trans frames)
  refine ⟨returned.setSlot (returned.stackbase + target) (.ofAddress .OT_GENERATOR v.next), ?_⟩
  simp only [startGenerator, Option.bind_eq_bind, Option.bind_eq_some_iff, Option.pure_def,
    Option.some.injEq]
  exact ⟨yielded, yield, returned, ret, rfl⟩

/-- The caller's top and the size of the stack when the generator is there. -/
theorem startGenerator_top {v₀ v' : LVVM} {clo : LVObject} {k : LVClosure} {target newbase : Int}
    (started : Started target newbase v₀ v) (run : v.startGenerator clo k target = some v') :
    v'.top = v₀.top ∧ v'.stacksize = v.stacksize := by
  obtain ⟨ci, frames, prevstkbase, prevtop, -, -⟩ := started.frame
  simp only [startGenerator, LVVM.create, Option.bind_eq_bind, Option.bind_eq_some_iff,
    Option.pure_def, Option.some.injEq] at run
  obtain ⟨yielded, yield, returned, ret, rfl⟩ := run
  obtain ⟨base, calls, -, -⟩ := yield_spec yield
  obtain ⟨ci', rest', -, -, eq⟩ := yield_eq yield
  obtain ⟨top, size⟩ := return_top (calls.trans frames) ret
  have same : yielded.stacksize = v.stacksize := by
    rw [eq]
    rfl
  refine ⟨top.trans ?_, size.trans same⟩
  rw [base, prevstkbase, prevtop]
  have := started.stackbase
  simp only at this ⊢
  omega

/-- The call has made a generator; it has used existing slots when twice the
position of the arguments is on the stack. -/
theorem startGenerator_makes {v₀ v' : LVVM} {clo : LVObject} {k : LVClosure} {nargs : Nat}
    (wf : v₀.WF) (base : 0 ≤ v₀.stackbase) (args : v₀.stackbase ≤ v₀.top - nargs)
    (allocated : v₀.top ≤ v₀.stacksize)
    (start : v₀.startFrame clo k (v₀.top - nargs) nargs (v₀.top - nargs) false = some v)
    (run : v.startGenerator clo k (v₀.top - nargs) = some v') :
    MakesGenerator v₀ clo nargs (v₀.top - nargs) (.done (v'.register (v'.top - nargs)) v') ↔
      2 * (v₀.top - nargs) < v₀.enteredStacksize (v₀.top - nargs + k.function.stacksize) := by
  have started := startFrame_spec (by omega) start
  obtain ⟨size, -, -⟩ := startFrame_accepted start
  obtain ⟨top, sameSize⟩ := startGenerator_top started run
  obtain ⟨stackbase, -, stored, below⟩ := startGenerator_spec started run
  obtain ⟨calm, ci, plain, frames⟩ : Calm ∅ _ _ ∧ _ := wf.calm_startFrame start
  obtain ⟨callsstack, -, g, changed, saved⟩ := calm.wf.startGenerator (W := ∅) frames plain run
  constructor
  · intro makes
    have slot := (makes.2.2.2.2.2 _ List.mem_cons_self).2
    omega
  · intro room
    refine ⟨⟨v.next, g, started.next.1, ?_, ?_, saved.state, saved.closure⟩, callsstack, stackbase,
      top, fun s lt => below s lt (by omega) (by omega), fun slot mem => ?_⟩
    · rw [top, LVVM.register, stackbase, stored]
    · exact (changed.generators v.next).trans (if_pos rfl)
    · simp only [List.mem_cons, List.not_mem_nil, or_false] at mem
      omega

/-- C++ code, whose registers start at 900, has pushed a generator function and
`this`. -/
def highCall : LVVM :=
  { Exec.hostCall.vm with
    stack := fun s => if s = 908 then .ofAddress .OT_CLOSURE 0 else .null
    stacksize := 1024, stackbase := 900, top := 910 }

end LVVM

end Lavril
