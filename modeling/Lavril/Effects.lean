import Lavril.ControlState

/-!
# What an instruction does to frames, traps and generators

`Did` lists the changes an instruction can make to the call stack, the trap
stack and the generators when it resumes no generator; `Resumption` is what the
others do.
-/

namespace Lavril

namespace LVVM

variable {W : Set Nat} {v v₁ v₂ : LVVM} {i : LVInstruction}

/-- The captured variable that `i` writes. -/
def writes (v : LVVM) (i : LVInstruction) : Option Nat :=
  if i.op = .OP_SETOUTER then v.currentOuter i.arg1.toNat else none

/-- The effect of an instruction that resumes no generator. -/
inductive Did (W : Set Nat) (v : LVVM) (i : LVInstruction) : Ran → Prop
  | touch {v'} (calm : Calm W v v') (frames : Touched v.callsstack v'.callsstack) :
      Did W v i (.next v' 0)
  | script {w v' ci} (calm : Calm W v v') (plain : ci.Plain)
      (frames : v'.callsstack = ci :: v.callsstack) (controls : w.controls = []) :
      Did W v i (.call w v')
  | native {w v' ci} (calm : Calm W v v') (plain : ci.Plain)
      (frames : v'.callsstack = ci :: v.callsstack) (closure : ci.closure.type ≠ .OT_CLOSURE)
      (controls : w.controls = [.native]) : Did W v i (.call w v')
  | tail {v'} (calm : Calm W v v') (frames : Touched v.callsstack v'.callsstack) :
      Did W v i (.call .script v')
  | done {o v'} (calm : Calm W v v') (frames : v'.callsstack = v.callsstack) :
      Did W v i (.call (.done o) v')
  | metamethod {n v'} (calm : Calm W v v') (frames : v'.callsstack = v.callsstack) :
      Did W v i (.call (.metamethod n) v')
  | generator {o v'} (created : Created W v v') : Did W v i (.call (.done o) v')
  | return {ci v' r} (op : i.op = .OP_RETURN) (left : Left W ci v v')
      (ran : r = if ci.root then .finish v' 0 else .next v' 0) : Did W v i r
  | yield {ci a g target g' v' r} (op : i.op = .OP_YIELD) (frames : v.callsstack = ci :: v'.callsstack)
      (generator : ci.generator = some a) (found : v.generatorAt a = some g)
      (running : g.state = .eRunning) (etraps : v'.etraps = v.etraps.drop ci.etraps.toNat)
      (changed : Changed W a g' v v') (saved : Saved v ci g target g')
      (ran : r = if ci.root then .finish v' (-ci.etraps) else .next v' (-ci.etraps)) : Did W v i r
  | pushTrap {ci rest et v'} (frames : v.callsstack = ci :: rest)
      (frames' : v'.callsstack = { ci with etraps := ci.etraps + 1 } :: rest)
      (etraps : v'.etraps = et :: v.etraps) (calm : Calm W v { v' with etraps := v.etraps }) :
      Did W v i (.next v' 1)
  | popTrap {v'} (op : i.op = .OP_POPTRAP)
      (frames : v'.callsstack = v.callsstack.modifyHead fun ci =>
        { ci with etraps := ci.etraps - i.arg0 })
      (etraps : v'.etraps = v.etraps.drop i.arg0) (calm : Calm W v { v' with etraps := v.etraps }) :
      Did W v i (.next v' (-i.arg0))

/-- The frames are the same. -/
theorem Did.same (calm : Calm W v v₁) (frames : v₁.callsstack = v.callsstack) :
    Did W v i (.next v₁ 0) := .touch calm (frames ▸ .refl _)

theorem WF.registerOp (wf : v.WF) (run : v.registerOp i = some v₁) : Did W v i (.next v₁ 0) := by
  unfold LVVM.registerOp at run
  split at run
  · cases run
  · rename_i ci rest frames
    simp only [Option.bind_eq_bind, Option.bind_eq_some_iff, Option.pure_def,
      Option.some.injEq] at run
    obtain ⟨f, -, rfl⟩ := run
    refine .touch (wf.calm_of rfl rfl rfl rfl) ⟨fun ci => { ci with ip := f.ip.toNat }, fun _ => rfl, ?_⟩
    rw [frames, List.modifyHead_cons]

theorem currentOuter_heap {n a : Nat} (current : v.currentOuter n = some a) :
    ∃ x, v.heap a = some (.outer x) := by
  simp only [currentOuter, Option.bind_eq_bind, Option.bind_eq_some_iff] at current
  obtain ⟨k, -, o, -, found⟩ := current
  split at found
  · rename_i x bits lookup raw
    cases found
    simp only [LVVM.lookup, raw, Option.filter_eq_some_iff] at lookup
    exact ⟨_, lookup.1⟩
  · cases found

theorem setOuterValue_callsstack (v : LVVM) (a : Nat) (o : LVObject) :
    (v.setOuterValue a o).callsstack = v.callsstack := by
  unfold setOuterValue
  split <;> rfl

theorem WF.setOuterOp (wf : v.WF) (run : v.setOuterOp i = some v₁)
    (writes : ∀ a, v.currentOuter i.arg1.toNat = some a → a ∈ W) : Did W v i (.next v₁ 0) := by
  simp only [LVVM.setOuterOp, Option.bind_eq_bind, Option.bind_eq_some_iff, Option.pure_def,
    Option.some.injEq] at run
  obtain ⟨a, current, rfl⟩ := run
  obtain ⟨x, found⟩ := currentOuter_heap current
  have set : Calm W v _ := wf.calm_setOuterValue found (writes a current) (v.register i.arg2)
  split
  · exact .same (set.trans (set.wf.calm_setSlot _ _)) (setOuterValue_callsstack ..)
  · exact .same set (setOuterValue_callsstack ..)

theorem WF.getOuterOp (wf : v.WF) (run : v.getOuterOp i = some v₁) : Did W v i (.next v₁ 0) := by
  simp only [LVVM.getOuterOp, Option.bind_eq_bind, Option.bind_eq_some_iff, Option.pure_def,
    Option.some.injEq] at run
  obtain ⟨a, -, o, -, rfl⟩ := run
  exact .same (wf.calm_setSlot _ _) rfl

theorem WF.jump (wf : v.WF) (offset : Int) : Did W v i (.next (v.jump offset) 0) :=
  .touch (wf.calm_of rfl rfl rfl rfl) (.modify _ _ fun _ => rfl)

theorem WF.postForeachOp (wf : v.WF) (run : v.postForeachOp i = some v₁) :
    Did W v i (.next v₁ 0) := by
  simp only [LVVM.postForeachOp, Option.bind_eq_bind, Option.bind_eq_some_iff, Option.pure_def,
    Option.some.injEq] at run
  obtain ⟨g, -, rfl⟩ := run
  split
  · exact wf.jump _
  · exact .same wf.calm rfl

theorem WF.pushTrapOp (wf : v.WF) (run : v.pushTrapOp i = some v₁) : Did W v i (.next v₁ 1) := by
  unfold LVVM.pushTrapOp at run
  split at run
  · cases run
  · rename_i ci rest frames
    cases run
    refine .pushTrap frames ?_ rfl (wf.calm_of rfl rfl rfl rfl)
    simp only [addEtraps, frames, List.modifyHead_cons]

theorem WF.popTrapOp (wf : v.WF) (op : i.op = .OP_POPTRAP) :
    Did W v i (.next (v.popTrapOp i) (-i.arg0)) := by
  refine .popTrap op ?_ rfl (wf.calm_of rfl rfl rfl rfl)
  simp only [LVVM.popTrapOp, addEtraps, Int.sub_eq_add_neg]

theorem WF.returnOp (wf : v.WF) {r : Ran} (op : i.op = .OP_RETURN) (run : v.returnOp i = some r) : Did W v i r := by
  unfold LVVM.returnOp at run
  split at run
  · cases run
  · rename_i ci rest frames
    simp only [Option.bind_eq_bind, Option.bind_eq_some_iff, Option.pure_def,
      Option.some.injEq] at run
    obtain ⟨v₁, ret, ran⟩ := run
    refine .return op (wf.left frames fun w wf _ eq => ?_) ran.symm
    subst eq
    exact wf.calm_return ret

theorem WF.yield_return (wf : v.WF) {r : Ran} (run : v.yieldReturn i = some r) :
    ∃ ci a g g' v', v.callsstack = ci :: v'.callsstack ∧ ci.generator = some a ∧
      v.generatorAt a = some g ∧ g.state = .eRunning ∧
      v'.etraps = v.etraps.drop ci.etraps.toNat ∧ Changed W a g' v v' ∧ Saved v ci g i.arg2 g' ∧
      r = if ci.root then .finish v' (-ci.etraps) else .next v' (-ci.etraps) := by
  simp only [LVVM.yieldReturn, Option.bind_eq_bind, Option.bind_eq_some_iff, Option.pure_def,
    Option.some.injEq] at run
  obtain ⟨v₁, yield, v₂, ret, ran⟩ := run
  unfold yieldOp at yield
  split at yield
  · cases yield
  · rename_i ci rest frames
    simp only [Option.bind_eq_bind, Option.bind_eq_some_iff, Option.pure_def,
      Option.some.injEq] at yield
    obtain ⟨a, generator, g, found, yielded, yield, rfl⟩ := yield
    obtain ⟨ci', g', head, running, same, traps, changed, saved⟩ :=
      wf.yield_control (W := W) found yield
    rw [frames, List.head?_cons, Option.some.injEq] at head
    subst head
    have root : v.frameRoot = ci.root := by simp [frameRoot, frames]
    have traps_ : v.frameTraps = ci.etraps := by simp [frameTraps, frames]
    rw [root, traps_] at ran
    have left : Calm W yielded v₂ ∧ ∃ ci, yielded.callsstack = ci :: v₂.callsstack := by
      split at ret
      · have stored := changed.wf.calm_setSlot (W := W) (v.stackbase + i.arg1) (v.register i.arg1)
        obtain ⟨calm, popped⟩ := stored.wf.calm_return (W := W) ret
        exact ⟨stored.trans calm, popped⟩
      · exact changed.wf.calm_return ret
    obtain ⟨calm, ci', popped⟩ := left
    rw [same, frames] at popped
    have tail := (List.cons.inj popped).2
    exact ⟨ci, a, g, g', v₂, tail ▸ frames, generator, found, running, calm.etraps.trans traps,
      changed.then calm, saved, ran.symm⟩

theorem WF.yieldReturn (wf : v.WF) {r : Ran} (op : i.op = .OP_YIELD) (run : v.yieldReturn i = some r) : Did W v i r := by
  obtain ⟨ci, a, g, g', v', frames, generator, found, running, etraps, changed, saved, ran⟩ :=
    wf.yield_return (W := W) run
  exact .yield op frames generator found running etraps changed saved ran

theorem lookup_native {o : LVObject} {k : LVNativeClosure}
    (found : v.lookup o = some (.nativeclosure k)) : o.type ≠ .OT_CLOSURE := by
  have type := lookup_type found
  rw [HeapObject.types, List.mem_singleton] at type
  simp [type]

theorem WF.callConstructor (wf : v.WF) {inst constructor : LVObject} {object : Option HeapObject}
    {w : Awaiting} (native : ∀ k, object = some (.nativeclosure k) → constructor.type ≠ .OT_CLOSURE)
    (run : v.callConstructor i inst constructor object = some (w, v₁)) : Did W v i (.call w v₁) := by
  unfold LVVM.callConstructor at run
  have set : Calm W v _ := wf.calm_setSlot (v.stackbase + i.arg2) inst
  split at run
  · rename_i k
    simp only [Option.bind_eq_bind, Option.bind_eq_some_iff, Option.pure_def,
      Option.some.injEq, Prod.mk.injEq] at run
    obtain ⟨started, start, rfl, rfl⟩ := run
    have call := set.wf.startCall (W := W) start
    split
    · rename_i generator
      rw [if_pos generator] at call
      exact .generator (.after set rfl call)
    · rename_i script
      rw [if_neg script] at call
      obtain ⟨calm, ci, plain, frames⟩ := call
      exact .script (set.trans calm) plain frames rfl
  · rename_i k
    simp only [Option.bind_eq_bind, Option.bind_eq_some_iff, Option.pure_def,
      Option.some.injEq, Prod.mk.injEq] at run
    obtain ⟨entered, enter, rfl, rfl⟩ := run
    obtain ⟨calm, ci, plain, rfl, frames⟩ := set.wf.enterNative (W := W) enter
    exact .native (set.trans calm) plain frames (native k rfl) rfl
  · simp only [Option.some.injEq, Prod.mk.injEq] at run
    obtain ⟨rfl, rfl⟩ := run
    exact .done wf.calm rfl

/-- A call that something quiet has preceded. -/
theorem Did.after {w : Awaiting} (calm : Calm W v v₁) (frames : v₁.callsstack = v.callsstack)
    (did : Did W v₁ i (.call w v₂)) : Did W v i (.call w v₂) := by
  cases did with
  | script next plain pushed controls =>
    exact .script (calm.trans next) plain (frames ▸ pushed) controls
  | native next plain pushed closure controls =>
    exact .native (calm.trans next) plain (frames ▸ pushed) closure controls
  | tail next touched => exact .tail (calm.trans next) (frames ▸ touched)
  | done next same => exact .done (calm.trans next) (same.trans frames)
  | metamethod next same => exact .metamethod (calm.trans next) (same.trans frames)
  | generator created => exact .generator (created.after calm frames)
  | «return» op left ran => split at ran <;> cases ran
  | yield op popped generator found running etraps changed saved ran => split at ran <;> cases ran

theorem WF.callClass (wf : v.WF) {clo : LVObject} {c : LVClass} {w : Awaiting}
    (run : v.callClass i clo c = some (w, v₁)) : Did W v i (.call w v₁) := by
  have instantiated : Calm W v (v.instantiate i clo c).2 ∧
      (v.instantiate i clo c).2.callsstack = v.callsstack := by
    have created : Calm W v _ := wf.calm_create .OT_INSTANCE (o := .instance clo c.call) (by simp)
    simp only [LVVM.instantiate, storeTarget]
    split
    · exact ⟨created.trans (created.wf.calm_setSlot _ _), rfl⟩
    · exact ⟨created, rfl⟩
  obtain ⟨calm, frames⟩ := instantiated
  unfold LVVM.callClass at run
  split at run
  · cases run
  · split at run
    · exact .after calm frames (calm.wf.callConstructor (fun k eq => lookup_native eq) run)
    · simp only [Option.some.injEq, Prod.mk.injEq] at run
      obtain ⟨rfl, rfl⟩ := run
      exact .done calm frames

theorem WF.calm_pushes {α : Type} (value : LVVM → α → LVObject) (args : List α) (wf : v.WF) :
    Calm W v (args.foldl (fun v x => v.push (value v x)) v) ∧
      (args.foldl (fun v x => v.push (value v x)) v).callsstack = v.callsstack := by
  induction args generalizing v with
  | nil => exact ⟨wf.calm, rfl⟩
  | cons x args ih =>
    have pushed : Calm W v (v.push (value v x)) := wf.calm_of rfl rfl rfl rfl
    obtain ⟨calm, frames⟩ := ih pushed.wf
    exact ⟨pushed.trans calm, frames⟩

theorem WF.callDelegate (wf : v.WF) (clo : LVObject) :
    Did W v i (.call (v.callDelegate i clo).1 (v.callDelegate i clo).2) := by
  have pushed : Calm W v (v.push clo) := wf.calm_of rfl rfl rfl rfl
  obtain ⟨calm, frames⟩ := pushed.wf.calm_pushes (W := W) 
    (fun v (n : Nat) => v.register (i.arg2 + n)) (List.range i.arg3)
  exact .metamethod (pushed.trans (calm.trans (calm.wf.calm_of rfl rfl rfl rfl))) frames

theorem WF.callOp (wf : v.WF) {w : Awaiting} (run : v.callOp i = some (w, v₁)) :
    Did W v i (.call w v₁) := by
  simp only [LVVM.callOp] at run
  split at run
  · simp only [Option.bind_eq_bind, Option.bind_eq_some_iff, Option.pure_def,
      Option.some.injEq, Prod.mk.injEq] at run
    obtain ⟨started, start, rfl, rfl⟩ := run
    have call := wf.startCall (W := W) start
    split
    · rename_i generator
      rw [if_pos generator] at call
      exact .generator call
    · rename_i script
      rw [if_neg script] at call
      obtain ⟨calm, ci, plain, frames⟩ := call
      exact .script calm plain frames rfl
  · rename_i found
    simp only [Option.bind_eq_bind, Option.bind_eq_some_iff, Option.pure_def,
      Option.some.injEq, Prod.mk.injEq] at run
    obtain ⟨entered, enter, rfl, rfl⟩ := run
    obtain ⟨calm, ci, plain, closure, frames⟩ := wf.enterNative (W := W) enter
    exact .native calm plain frames (closure ▸ lookup_native found) rfl
  · exact wf.callClass run
  · cases run
    exact wf.callDelegate _
  · cases run
    exact wf.callDelegate _
  · cases run

theorem WF.tailcallOp (wf : v.WF) {w : Awaiting} (run : v.tailcallOp i = some (w, v₁)) :
    Did W v i (.call w v₁) := by
  simp only [LVVM.tailcallOp] at run
  split at run
  · rename_i k ci rest found frames
    split at run
    · exact wf.callOp run
    · rename_i script
      simp only [Option.map_eq_some_iff, Prod.mk.injEq] at run
      obtain ⟨started, start, rfl, rfl⟩ := run
      have closed : Calm W v (v.closeOuters v.stackbase) := wf.calm_closeOuters v.stackbase
      have moved : Calm W v { v.closeOuters v.stackbase with stack := fun s =>
          if v.stackbase ≤ s ∧ s < v.stackbase + i.arg3 then v.stack (s + i.arg2) else v.stack s } :=
        closed.trans (closed.wf.calm_of rfl rfl rfl rfl)
      obtain ⟨calm, touched⟩ := moved.wf.startTailCall (W := W) (by simpa using script) start
      exact .tail (moved.trans calm) touched
  · exact wf.callOp run

/-- What an instruction does that resumes the generator `g` at `a`. When
`EnterFrame` fails in `FOREACH` the machine cannot go on. -/
inductive Resumption (W : Set Nat) (alive : LVObject → Bool) (v : LVVM) (i : LVInstruction)
    (a : Nat) (g : LVGenerator) : Ran → Prop
  | resumed {w target saved ci g' v'} (calm : Calm W v w) (frames : w.callsstack = v.callsstack)
      (stackbase : w.stackbase = v.stackbase) (top : w.top = v.top)
      (suspended : g.state = .eSuspended) (is : g.ci = some saved) (resumed : Resumed alive w a g target saved ci g' v')
      (changed : Changed W a g' w v') :
      Resumption W alive v i a g (.next v' (if i.op = .OP_RESUME then saved.etraps else 0))
  | stuck {ci v'} (suspended : g.state = .eSuspended) (calm : Calm W v v') (plain : ci.Plain)
      (frames : v'.callsstack = ci :: v.callsstack) (closure : ci.closure.type ≠ .OT_CLOSURE) :
      Resumption W alive v i a g (.next v' 0)

theorem generatorOf_found {o : LVObject} {a : Nat} {g : LVGenerator}
    (of : v.generatorOf o = some (a, g)) : v.generatorAt a = some g := by
  unfold generatorOf at of
  split at of
  · simp only [Option.map_eq_some_iff, Prod.mk.injEq] at of
    obtain ⟨g', found, rfl, rfl⟩ := of
    exact found
  · cases of

theorem fetch_of_type {ci : CallInfo} {rest : List CallInfo} (frames : v.callsstack = ci :: rest)
    (type : ci.closure.type ≠ .OT_CLOSURE) : v.fetch = none := by
  have absent : v.currentClosure = none := by
    simp only [currentClosure, frames]
    split
    · rename_i k found
      have mem := lookup_type found
      rw [HeapObject.types, List.mem_singleton] at mem
      exact absurd mem type
    · rfl
  simp [fetch, absent]

theorem WF.resumeOp (wf : v.WF) {alive : LVObject → Bool} (op : i.op = .OP_RESUME)
    (run : v.resumeOp alive i = some v₁) : ∃ a g, v.resumes i = some (a, g) ∧
      v.generatorAt a = some g ∧ Resumption W alive v i a g (.next v₁ v₁.frameTraps) := by
  simp only [LVVM.resumeOp, Option.bind_eq_bind, Option.bind_eq_some_iff] at run
  obtain ⟨⟨a, g⟩, of, run⟩ := run
  have found := generatorOf_found of
  obtain ⟨suspended, saved, ci, g', is, resumed, changed⟩ := wf.resume_control (W := W) found run
  have traps : v₁.frameTraps = if i.op = .OP_RESUME then saved.etraps else 0 := by
    rw [if_pos op, frameTraps, resumed.frames, resumed.frame]
    rfl
  refine ⟨a, g, by rw [resumes, op]; exact of, found, ?_⟩
  rw [traps]
  exact .resumed wf.calm rfl rfl rfl suspended is resumed changed

/-- `FOREACH` does not look at what `Resume` answers. -/
theorem Resumption.of_getD {w : LVVM} {alive : LVObject → Bool} {a : Nat} {g : LVGenerator}
    {target newbase newtop : Int} (calm : Calm W v w) (frames : w.callsstack = v.callsstack)
    (stackbase : w.stackbase = v.stackbase) (top : w.top = v.top)
    (found : v.generatorAt a = some g) (op : i.op ≠ .OP_RESUME) (suspended : g.state = .eSuspended) :
    Resumption W alive v i a g
      (.next ((w.resume_ alive a g target).getD (w.pushFrame newbase newtop)) 0) := by
  cases run : w.resume_ alive a g target with
  | none =>
    obtain ⟨ci, plain, null, pushed⟩ := w.pushFrame_frames newbase newtop
    refine .stuck suspended (calm.trans (calm.wf.calm_pushFrame newbase newtop)) plain ?_
      (by simp [null, LVObject.null])
    rw [Option.getD_none, pushed, frames]
  | some v₁ =>
    obtain ⟨suspended, saved, ci, g', is, resumed, changed⟩ :=
      calm.wf.resume_control (W := W) ((calm.generators a).trans found) run
    have next : Resumption W alive v i a g (.next v₁ (if i.op = .OP_RESUME then saved.etraps else 0)) :=
      .resumed calm frames stackbase top suspended is resumed changed
    rwa [if_neg op] at next

theorem WF.foreachOp (wf : v.WF) {alive : LVObject → Bool} (op : i.op = .OP_FOREACH)
    (run : v.foreachOp alive i = some v₁) :
    (v.resumes i = none ∧ Did W v i (.next v₁ 0)) ∨ ∃ a g, v.resumes i = some (a, g) ∧
      v.generatorAt a = some g ∧ Resumption W alive v i a g (.next v₁ 0) := by
  simp only [LVVM.foreachOp, Option.bind_eq_bind, Option.bind_eq_some_iff] at run
  obtain ⟨⟨a, g⟩, of, run⟩ := run
  have found := generatorOf_found of
  have resumes : v.resumes i = if g.state = .eSuspended then some (a, g) else none := by
    simp [LVVM.resumes, op, of, Option.filter]
  split at run
  · rename_i dead
    cases run
    rw [dead, if_neg (by simp)] at resumes
    exact .inl ⟨resumes, wf.jump _⟩
  · rename_i suspended
    rw [if_pos suspended] at resumes
    refine .inr ⟨a, g, resumes, found, ?_⟩
    cases run
    exact .of_getD (wf.calm_of rfl rfl rfl rfl) rfl rfl rfl found (by simp [op]) suspended
  · cases run

theorem resumes_of_op (resume : i.op ≠ .OP_RESUME) (foreach : i.op ≠ .OP_FOREACH) :
    v.resumes i = none := by
  unfold resumes
  split
  · exact absurd ‹_› resume
  · exact absurd ‹_› foreach
  · rfl

theorem WF.closureInstruction (wf : v.WF) {r : Ran}
    (run : (do
      let k ← v.currentClosure
      let func ← k.function.functions[i.arg1.toNat]?
      return Ran.next (← v.closureOp k i func) 0) = some r) : Did W v i r := by
  simp only [Option.bind_eq_bind, Option.bind_eq_some_iff, Option.pure_def,
    Option.some.injEq] at run
  obtain ⟨k, -, func, -, v₁, run, rfl⟩ := run
  obtain ⟨calm, frames⟩ : Calm W _ _ ∧ _ := wf.calm_closureOp run
  exact .same calm frames

theorem WF.instruction (wf : v.WF) {alive : LVObject → Bool} {r : Ran}
    (written : ∀ a, v.writes i = some a → a ∈ W) (run : v.instruction alive i = some r) :
    (v.resumes i = none ∧ Did W v i r) ∨ ∃ a g, v.resumes i = some (a, g) ∧
      v.generatorAt a = some g ∧ Resumption W alive v i a g r := by
  unfold LVVM.instruction at run
  split at run
  case h_5 op =>
    obtain ⟨v₁, done, rfl⟩ := Option.map_eq_some_iff.mp run
    exact .inr (wf.resumeOp op done)
  case h_6 op =>
    obtain ⟨v₁, done, rfl⟩ := Option.map_eq_some_iff.mp run
    exact wf.foreachOp op done
  all_goals refine .inl ⟨resumes_of_op (by first | assumption | simp [*]) (by first | assumption | simp [*]), ?_⟩
  case h_1 =>
    obtain ⟨⟨w, v₁⟩, done, rfl⟩ := Option.map_eq_some_iff.mp run
    exact wf.callOp done
  case h_2 =>
    obtain ⟨⟨w, v₁⟩, done, rfl⟩ := Option.map_eq_some_iff.mp run
    exact wf.tailcallOp done
  case h_3 op => exact wf.returnOp op run
  case h_4 op => exact wf.yieldReturn op run
  case h_7 =>
    obtain ⟨v₁, done, rfl⟩ := Option.map_eq_some_iff.mp run
    exact wf.postForeachOp done
  case h_8 =>
    obtain ⟨v₁, done, rfl⟩ := Option.map_eq_some_iff.mp run
    exact wf.pushTrapOp done
  case h_9 op =>
    cases run
    exact wf.popTrapOp op
  case h_10 => exact wf.closureInstruction run
  case h_11 =>
    obtain ⟨v₁, done, rfl⟩ := Option.map_eq_some_iff.mp run
    exact wf.getOuterOp done
  case h_12 op =>
    obtain ⟨v₁, done, rfl⟩ := Option.map_eq_some_iff.mp run
    exact wf.setOuterOp done fun a current => written a (by rw [writes, if_pos op, current])
  case h_13 =>
    cases run
    exact .same (wf.calm_closeOuters _) rfl
  case h_14 =>
    obtain ⟨v₁, done, rfl⟩ := Option.map_eq_some_iff.mp run
    exact wf.registerOp done

end LVVM

end Lavril
