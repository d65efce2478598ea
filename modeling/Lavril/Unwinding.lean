import Lavril.Bookkeeping

/-!
# Instructions and the bookkeeping of the frames

An instruction keeps a run of `Execute` over the point where it was entered, or
it ends the run and leads back there. So does the loop of `exception_trap`.
-/

namespace Lavril

/-- The state after an instruction of a run of `Execute` that was entered at `b`. -/
inductive Executed (b : Bookkeeping) : Ran → Prop
  | next {v : LVVM} {n} (onTop : Over b v.bookkeeping) : Executed b (.next v n)
  | call {w} {v : LVVM} (onTop : Over b v.bookkeeping)
      (controls : w.controls = [] ∨ ∃ n, w.controls = [.metamethod n]) : Executed b (.call w v)
  | native {w} {v v' : LVVM} (onTop : Over b v.bookkeeping) (enters : v.Enters v')
      (controls : w.controls = [.native]) : Executed b (.call w v')
  | finish {v : LVVM} {n} (same : v.bookkeeping = b) : Executed b (.finish v n)

/-- A suspended generator whose traps can be counted for the frame it resumes. -/
structure LVGenerator.Resumable (g : LVGenerator) (saved : CallInfo) : Prop where
  root : saved.root = false
  length : (g.etraps.length : Int) = saved.etraps
  bases : ∀ t ∈ g.etraps, t.stackbase = 0

namespace LVVM

variable {W : Set Nat} {v v₁ v' w : LVVM} {i : LVInstruction} {b : Bookkeeping} {ci : CallInfo}
  {rest : List CallInfo}

theorem yield_bookkeeping {a target : Nat} {g : LVGenerator} (frames : v.callsstack = ci :: rest)
    (run : v.yield_ a g target = some v') :
    v'.bookkeeping = ⟨ci :: rest, v.stackbase, v.top, v.etraps.drop ci.etraps.toNat⟩ := by
  obtain ⟨ci', rest', frames', -, rfl⟩ := yield_eq run
  obtain ⟨rfl, rfl⟩ := List.cons.inj (frames.symm.trans frames')
  simp only [bookkeeping, setGenerator, frames]

theorem startGenerator_bookkeeping {clo : LVObject} {k : LVClosure} {target : Int}
    (enters : Enters v v₁) (run : v₁.startGenerator clo k target = some v') :
    v'.bookkeeping = v.bookkeeping := by
  obtain ⟨ci, frames, -, none, start, caller⟩ := enters.frame
  simp only [startGenerator, create, Option.bind_eq_bind, Option.bind_eq_some_iff,
    Option.pure_def, Option.some.injEq] at run
  obtain ⟨yielded, yield, returned, ret, rfl⟩ := run
  have saved := yield_bookkeeping (by exact frames) yield
  simp only [bookkeeping, Bookkeeping.mk.injEq] at saved
  have left := return_bookkeeping saved.1 ret
  simp only [bookkeeping, Bookkeeping.mk.injEq] at left ⊢
  refine ⟨left.1, ?_, ?_, ?_⟩
  · have := left.2.1
    simp only [setSlot_stackbase]
    omega
  · have := left.2.2.1
    simp only [setSlot_top]
    omega
  · change returned.etraps = _
    rw [left.2.2.2, saved.2.2.2, none]
    exact enters.etraps

theorem startCall_bookkeeping {clo : LVObject} {k : LVClosure} {target stackbase : Int} {args : Nat}
    (run : v.startCall clo k target args stackbase false = some v') :
    if k.function.bgenerator then v'.bookkeeping = v.bookkeeping else Enters v v' := by
  simp only [startCall, Option.bind_eq_bind, Option.bind_eq_some_iff] at run
  obtain ⟨started, start, run⟩ := run
  have enters : Enters v started := startFrame_bookkeeping start
  split
  · rename_i generator
    rw [if_pos generator] at run
    exact startGenerator_bookkeeping enters run
  · rename_i script
    rw [if_neg script] at run
    cases run
    exact enters

theorem startTailCall_bookkeeping {clo : LVObject} {k : LVClosure} {target : Int} {args : Nat}
    (script : k.function.bgenerator = false)
    (run : v.startCall clo k target args v.stackbase true = some v') :
    Similar v.bookkeeping v'.bookkeeping := by
  simp only [startCall, script, Option.bind_eq_bind, Option.bind_eq_some_iff] at run
  obtain ⟨started, start, run⟩ := run
  rw [if_neg Bool.false_ne_true] at run
  cases run
  exact startFrame_bookkeeping start rfl

theorem enterNative_bookkeeping {clo : LVObject} {k : LVNativeClosure} {nargs : Nat} {newbase : Int}
    (run : v.enterNative clo k nargs newbase = some v') : Enters v v' := by
  unfold enterNative at run
  split at run
  · cases run
  split at run
  · cases run
  simp only [Option.bind_eq_bind, Option.bind_eq_some_iff, Option.pure_def,
    Option.some.injEq] at run
  obtain ⟨entered, enter, rfl⟩ := run
  have enters : Enters v entered := enterFrame_bookkeeping enter
  have set := setEnv_bookkeeping { entered with
    callsstack := entered.callsstack.modifyHead fun ci => { ci with closure := clo }
    stack := fun s =>
      if newbase + nargs ≤ s ∧ s < newbase + nargs + k.outervalues.length then
        k.outervalues.getD (s - (newbase + nargs)).toNat .null
      else entered.stack s } k.env newbase
  simp only [bookkeeping, Bookkeeping.mk.injEq] at set
  refine enters.modifyHead ?_ set.1 set.2.1 set.2.2.2
  exact fun _ => ⟨rfl, rfl⟩

/-! ## Instructions -/

theorem registerOp_similar (run : v.registerOp i = some v') :
    Similar v.bookkeeping v'.bookkeeping := by
  unfold registerOp at run
  split at run
  · cases run
  · rename_i ci rest frames
    simp only [Option.bind_eq_bind, Option.bind_eq_some_iff, Option.pure_def,
      Option.some.injEq] at run
    obtain ⟨f, -, rfl⟩ := run
    refine ⟨⟨fun ci => { ci with ip := f.ip.toNat }, fun _ => ⟨rfl, rfl⟩, ?_⟩, rfl, rfl⟩
    simp only [bookkeeping, frames, List.modifyHead_cons]

theorem setOuterValue_bookkeeping (v : LVVM) (a : Nat) (o : LVObject) :
    (v.setOuterValue a o).bookkeeping = v.bookkeeping := by
  unfold setOuterValue
  split <;> rfl

theorem setOuterOp_bookkeeping (run : v.setOuterOp i = some v') :
    v'.bookkeeping = v.bookkeeping := by
  simp only [setOuterOp, Option.bind_eq_bind, Option.bind_eq_some_iff, Option.pure_def,
    Option.some.injEq] at run
  obtain ⟨a, -, rfl⟩ := run
  split
  · exact setOuterValue_bookkeeping v a (v.register i.arg2)
  · exact setOuterValue_bookkeeping v a (v.register i.arg2)

theorem getOuterOp_bookkeeping (run : v.getOuterOp i = some v') :
    v'.bookkeeping = v.bookkeeping := by
  simp only [getOuterOp, Option.bind_eq_bind, Option.bind_eq_some_iff, Option.pure_def,
    Option.some.injEq] at run
  obtain ⟨a, -, o, -, rfl⟩ := run
  rfl

theorem captureOuters_bookkeeping (k : LVClosure) (v : LVVM) (outers : List LVOuterVar) :
    (captureOuters k v outers).2.bookkeeping = v.bookkeeping := by
  induction outers generalizing v with
  | nil => rfl
  | cons outer rest ih =>
    simp only [captureOuters]
    cases outer.type with
    | otLOCAL =>
      refine (ih _).trans ?_
      simp only [findOuter]
      split <;> rfl
    | otOUTER => exact ih v

theorem closureOp_bookkeeping {k : LVClosure} {func : FunctionPrototype}
    (run : v.closureOp k i func = some v') : v'.bookkeeping = v.bookkeeping := by
  unfold closureOp at run
  split at run
  · cases run
    exact captureOuters_bookkeeping k _ func.outervalues
  · cases run

theorem jump_similar (v : LVVM) (offset : Int) :
    Similar v.bookkeeping (v.jump offset).bookkeeping := by
  refine ⟨⟨_, fun ci => ?_, rfl⟩, rfl, rfl⟩
  exact ⟨rfl, rfl⟩

theorem postForeachOp_similar (run : v.postForeachOp i = some v') :
    Similar v.bookkeeping v'.bookkeeping := by
  simp only [postForeachOp, Option.bind_eq_bind, Option.bind_eq_some_iff, Option.pure_def,
    Option.some.injEq] at run
  obtain ⟨g, -, rfl⟩ := run
  split
  · exact v.jump_similar _
  · exact .refl rfl rfl rfl

/-- The trap is at the base of the running frame. -/
theorem pushTrapOp_over (onTop : Over b v.bookkeeping) (run : v.pushTrapOp i = some v') :
    Over b v'.bookkeeping := by
  obtain ⟨ci, rest, ts, etraps, frames, eq, traps, under⟩ := onTop.head
  simp only [bookkeeping] at frames eq traps under
  simp only [pushTrapOp, frames, Option.some.injEq] at run
  subst run
  have traps' : ({ ci with etraps := ci.etraps + 1 } : CallInfo).Traps v.stackbase
      (⟨v.stackbase, v.top, (ci.ip + i.arg1).toNat, i.arg0⟩ :: ts) := by
    refine ⟨?_, List.forall_mem_cons.mpr ⟨rfl, traps.base⟩⟩
    rw [List.length_cons, Nat.cast_succ, traps.length]
  have ties : ({ ci with etraps := ci.etraps + 1 } : CallInfo).ties = ci.ties := rfl
  have pushed := (under.congr ties).onTop traps' v.top
  simpa only [bookkeeping, addEtraps, frames, List.modifyHead_cons, eq, List.cons_append] using pushed

/-- The traps that are taken are those of the running frame. -/
theorem popTrapOp_over (onTop : Over b v.bookkeeping) (balanced : i.arg0 ≤ v.frameTraps) :
    Over b (v.popTrapOp i).bookkeeping := by
  obtain ⟨ci, rest, ts, etraps, frames, eq, traps, under⟩ := onTop.head
  simp only [bookkeeping] at frames eq traps under
  simp only [frameTraps, frames, List.head?_cons, Option.map_some, Option.getD_some] at balanced
  have length := traps.length
  have traps' : ({ ci with etraps := ci.etraps + -(i.arg0 : Int) } : CallInfo).Traps v.stackbase
      (ts.drop i.arg0) := by
    refine ⟨?_, fun t mem => traps.base t (List.mem_of_mem_drop mem)⟩
    rw [List.length_drop]
    simp only
    omega
  have ties : ({ ci with etraps := ci.etraps + -(i.arg0 : Int) } : CallInfo).ties = ci.ties := rfl
  have popped := (under.congr ties).onTop traps' v.top
  rw [← List.drop_append_of_le_length (by omega)] at popped
  simpa only [bookkeeping, popTrapOp, addEtraps, frames, List.modifyHead_cons, eq] using popped

/-- The running frame has been left, with its traps. -/
theorem leave_executed {n : Nat} {traps : Int} {r : Ran} (onTop : Over b v.bookkeeping)
    (frames : v.callsstack = ci :: rest) (taken : ci.etraps.toNat = n)
    (left : v'.bookkeeping = ⟨rest, v.stackbase - ci.prevstkbase,
      v.stackbase - ci.prevstkbase + ci.prevtop, v.etraps.drop n⟩)
    (ran : r = if ci.root then .finish v' traps else .next v' traps) : Executed b r := by
  obtain ⟨ci', rest', ts, etraps, frames', eq, counted, under⟩ := onTop.head
  obtain ⟨rfl, rfl⟩ := List.cons.inj (frames.symm.trans frames')
  simp only [bookkeeping] at eq under
  have length := counted.length
  have drop : v.etraps.drop n = etraps := by
    rw [eq, ← taken, ← length, Int.toNat_natCast, List.drop_left]
  rw [drop] at left
  cases under with
  | root root callsstack below start caller =>
    rw [if_pos root] at ran
    subst ran
    refine .finish (left.trans ?_)
    obtain ⟨callsstack', stackbase, top, etraps'⟩ := b
    simp only at callsstack below start caller
    rw [callsstack, below, Bookkeeping.mk.injEq]
    refine ⟨rfl, ?_, ?_, rfl⟩
    · omega
    · omega
  | frame root onTop' =>
    rw [if_neg (by simp [root])] at ran
    subst ran
    exact .next (left ▸ onTop' _)

theorem killGenerator_bookkeeping (v : LVVM) (ci : CallInfo) :
    (v.killGenerator ci).bookkeeping = v.bookkeeping := by
  unfold killGenerator
  split
  · rfl
  · split <;> rfl

theorem returnOp_executed {r : Ran} (onTop : Over b v.bookkeeping) (none : v.frameTraps = 0)
    (run : v.returnOp i = some r) : Executed b r := by
  unfold returnOp at run
  split at run
  · cases run
  · rename_i ci rest frames
    simp only [Option.bind_eq_bind, Option.bind_eq_some_iff, Option.pure_def,
      Option.some.injEq] at run
    obtain ⟨v₁, ret, ran⟩ := run
    simp only [frameTraps, frames, List.head?_cons, Option.map_some, Option.getD_some] at none
    have killed := v.killGenerator_bookkeeping ci
    simp only [bookkeeping, Bookkeeping.mk.injEq] at killed
    have left := return_bookkeeping (killed.1.trans frames) ret
    rw [killed.2.1, killed.2.2.2] at left
    exact leave_executed onTop frames (n := 0) (by rw [none]; rfl) left ran.symm

theorem yieldReturn_executed {r : Ran} (onTop : Over b v.bookkeeping)
    (run : v.yieldReturn i = some r) : Executed b r := by
  simp only [yieldReturn, Option.bind_eq_bind, Option.bind_eq_some_iff, Option.pure_def,
    Option.some.injEq] at run
  obtain ⟨v₁, yield, v₂, ret, ran⟩ := run
  unfold yieldOp at yield
  split at yield
  · cases yield
  · rename_i ci rest frames
    simp only [Option.bind_eq_bind, Option.bind_eq_some_iff, Option.pure_def,
      Option.some.injEq] at yield
    obtain ⟨a, -, g, -, yielded, yield, eq⟩ := yield
    have saved := yield_bookkeeping frames yield
    have stored : v₁.bookkeeping = yielded.bookkeeping := by
      subst eq
      split <;> rfl
    rw [saved] at stored
    simp only [bookkeeping, Bookkeeping.mk.injEq] at stored
    have left := return_bookkeeping stored.1 ret
    rw [stored.2.1, stored.2.2.2] at left
    have root : v.frameRoot = ci.root := by simp [frameRoot, frames]
    rw [root] at ran
    exact leave_executed onTop frames rfl left ran.symm

/-- The frame that `Resume` restores. -/
theorem Resumed.onTop {alive : LVObject → Bool} {a : Nat} {g g' : LVGenerator} {target : Int}
    {saved : CallInfo} (resumed : Resumed alive v a g target saved ci g' v')
    (resumable : g.Resumable saved) (onTop : Over b v.bookkeeping) : Over b v'.bookkeeping := by
  obtain ⟨root, length, bases⟩ := resumable
  have all : g.etraps.length - saved.etraps.toNat = 0 := by omega
  have etraps := resumed.etraps
  rw [all, List.drop_zero] at etraps
  have traps : ci.Traps v.top (g.etraps.map (·.shift v.top)) := by
    refine ⟨?_, fun t inside => ?_⟩
    · rw [List.length_map, resumed.frame]
      exact length
    · obtain ⟨saved, mem, rfl⟩ := List.mem_map.mp inside
      simp [LVExceptionTrap.shift, bases saved mem]
  have pushed : Over b ⟨ci :: v.callsstack, v.top, v'.top,
      g.etraps.map (·.shift v.top) ++ v.etraps⟩ := by
    refine .push onTop ?_ ?_ traps
    · rw [resumed.frame]
      exact root
    · rw [resumed.frame]
      simp only [bookkeeping]
      omega
  rwa [← resumed.frames, ← etraps, ← resumed.stackbase] at pushed

theorem resumeOp_over {alive : LVObject → Bool} (wf : v.WF) (onTop : Over b v.bookkeeping)
    (op : i.op = .OP_RESUME) (resumable : ∀ a g ci, v.resumes i = some (a, g) →
      g.state = .eSuspended → g.ci = some ci → g.Resumable ci)
    (run : v.resumeOp alive i = some v') : Over b v'.bookkeeping := by
  simp only [resumeOp, Option.bind_eq_bind, Option.bind_eq_some_iff] at run
  obtain ⟨⟨a, g⟩, of, run⟩ := run
  obtain ⟨suspended, saved, ci, g', is, resumed, -⟩ :=
    wf.resume_control (W := ∅) (generatorOf_found of) run
  exact resumed.onTop (resumable a g saved (by rw [resumes, op]; exact of) suspended is) onTop

/-- `FOREACH` goes on with a new frame when `Resume` fails. -/
theorem foreachOp_over {alive : LVObject → Bool} (wf : v.WF) (onTop : Over b v.bookkeeping)
    (op : i.op = .OP_FOREACH) (resumable : ∀ a g ci, v.resumes i = some (a, g) →
      g.state = .eSuspended → g.ci = some ci → g.Resumable ci)
    (run : v.foreachOp alive i = some v') : Over b v'.bookkeeping := by
  simp only [foreachOp, Option.bind_eq_bind, Option.bind_eq_some_iff] at run
  obtain ⟨⟨a, g⟩, of, run⟩ := run
  split at run
  · cases run
    exact onTop.similar (v.jump_similar _)
  · rename_i suspended
    have resumes : v.resumes i = some (a, g) := by
      simp only [LVVM.resumes, op, of, Option.filter]
      exact if_pos (by simpa using suspended)
    simp only [Option.pure_def, Option.some.injEq] at run
    subst run
    set w := (v.setSlot (v.stackbase + i.arg2) _).setSlot (v.stackbase + (i.arg2 + 2)) _
    have same : Over b w.bookkeeping := onTop
    cases resume : w.resume_ alive a g (i.arg2 + 1) with
    | none => exact (w.enters_pushFrame _ _).onTop same
    | some v₁ =>
      have wf' : w.WF := wf.of_eq rfl rfl rfl
      obtain ⟨-, saved, ci, g', is, resumed, -⟩ :=
        wf'.resume_control (W := ∅) (generatorOf_found of) resume
      exact resumed.onTop (resumable a g saved resumes suspended is) same
  · cases run

/-! ## Calls -/

theorem callConstructor_executed {inst constructor : LVObject} {object : Option HeapObject}
    {a : Awaiting} (onTop : Over b v.bookkeeping)
    (run : v.callConstructor i inst constructor object = some (a, v')) : Executed b (.call a v') := by
  unfold callConstructor at run
  split at run
  · simp only [Option.bind_eq_bind, Option.bind_eq_some_iff, Option.pure_def,
      Option.some.injEq, Prod.mk.injEq] at run
    obtain ⟨started, start, rfl, rfl⟩ := run
    have call := startCall_bookkeeping start
    split
    · rename_i generator
      rw [if_pos generator] at call
      exact .call (call ▸ onTop) (.inl rfl)
    · rename_i script
      rw [if_neg script] at call
      exact .call (call.onTop onTop) (.inl rfl)
  · simp only [Option.bind_eq_bind, Option.bind_eq_some_iff, Option.pure_def,
      Option.some.injEq, Prod.mk.injEq] at run
    obtain ⟨entered, enter, rfl, rfl⟩ := run
    exact .native (v := v.setSlot _ inst) onTop (enterNative_bookkeeping enter) rfl
  · simp only [Option.some.injEq, Prod.mk.injEq] at run
    obtain ⟨rfl, rfl⟩ := run
    exact .call onTop (.inl rfl)

theorem callClass_executed {clo : LVObject} {c : LVClass} {a : Awaiting}
    (onTop : Over b v.bookkeeping) (run : v.callClass i clo c = some (a, v')) :
    Executed b (.call a v') := by
  have instantiated : (v.instantiate i clo c).2.bookkeeping = v.bookkeeping := by
    simp only [instantiate, storeTarget]
    split <;> rfl
  unfold callClass at run
  split at run
  · cases run
  · split at run
    · exact callConstructor_executed (instantiated ▸ onTop) run
    · simp only [Option.some.injEq, Prod.mk.injEq] at run
      obtain ⟨rfl, rfl⟩ := run
      exact .call (instantiated ▸ onTop) (.inl rfl)

theorem pushes_similar {α : Type} (value : LVVM → α → LVObject) (args : List α) (v : LVVM) :
    Similar v.bookkeeping (args.foldl (fun v x => v.push (value v x)) v).bookkeeping := by
  induction args generalizing v with
  | nil => exact .refl rfl rfl rfl
  | cons x args ih =>
    have pushed : Similar v.bookkeeping (v.push (value v x)).bookkeeping := .refl rfl rfl rfl
    exact pushed.trans (ih (v.push (value v x)))

theorem callDelegate_executed (onTop : Over b v.bookkeeping) (clo : LVObject) :
    Executed b (.call (v.callDelegate i clo).1 (v.callDelegate i clo).2) := by
  have pushed : Similar v.bookkeeping (v.push clo).bookkeeping := .refl rfl rfl rfl
  have similar := pushed.trans (pushes_similar (fun v (n : Nat) => v.register (i.arg2 + n))
    (List.range i.arg3) (v.push clo))
  exact .call (onTop.similar similar) (.inr ⟨_, rfl⟩)

theorem callOp_executed {a : Awaiting} (onTop : Over b v.bookkeeping)
    (run : v.callOp i = some (a, v')) : Executed b (.call a v') := by
  simp only [callOp] at run
  split at run
  · simp only [Option.bind_eq_bind, Option.bind_eq_some_iff, Option.pure_def,
      Option.some.injEq, Prod.mk.injEq] at run
    obtain ⟨started, start, rfl, rfl⟩ := run
    have call := startCall_bookkeeping start
    split
    · rename_i generator
      rw [if_pos generator] at call
      exact .call (call ▸ onTop) (.inl rfl)
    · rename_i script
      rw [if_neg script] at call
      exact .call (call.onTop onTop) (.inl rfl)
  · simp only [Option.bind_eq_bind, Option.bind_eq_some_iff, Option.pure_def,
      Option.some.injEq, Prod.mk.injEq] at run
    obtain ⟨entered, enter, rfl, rfl⟩ := run
    exact .native onTop (enterNative_bookkeeping enter) rfl
  · exact callClass_executed onTop run
  · cases run
    exact callDelegate_executed onTop _
  · cases run
    exact callDelegate_executed onTop _
  · cases run

theorem tailcallOp_executed {a : Awaiting} (onTop : Over b v.bookkeeping)
    (run : v.tailcallOp i = some (a, v')) : Executed b (.call a v') := by
  simp only [tailcallOp] at run
  split at run
  · split at run
    · exact callOp_executed onTop run
    · rename_i script
      simp only [Option.map_eq_some_iff, Prod.mk.injEq] at run
      obtain ⟨started, start, rfl, rfl⟩ := run
      have reused := startTailCall_bookkeeping (by simpa using script) start
      exact .call (Over.similar onTop reused) (.inl rfl)
  · exact callOp_executed onTop run

/-- Every instruction, as long as it takes and leaves the traps of its frame only. -/
theorem instruction_executed {alive : LVObject → Bool} {r : Ran} (wf : v.WF)
    (onTop : Over b v.bookkeeping) (pop : i.op = .OP_POPTRAP → i.arg0 ≤ v.frameTraps)
    (ret : i.op = .OP_RETURN → v.frameTraps = 0)
    (resumable : ∀ a g ci, v.resumes i = some (a, g) → g.state = .eSuspended → g.ci = some ci →
      g.Resumable ci)
    (run : v.instruction alive i = some r) : Executed b r := by
  unfold instruction at run
  split at run
  case h_1 =>
    obtain ⟨⟨w, v₁⟩, done, rfl⟩ := Option.map_eq_some_iff.mp run
    exact callOp_executed onTop done
  case h_2 =>
    obtain ⟨⟨w, v₁⟩, done, rfl⟩ := Option.map_eq_some_iff.mp run
    exact tailcallOp_executed onTop done
  case h_3 op => exact returnOp_executed onTop (ret op) run
  case h_4 => exact yieldReturn_executed onTop run
  case h_5 op =>
    obtain ⟨v₁, done, rfl⟩ := Option.map_eq_some_iff.mp run
    exact .next (resumeOp_over wf onTop op resumable done)
  case h_6 op =>
    obtain ⟨v₁, done, rfl⟩ := Option.map_eq_some_iff.mp run
    exact .next (foreachOp_over wf onTop op resumable done)
  case h_7 =>
    obtain ⟨v₁, done, rfl⟩ := Option.map_eq_some_iff.mp run
    exact .next (onTop.similar (postForeachOp_similar done))
  case h_8 =>
    obtain ⟨v₁, done, rfl⟩ := Option.map_eq_some_iff.mp run
    exact .next (pushTrapOp_over onTop done)
  case h_9 op =>
    cases run
    exact .next (popTrapOp_over onTop (pop op))
  case h_10 =>
    simp only [Option.bind_eq_bind, Option.bind_eq_some_iff, Option.pure_def,
      Option.some.injEq] at run
    obtain ⟨k, -, func, -, v₁, done, rfl⟩ := run
    exact .next (closureOp_bookkeeping done ▸ onTop)
  case h_11 =>
    obtain ⟨v₁, done, rfl⟩ := Option.map_eq_some_iff.mp run
    exact .next (getOuterOp_bookkeeping done ▸ onTop)
  case h_12 =>
    obtain ⟨v₁, done, rfl⟩ := Option.map_eq_some_iff.mp run
    exact .next (setOuterOp_bookkeeping done ▸ onTop)
  case h_13 =>
    cases run
    exact .next onTop
  case h_14 =>
    obtain ⟨v₁, done, rfl⟩ := Option.map_eq_some_iff.mp run
    exact .next (onTop.similar (registerOp_similar done))

/-! ## Exceptions -/

/-- The trap that takes the exception is one of the running frame. -/
theorem catch_over {error : LVObject} {last_top : Int} (onTop : Over b v.bookkeeping)
    (frames : v.callsstack = ci :: rest) (positive : ci.etraps > 0)
    (run : v.catch_ error last_top = some v') : Over b v'.bookkeeping := by
  obtain ⟨ci', rest', ts, etraps, frames', eq, traps, under⟩ := onTop.head
  obtain ⟨rfl, rfl⟩ := List.cons.inj (frames.symm.trans frames')
  simp only [bookkeeping] at eq traps under
  have length := traps.length
  cases ts with
  | nil =>
    simp only [List.length_nil, Nat.cast_zero] at length
    omega
  | cons t ts =>
    obtain ⟨here, bases⟩ := List.forall_mem_cons.mp traps.base
    simp only [catch_, eq, List.cons_append, Option.some.injEq] at run
    subst run
    have traps' : ({ ci with ip := t.ip, etraps := ci.etraps - 1 } : CallInfo).Traps v.stackbase
        ts := by
      refine ⟨?_, bases⟩
      rw [List.length_cons] at length
      simp only
      omega
    have ties : ({ ci with ip := t.ip, etraps := ci.etraps - 1 } : CallInfo).ties = ci.ties := rfl
    have caught := (under.congr ties).onTop traps' t.stacksize
    simpa only [bookkeeping, setSlot, nullSlots, frames, List.modifyHead_cons, here] using caught

/-- The loop of `exception_trap` stops at a frame with a trap, or it leads back
to where the run of `Execute` was entered. -/
theorem unwind_over {error : LVObject} {last_top : Int} {frames : List CallInfo} {caught : Bool}
    (onTop : Over b v.bookkeeping) (eq : v.callsstack = frames)
    (run : unwind error last_top frames v = some (caught, v')) :
    if caught then Over b v'.bookkeeping else v'.bookkeeping = b := by
  induction frames generalizing v with
  | nil =>
    obtain ⟨ci, rest, -, -, frames, -⟩ := onTop.head
    rw [bookkeeping, eq] at frames
    cases frames
  | cons ci rest ih =>
    simp only [unwind] at run
    split at run
    · rename_i positive
      simp only [Option.map_eq_some_iff, Prod.mk.injEq] at run
      obtain ⟨v₁, taken, rfl, rfl⟩ := run
      exact catch_over onTop eq positive taken
    · rename_i none
      simp only [Option.bind_eq_bind, Option.bind_eq_some_iff] at run
      obtain ⟨v₁, leave, run⟩ := run
      have killed := v.killGenerator_bookkeeping ci
      simp only [bookkeeping, Bookkeeping.mk.injEq] at killed
      have left := leaveFrame_bookkeeping (killed.1.trans eq) leave
      rw [killed.2.1, killed.2.2.2] at left
      have executed := @leave_executed _ _ _ _ _ 0 0 _ onTop eq (by omega) left rfl
      split at run
      · rename_i root
        rw [if_pos root] at executed
        cases run
        cases executed with
        | finish same => exact same
      · rename_i notRoot
        rw [if_neg notRoot] at executed
        cases executed with
        | next onTop =>
          simp only [bookkeeping, Bookkeeping.mk.injEq] at left
          exact ih onTop left.1 run

end LVVM

end Lavril
