import Lavril.Seats

/-!
# What keeps the generators that are running

Every step but a few leaves the slots below the running frame alone. `Stores`
lists the instructions that do not; `SparesGenerators` asks of them that the
generator of each frame keeps a slot below that frame.
-/

namespace Lavril

open LVVM

namespace LVVM

variable {v v' w : LVVM} {i : LVInstruction} {ci : CallInfo} {rest : List CallInfo}

/-- What an instruction stores in a slot that need not be one of the running frame. -/
inductive Stores (v : LVVM) (i : LVInstruction) : Int → LVObject → Prop
  | outer {a slot} (op : i.op = .OP_SETOUTER) (current : v.currentOuter i.arg1.toNat = some a)
      (isOpen : v.outerSlot a = some slot) : Stores v i slot (v.register i.arg2)
  /-- A generator that nobody wants goes to `-1`. -/
  | generator {k a} (op : i.op = .OP_CALL ∨ i.op = .OP_TAILCALL)
      (found : v.lookup (v.register i.arg1) = some (.closure k))
      (generator : k.function.bgenerator = true) (new : v.next ≤ a) :
      Stores v i (v.stackbase + i.sarg0) (.ofAddress .OT_GENERATOR a)
  | constructor {c o k a} (op : i.op = .OP_CALL ∨ i.op = .OP_TAILCALL)
      (found : v.lookup (v.register i.arg1) = some (.class c)) (is : c.constructor = some o)
      (constructor : v.lookup o = some (.closure k)) (generator : k.function.bgenerator = true)
      (new : v.next ≤ a) : Stores v i (v.stackbase + -1) (.ofAddress .OT_GENERATOR a)

/-- An instruction takes no running generator its last slot. -/
structure SparesGenerators (v : LVVM) (i : LVInstruction) : Prop where
  stores : ∀ slot o, v.Stores i slot o →
    Spares v.stack v.stacksize slot o v.stackbase v.callsstack
  /-- The result of a call, when its target is not a register of the caller. -/
  result : i.op = .OP_RETURN → ∀ ci rest, v.callsstack = ci :: rest → ci.root = false →
    ci.target ≠ -1 → Spares v.stack v.stacksize (v.stackbase - ci.prevstkbase + ci.target)
      (v.resultValue i.arg0 i.arg1) (v.stackbase - ci.prevstkbase) rest

def IsRegister (v : LVVM) (r : Int) : Prop := 0 ≤ r ∧ v.stackbase + r < v.top

/-- The generator that an instruction resumes is in a register, and `FOREACH` does not
overwrite that first. -/
structure ResumesRegister (v : LVVM) (i : LVInstruction) : Prop where
  resume : i.op = .OP_RESUME → v.IsRegister i.arg1
  foreach : i.op = .OP_FOREACH → v.IsRegister i.arg0 ∧ i.arg0 ≠ i.arg2 ∧ i.arg0 ≠ i.arg2 + 2

/-! ## Instructions on the own frame -/

theorem registerOp_stays (run : v.registerOp i = some v') : Stays v v' := by
  unfold registerOp at run
  split at run
  · cases run
  · rename_i ci rest frames
    simp only [Option.bind_eq_bind, Option.bind_eq_some_iff, Option.pure_def,
      Option.some.injEq] at run
    obtain ⟨f, -, rfl⟩ := run
    refine ⟨?_, rfl, rfl, le_refl _, fun s lt _ => ?_⟩
    · rw [frames]
      rfl
    · simp only
      rw [if_neg (by omega)]

theorem getOuterOp_stays (run : v.getOuterOp i = some v') : Stays v v' := by
  simp only [getOuterOp, Option.bind_eq_bind, Option.bind_eq_some_iff, Option.pure_def,
    Option.some.injEq] at run
  obtain ⟨a, -, o, -, rfl⟩ := run
  exact v.stays_setSlot (by omega) o

theorem captureOuters_stays (k : LVClosure) (v : LVVM) (outers : List LVOuterVar) :
    Stays v (captureOuters k v outers).2 := by
  induction outers generalizing v with
  | nil => exact .refl v
  | cons outer rest ih =>
    simp only [captureOuters]
    cases outer.type with
    | otLOCAL =>
      refine Stays.trans ?_ (ih _)
      simp only [findOuter]
      split <;> exact .of_frames rfl rfl rfl rfl rfl
    | otOUTER => exact ih v

theorem stays_create (v : LVVM) (type : LVObjectType) (object : HeapObject) :
    Stays v (v.create type object).2 := .of_frames rfl rfl rfl rfl rfl

theorem closureOp_stays {k : LVClosure} {func : FunctionPrototype}
    (run : v.closureOp k i func = some v') : Stays v v' := by
  unfold closureOp at run
  split at run
  · cases run
    have captured : ∀ c : LVClosure, Stays v
        (captureOuters k (v.create .OT_CLOSURE (.closure c)).2 func.outervalues).2 := fun c =>
      (v.stays_create .OT_CLOSURE (.closure c)).trans (captureOuters_stays k _ func.outervalues)
    refine (captured _).trans ⟨rfl, rfl, rfl, le_refl _, fun s lt _ => setSlot_stack_of_ne ?_⟩
    rw [(captured _).stackbase] at lt
    omega
  · cases run

theorem jump_stays (v : LVVM) (offset : Int) : Stays v (v.jump offset) :=
  .of_frames (map_seat_modifyHead (f := fun ci => { ci with ip := (ci.ip + offset).toNat })
    (fun _ => rfl) _) rfl rfl rfl rfl

theorem postForeachOp_stays (run : v.postForeachOp i = some v') : Stays v v' := by
  simp only [postForeachOp, Option.bind_eq_bind, Option.bind_eq_some_iff, Option.pure_def,
    Option.some.injEq] at run
  obtain ⟨g, -, rfl⟩ := run
  split
  · exact v.jump_stays _
  · exact .refl v

theorem fetch_stays (fetch : v.fetch = some (i, v')) :
    Stays v v' ∧ v'.top = v.top ∧ v'.stacksize = v.stacksize := by
  simp only [LVVM.fetch, Option.bind_eq_bind, Option.bind_eq_some_iff] at fetch
  obtain ⟨k, -, fetch⟩ := fetch
  split at fetch
  · cases fetch
  · rename_i ci rest frames
    simp only [Option.bind_eq_some_iff, Option.pure_def, Option.some.injEq, Prod.mk.injEq] at fetch
    obtain ⟨i, -, -, rfl⟩ := fetch
    refine ⟨.of_frames ?_ rfl rfl rfl rfl, rfl, rfl⟩
    rw [frames]
    rfl

theorem pushes_stay {α : Type} (value : LVVM → α → LVObject) (args : List α) (v : LVVM)
    (top : v.stackbase ≤ v.top) :
    Stays v (args.foldl (fun v x => v.push (value v x)) v) := by
  induction args generalizing v with
  | nil => exact .refl v
  | cons x args ih =>
    have pushed : Stays v (v.push (value v x)) :=
      (v.stays_setSlot top _).trans (.of_frames rfl rfl rfl rfl rfl)
    refine pushed.trans (ih (v.push (value v x)) ?_)
    simp only [push, setSlot_stackbase]
    omega

theorem pushTrapOp_seated (seated : v.Seated) (top : v.stackbase ≤ v.top)
    (run : v.pushTrapOp i = some v') : v'.Seated := by
  unfold pushTrapOp at run
  split at run
  · cases run
  · rename_i ci rest frames
    cases run
    unfold Seated at seated ⊢
    simp only [addEtraps, frames, List.modifyHead_cons] at seated ⊢
    obtain ⟨own, ts, eq, seat, below⟩ := seated.cons_inv
    rw [eq, ← List.cons_append]
    refine .cons ⟨seat.prevstkbase, seat.prevtop, ⟨?_, ?_⟩, ?_, seat.generator⟩ below
    · rw [List.length_cons, Nat.cast_succ, seat.traps.length]
    · exact List.forall_mem_cons.mpr ⟨rfl, seat.traps.base⟩
    · exact List.forall_mem_cons.mpr ⟨⟨Int.natCast_nonneg _, top⟩, seat.above⟩

/-- The traps that are taken are those of the running frame. -/
theorem popTrapOp_seated (seated : v.Seated) (balanced : i.arg0 ≤ v.frameTraps) :
    (v.popTrapOp i).Seated := by
  unfold Seated at seated ⊢
  cases frames : v.callsstack with
  | nil =>
    rw [frames] at seated
    simp only [popTrapOp, addEtraps, frames, List.modifyHead_nil]
    exact .nil seated.base_nonneg
  | cons ci rest =>
    rw [frames] at seated
    obtain ⟨own, ts, eq, seat, below⟩ := seated.cons_inv
    simp only [frameTraps, frames, List.head?_cons, Option.map_some, Option.getD_some] at balanced
    have length := seat.traps.length
    simp only [popTrapOp, addEtraps, frames, List.modifyHead_cons, eq]
    rw [List.drop_append_of_le_length (by omega)]
    refine .cons ⟨seat.prevstkbase, seat.prevtop, ⟨?_, fun t mem => ?_⟩, fun t mem => ?_,
      seat.generator⟩ below
    · rw [List.length_drop]
      simp only
      omega
    · exact seat.traps.base t (List.mem_of_mem_drop mem)
    · exact seat.above t (List.mem_of_mem_drop mem)

/-! ## Instructions that store in other slots -/

theorem setOuterValue_seated {a : Nat} {o : LVObject} (seated : v.Seated)
    (spares : ∀ slot, v.outerSlot a = some slot →
      Spares v.stack v.stacksize slot o v.stackbase v.callsstack) :
    (v.setOuterValue a o).Seated := by
  unfold setOuterValue
  split
  · rename_i slot isOpen
    exact seated.setSlot (spares slot isOpen)
  · exact seated

theorem setOuterOp_seated (seated : v.Seated) (op : i.op = .OP_SETOUTER)
    (spares : v.SparesGenerators i) (run : v.setOuterOp i = some v') : v'.Seated := by
  simp only [setOuterOp, Option.bind_eq_bind, Option.bind_eq_some_iff, Option.pure_def,
    Option.some.injEq] at run
  obtain ⟨a, current, rfl⟩ := run
  have set := setOuterValue_seated (o := v.register i.arg2) seated fun slot isOpen =>
    spares.stores slot _ (.outer op current isOpen)
  split
  · exact set.stays (stays_setSlot _ (by omega) _)
  · exact set

theorem returnOp_seated {r : Ran} (seated : v.Seated) (op : i.op = .OP_RETURN)
    (none : v.frameTraps = 0) (spares : v.SparesGenerators i) (run : v.returnOp i = some r) :
    r.vm.Seated := by
  unfold returnOp at run
  split at run
  · cases run
  · rename_i ci rest frames
    simp only [Option.bind_eq_bind, Option.bind_eq_some_iff, Option.pure_def,
      Option.some.injEq] at run
    obtain ⟨v₁, ret, rfl⟩ := run
    simp only [frameTraps, frames, List.head?_cons, Option.map_some, Option.getD_some] at none
    unfold Seated at seated
    rw [frames] at seated
    obtain ⟨own, ts, eq, seat, below⟩ := seated.cons_inv
    obtain rfl : own = [] := List.eq_nil_of_length_eq_zero (by have := seat.traps.length; omega)
    obtain ⟨stack, size⟩ := v.killGenerator_stack ci
    have killed := v.killGenerator_bookkeeping ci
    simp only [bookkeeping, Bookkeeping.mk.injEq] at killed
    obtain ⟨callsstack, stackbase, -, etraps⟩ := killed
    rw [List.nil_append] at eq
    have back : v₁.Seated := by
      refine return_seated (callsstack.trans frames) seat.prevtop ?_ (fun notRoot target => ?_) ret
      · rwa [stack, size, stackbase, etraps, eq]
      · have result := spares.result op ci rest frames notRoot target
        rwa [resultValue, stack, size, stackbase]
    split <;> exact back

/-- The result of a generator goes to a register of the frame that has resumed it. -/
theorem yieldReturn_seated {r : Ran} (seated : v.Seated) (run : v.yieldReturn i = some r) :
    r.vm.Seated := by
  simp only [yieldReturn, Option.bind_eq_bind, Option.bind_eq_some_iff, Option.pure_def,
    Option.some.injEq] at run
  obtain ⟨v₁, yield, v₂, ret, rfl⟩ := run
  unfold yieldOp at yield
  split at yield
  · cases yield
  · rename_i ci rest frames
    simp only [Option.bind_eq_bind, Option.bind_eq_some_iff, Option.pure_def,
      Option.some.injEq] at yield
    obtain ⟨a, generator, g, -, yielded, yield, eq⟩ := yield
    unfold Seated at seated
    rw [frames] at seated
    obtain ⟨own, ts, traps, seat, below⟩ := seated.cons_inv
    have length := seat.traps.length
    have prevstkbase := seat.prevstkbase
    have saved := yield_bookkeeping frames yield
    obtain ⟨size, -, stack⟩ := yield_stack yield
    have stored : v₁.bookkeeping = yielded.bookkeeping ∧ v₁.stacksize = yielded.stacksize ∧
        ∀ s, s < v.stackbase → v₁.stack s = v.stack s := by
      subst eq
      split
      · refine ⟨rfl, rfl, fun s lt => ?_⟩
        by_cases own : s = v.stackbase + i.arg1
        · rw [own, setSlot_stack_self, register]
        · rw [setSlot_stack_of_ne own, stack s lt]
      · exact ⟨rfl, rfl, stack⟩
    obtain ⟨book, size', stack'⟩ := stored
    rw [saved] at book
    simp only [bookkeeping, Bookkeeping.mk.injEq] at book
    obtain ⟨callsstack, stackbase, -, etraps⟩ := book
    have rested : Seats v₁.stack v₁.stacksize (v₁.stackbase - ci.prevstkbase) rest v₁.etraps := by
      rw [stackbase, etraps, traps, List.drop_left' (by omega)]
      exact below.congr rfl (by omega) fun s lt _ => stack' s (by omega)
    have back : v₂.Seated := by
      refine return_seated callsstack seat.prevtop rested (fun _ _ => ?_) ret
      have target := (seat.generator a generator).1
      exact rested.spares (by omega) _
    split <;> exact back

/-! ## Calls -/

theorem callConstructor_seated {inst constructor : LVObject} {object : Option HeapObject}
    {a : Awaiting} (seated : v.Seated) (top : v.stackbase ≤ v.top)
    (spares : ∀ k b, object = some (.closure k) → k.function.bgenerator = true → v.next ≤ b →
      (v.setSlot (v.stackbase + -1) (.ofAddress .OT_GENERATOR b)).Seated)
    (run : v.callConstructor i inst constructor object = some (a, v')) : v'.Seated := by
  have set := @stays_setSlot v (v.stackbase + i.arg2) (by omega) inst
  unfold callConstructor at run
  split at run
  · rename_i k
    simp only [Option.bind_eq_bind, Option.bind_eq_some_iff, Option.pure_def,
      Option.some.injEq, Prod.mk.injEq] at run
    obtain ⟨started, start, rfl, rfl⟩ := run
    have le : v.stackbase ≤ v.stackbase + i.arg2 := by omega
    by_cases generator : k.function.bgenerator = true
    · obtain ⟨b, new, stays⟩ :=
        startCall_generator (v := v.setSlot _ inst) generator le top start
      exact (spares k b rfl generator new).stays ((set.setSlot _ _).trans stays)
    · exact (seated.stays set).rises top (startCall_rises generator le start)
  · simp only [Option.bind_eq_bind, Option.bind_eq_some_iff, Option.pure_def,
      Option.some.injEq, Prod.mk.injEq] at run
    obtain ⟨entered, enter, rfl, rfl⟩ := run
    refine (seated.stays set).rises top (enterNative_rises ?_ enter)
    simp only [setSlot_stackbase]
    omega
  · simp only [Option.some.injEq, Prod.mk.injEq] at run
    obtain ⟨rfl, rfl⟩ := run
    exact seated

theorem callClass_seated {c : LVClass} {a : Awaiting} (seated : v.Seated)
    (top : v.stackbase ≤ v.top) (op : i.op = .OP_CALL ∨ i.op = .OP_TAILCALL)
    (found : v.lookup (v.register i.arg1) = some (.class c)) (spares : v.SparesGenerators i)
    (run : v.callClass i (v.register i.arg1) c = some (a, v')) : v'.Seated := by
  have instantiated : Stays v (v.instantiate i (v.register i.arg1) c).2 ∧
      (v.instantiate i (v.register i.arg1) c).2.top = v.top ∧
      (v.instantiate i (v.register i.arg1) c).2.next = v.next + 1 := by
    have created := v.stays_create .OT_INSTANCE (.instance (v.register i.arg1) c.call)
    simp only [instantiate, storeTarget]
    split
    · refine ⟨created.trans (stays_setSlot _ ?_ _), rfl, rfl⟩
      omega
    · exact ⟨created, rfl, rfl⟩
  obtain ⟨stays, sameTop, next⟩ := instantiated
  unfold callClass at run
  split at run
  · cases run
  · split at run
    · rename_i o is
      refine callConstructor_seated (seated.stays stays) ?_ (fun k b constructor generator new => ?_)
        run
      · rw [stays.stackbase, sameTop]
        exact top
      · rw [stays.stackbase]
        have stored := spares.stores _ _ (.constructor op found is constructor generator
          (a := b) (by omega))
        exact (seated.setSlot stored).stays (stays.setSlot _ _)
    · simp only [Option.some.injEq, Prod.mk.injEq] at run
      obtain ⟨rfl, rfl⟩ := run
      exact seated.stays stays

theorem callDelegate_seated (seated : v.Seated) (top : v.stackbase ≤ v.top) (clo : LVObject) :
    (v.callDelegate i clo).2.Seated := by
  have pushed : Stays v (v.push clo) :=
    (v.stays_setSlot top clo).trans (.of_frames rfl rfl rfl rfl rfl)
  have pushes := pushes_stay (fun v (n : Nat) => v.register (i.arg2 + n)) (List.range i.arg3)
    (v.push clo) (by simp only [push, setSlot_stackbase]; omega)
  exact seated.stays ((pushed.trans pushes).trans (.of_frames rfl rfl rfl rfl rfl))

theorem callOp_seated {a : Awaiting} (seated : v.Seated) (top : v.stackbase ≤ v.top)
    (op : i.op = .OP_CALL ∨ i.op = .OP_TAILCALL) (spares : v.SparesGenerators i)
    (run : v.callOp i = some (a, v')) : v'.Seated := by
  have le : v.stackbase ≤ v.stackbase + i.arg2 := by omega
  simp only [callOp] at run
  split at run
  · rename_i k found
    simp only [Option.bind_eq_bind, Option.bind_eq_some_iff, Option.pure_def,
      Option.some.injEq, Prod.mk.injEq] at run
    obtain ⟨started, start, rfl, rfl⟩ := run
    by_cases generator : k.function.bgenerator = true
    · obtain ⟨b, new, stays⟩ := startCall_generator generator le top start
      exact (seated.setSlot (spares.stores _ _ (.generator op found generator new))).stays stays
    · exact seated.rises top (startCall_rises generator le start)
  · simp only [Option.bind_eq_bind, Option.bind_eq_some_iff, Option.pure_def,
      Option.some.injEq, Prod.mk.injEq] at run
    obtain ⟨entered, enter, rfl, rfl⟩ := run
    exact seated.rises top (enterNative_rises le enter)
  · rename_i c found
    exact callClass_seated seated top op found spares run
  · cases run
    exact callDelegate_seated seated top _
  · cases run
    exact callDelegate_seated seated top _
  · cases run

theorem tailcallOp_seated {a : Awaiting} (seated : v.Seated) (top : v.stackbase ≤ v.top)
    (op : i.op = .OP_CALL ∨ i.op = .OP_TAILCALL) (spares : v.SparesGenerators i)
    (run : v.tailcallOp i = some (a, v')) : v'.Seated := by
  simp only [tailcallOp] at run
  split at run
  · rename_i k ci rest found frames
    split at run
    · exact callOp_seated seated top op spares run
    · rename_i script
      simp only [Option.map_eq_some_iff, Prod.mk.injEq] at run
      obtain ⟨started, start, rfl, rfl⟩ := run
      simp only [startCall, Option.bind_eq_bind, Option.bind_eq_some_iff] at start
      obtain ⟨entered, enter, start⟩ := start
      rw [if_neg script] at start
      cases start
      have moved : Stays v { v.closeOuters v.stackbase with
          stack := fun s => if v.stackbase ≤ s ∧ s < v.stackbase + i.arg3 then v.stack (s + i.arg2)
            else v.stack s } := by
        refine ⟨rfl, rfl, rfl, le_refl _, fun s lt _ => ?_⟩
        simp only
        rw [if_neg (by omega)]
      exact (seated.stays moved).stays (startFrame_stays (by exact frames) enter)
  · exact callOp_seated seated top op spares run

/-! ## Generators are resumed -/

/-- What the machine knows of the traps of its generators. -/
structure SavedTraps (v : LVVM) : Prop where
  counted : v.GeneratorTraps
  placed : v.EveryTrap fun t => t.stackbase = 0 ∧ t.Above

theorem generatorOf_refersTo {o : LVObject} {a : Nat} {g : LVGenerator}
    (of : v.generatorOf o = some (a, g)) : o.RefersTo a := by
  unfold generatorOf at of
  split at of
  · rename_i bits type raw
    simp only [Option.map_eq_some_iff, Prod.mk.injEq] at of
    obtain ⟨-, -, same, -⟩ := of
    exact ⟨type, bits, raw, same⟩
  · cases of

theorem IsRegister.kept {r : Int} {a : Nat} {g : LVGenerator} (seated : v.Seated)
    (size : v.top ≤ v.stacksize) (register : v.IsRegister r)
    (of : v.generatorOf (v.register r) = some (a, g)) : KeptBelow v.stack v.stacksize v.top a := by
  obtain ⟨nonneg, lt⟩ := register
  have base := Seats.base_nonneg seated
  exact ⟨v.stackbase + r, by omega, lt, by omega, generatorOf_refersTo of⟩

theorem resumed_seated {alive : LVObject → Bool} {a : Nat} {g : LVGenerator} {target : Int}
    (wf : v.WF) (seated : v.Seated) (top : v.stackbase ≤ v.top) (saved : v.SavedTraps)
    (found : v.generatorAt a = some g) (nonneg : 0 ≤ target)
    (kept : KeptBelow v.stack v.stacksize v.top a)
    (run : v.resume_ alive a g target = some v') : v'.Seated := by
  obtain ⟨suspended, ci, -, -, is, -, -⟩ := wf.resume_control (W := ∅) found run
  exact resume_seated wf seated top found is nonneg kept
    (saved.counted a g ci found suspended is).2 (saved.placed a g found) run

theorem resumeOp_seated {alive : LVObject → Bool} (wf : v.WF) (seated : v.Seated)
    (top : v.stackbase ≤ v.top) (size : v.top ≤ v.stacksize) (saved : v.SavedTraps)
    (register : v.IsRegister i.arg1) (run : v.resumeOp alive i = some v') : v'.Seated := by
  simp only [resumeOp, Option.bind_eq_bind, Option.bind_eq_some_iff] at run
  obtain ⟨⟨a, g⟩, of, run⟩ := run
  exact resumed_seated wf seated top saved (generatorOf_found of) (by omega)
    (register.kept seated size of) run

theorem foreachOp_seated {alive : LVObject → Bool} (wf : v.WF) (seated : v.Seated)
    (top : v.stackbase ≤ v.top) (size : v.top ≤ v.stacksize) (saved : v.SavedTraps)
    (register : v.IsRegister i.arg0 ∧ i.arg0 ≠ i.arg2 ∧ i.arg0 ≠ i.arg2 + 2)
    (run : v.foreachOp alive i = some v') : v'.Seated := by
  simp only [foreachOp, Option.bind_eq_bind, Option.bind_eq_some_iff] at run
  obtain ⟨⟨a, g⟩, of, run⟩ := run
  obtain ⟨register, ne, ne'⟩ := register
  split at run
  · cases run
    exact seated.stays (v.jump_stays _)
  · simp only [Option.pure_def, Option.some.injEq] at run
    subst run
    set idx : LVObject := _
    have first := @stays_setSlot v (v.stackbase + i.arg2) (by omega) idx
    have both := first.trans (@stays_setSlot _ (v.stackbase + (i.arg2 + 2))
      (by rw [first.stackbase]; omega) idx)
    set w := (v.setSlot (v.stackbase + i.arg2) idx).setSlot (v.stackbase + (i.arg2 + 2)) idx with eq
    have kept : KeptBelow w.stack w.stacksize w.top a := by
      have base := Seats.base_nonneg seated
      obtain ⟨nonneg, lt⟩ := register
      have topSame : w.top = v.top := rfl
      have sizeSame : w.stacksize = v.stacksize := rfl
      refine ⟨v.stackbase + i.arg0, by omega, by omega, by omega, ?_⟩
      rw [eq, setSlot_stack_of_ne (by omega), setSlot_stack_of_ne (by omega)]
      exact generatorOf_refersTo of
    cases resume : w.resume_ alive a g (i.arg2 + 1) with
    | none => exact (seated.stays both).rises top (w.rises_pushFrame top _)
    | some v₁ =>
      have wf' : w.WF := wf.of_eq rfl rfl rfl
      exact resumed_seated wf' (seated.stays both) top ⟨saved.counted, saved.placed⟩
        (generatorOf_found of) (by omega) kept resume
  · cases run

/-- Every instruction, in a frame whose top is where it should be. -/
theorem instruction_seated {alive : LVObject → Bool} {r : Ran} (wf : v.WF) (seated : v.Seated)
    (top : v.stackbase ≤ v.top) (size : v.top ≤ v.stacksize) (saved : v.SavedTraps)
    (balanced : (Event.instruction i v).Balanced) (registers : v.ResumesRegister i)
    (spares : v.SparesGenerators i) (run : v.instruction alive i = some r) : r.vm.Seated := by
  unfold instruction at run
  split at run
  case h_1 op =>
    obtain ⟨⟨w, v₁⟩, done, rfl⟩ := Option.map_eq_some_iff.mp run
    exact callOp_seated seated top (.inl op) spares done
  case h_2 op =>
    obtain ⟨⟨w, v₁⟩, done, rfl⟩ := Option.map_eq_some_iff.mp run
    exact tailcallOp_seated seated top (.inr op) spares done
  case h_3 op => exact returnOp_seated seated op (balanced.2.2 op) spares run
  case h_4 => exact yieldReturn_seated seated run
  case h_5 op =>
    obtain ⟨v₁, done, rfl⟩ := Option.map_eq_some_iff.mp run
    exact resumeOp_seated wf seated top size saved (registers.resume op) done
  case h_6 op =>
    obtain ⟨v₁, done, rfl⟩ := Option.map_eq_some_iff.mp run
    exact foreachOp_seated wf seated top size saved (registers.foreach op) done
  case h_7 =>
    obtain ⟨v₁, done, rfl⟩ := Option.map_eq_some_iff.mp run
    exact seated.stays (postForeachOp_stays done)
  case h_8 =>
    obtain ⟨v₁, done, rfl⟩ := Option.map_eq_some_iff.mp run
    exact pushTrapOp_seated seated top done
  case h_9 op =>
    cases run
    exact popTrapOp_seated seated (balanced.2.1 op)
  case h_10 =>
    simp only [Option.bind_eq_bind, Option.bind_eq_some_iff, Option.pure_def,
      Option.some.injEq] at run
    obtain ⟨k, -, func, -, v₁, done, rfl⟩ := run
    exact seated.stays (closureOp_stays done)
  case h_11 =>
    obtain ⟨v₁, done, rfl⟩ := Option.map_eq_some_iff.mp run
    exact seated.stays (getOuterOp_stays done)
  case h_12 op =>
    obtain ⟨v₁, done, rfl⟩ := Option.map_eq_some_iff.mp run
    exact setOuterOp_seated seated op spares done
  case h_13 =>
    cases run
    exact seated.stays (.of_frames rfl rfl rfl rfl rfl)
  case h_14 =>
    obtain ⟨v₁, done, rfl⟩ := Option.map_eq_some_iff.mp run
    exact seated.stays (registerOp_stays done)

/-! ## Exceptions -/

theorem catch_seated {error : LVObject} {last_top : Int} (seated : v.Seated)
    (frames : v.callsstack = ci :: rest) (positive : ci.etraps > 0)
    (run : v.catch_ error last_top = some v') : v'.Seated := by
  unfold Seated at seated
  rw [frames] at seated
  obtain ⟨own, ts, eq, seat, below⟩ := seated.cons_inv
  have length := seat.traps.length
  cases own with
  | nil =>
    simp only [List.length_nil, Nat.cast_zero] at length
    omega
  | cons t own =>
    obtain ⟨here, bases⟩ := List.forall_mem_cons.mp seat.traps.base
    obtain ⟨above, others⟩ := List.forall_mem_cons.mp seat.above
    simp only [catch_, eq, List.cons_append, Option.some.injEq] at run
    subst run
    have target := above.extarget
    have stacksize := above.stacksize
    rw [List.length_cons] at length
    have taken : Seats v.stack v.stacksize v.stackbase
        ({ ci with ip := t.ip, etraps := ci.etraps - 1 } :: rest) (own ++ ts) := by
      refine .cons ⟨seat.prevstkbase, seat.prevtop, ⟨?_, bases⟩, others, seat.generator⟩ below
      simp only
      omega
    unfold Seated
    simp only [nullSlots, setSlot, frames, List.modifyHead_cons, here]
    refine taken.congr rfl (le_refl _) fun s lt _ => ?_
    rw [if_neg (by omega), Function.update_of_ne (by omega)]

/-- A frame without traps is left. -/
theorem leave_seated (seated : v.Seated) (none : v.frameTraps ≤ 0)
    (leave : v.leaveFrame = some v') : v'.Seated := by
  cases frames : v.callsstack with
  | nil => simp [leaveFrame, frames] at leave
  | cons ci rest =>
    simp only [frameTraps, frames, List.head?_cons, Option.map_some, Option.getD_some] at none
    unfold Seated at seated
    rw [frames] at seated
    obtain ⟨own, ts, eq, seat, below⟩ := seated.cons_inv
    obtain rfl : own = [] := List.eq_nil_of_length_eq_zero (by have := seat.traps.length; omega)
    rw [List.nil_append] at eq
    exact leaveFrame_seated frames seat.prevtop (eq ▸ below) leave

theorem killGenerator_stays (v : LVVM) (ci : CallInfo) : Stays v (v.killGenerator ci) := by
  obtain ⟨stack, size⟩ := v.killGenerator_stack ci
  have killed := v.killGenerator_bookkeeping ci
  simp only [bookkeeping, Bookkeeping.mk.injEq] at killed
  exact .of_frames (by rw [killed.1]) killed.2.1 killed.2.2.2 size stack

theorem unwind_seated {error : LVObject} {last_top : Int} {frames : List CallInfo} {caught : Bool}
    (seated : v.Seated) (eq : v.callsstack = frames)
    (run : unwind error last_top frames v = some (caught, v')) : v'.Seated := by
  induction frames generalizing v with
  | nil =>
    cases run
    exact seated
  | cons ci rest ih =>
    simp only [unwind] at run
    split at run
    · rename_i positive
      simp only [Option.map_eq_some_iff, Prod.mk.injEq] at run
      obtain ⟨v₁, taken, -, rfl⟩ := run
      exact catch_seated seated eq positive taken
    · rename_i none
      simp only [Option.bind_eq_bind, Option.bind_eq_some_iff] at run
      obtain ⟨v₁, leave, run⟩ := run
      have killed := v.killGenerator_bookkeeping ci
      simp only [bookkeeping, Bookkeeping.mk.injEq] at killed
      have frames := killed.1.trans eq
      have left : v₁.Seated := by
        refine leave_seated (seated.stays (v.killGenerator_stays ci)) ?_ leave
        simp only [frameTraps, frames, List.head?_cons, Option.map_some, Option.getD_some]
        omega
      split at run
      · cases run
        exact left
      · have tail := leaveFrame_bookkeeping frames leave
        exact ih left (congrArg Bookkeeping.callsstack tail) run

/-! ## Calls by C++ code -/

theorem countCall_seated (seated : v.Seated) (n : Int) : (v.countCall n).Seated :=
  seated.stays (.of_frames rfl rfl rfl rfl rfl)

theorem setRoot_seated (seated : v.Seated) : v.setRoot.Seated :=
  seated.stays (.of_frames (map_seat_modifyHead (f := fun ci => { ci with root := true })
    (fun _ => rfl) _) rfl rfl rfl rfl)

theorem executeCall_seated {clo : LVObject} {k : LVClosure} {nargs : Nat} {stackbase : Int}
    {moved : Bool} {traps : Int} (seated : v.Seated) (top : v.stackbase ≤ v.top)
    (own : v.stackbase ≤ stackbase) (unmixed : (Event.call k moved).Unmixed)
    (entry : v.executeCall clo k nargs stackbase moved = .loop v' traps) : v'.Seated := by
  simp only [executeCall] at entry
  split at entry
  · cases entry
  · split at entry
    · cases entry
    · rename_i w start
      split at entry
      · cases entry
      · rename_i notDone
        split at entry
        · cases entry
        · cases entry
          have script : ¬ k.function.bgenerator = true := fun generator =>
            notDone ⟨generator, fun h => by
              rw [unmixed generator] at h
              exact absurd h.2 Bool.false_ne_true⟩
          exact setRoot_seated (seated.rises top (startCall_rises script own start))

theorem executeCall_done_seated {clo o : LVObject} {k : LVClosure} {nargs : Nat} {moved : Bool}
    (seated : v.Seated) (top : v.stackbase ≤ v.top) (own : v.stackbase ≤ v.top - nargs)
    (entry : v.executeCall clo k nargs (v.top - nargs) moved = .done o v') : v'.Seated := by
  have base := Seats.base_nonneg seated
  simp only [executeCall] at entry
  split at entry
  · cases entry
  · split at entry
    · cases entry
    · rename_i w start
      split at entry
      · rename_i done
        cases entry
        obtain ⟨a, -, stays⟩ := startCall_generator done.1 own top start
        exact (seated.setSlot (Seats.spares seated (by omega) _)).stays stays
      · split at entry <;> cases entry

/-- `lv_resume` of the generator on top of the stack. -/
theorem executeResume_seated {alive : LVObject → Bool} {a : Nat} {g : LVGenerator} {traps : Int}
    (wf : v.WF) (seated : v.Seated) (top : v.stackbase < v.top) (size : v.top ≤ v.stacksize)
    (saved : v.SavedTraps) (of : v.generatorOf (v.stack (v.top - 1)) = some (a, g))
    (suspended : g.state = .eSuspended)
    (entry : v.executeResume alive a g = .loop v' traps) : v'.Seated := by
  have base := Seats.base_nonneg seated
  have pushed : Stays v (v.push .null) :=
    (v.stays_setSlot top.le .null).trans (.of_frames rfl rfl rfl rfl rfl)
  have pushedTop : (v.push .null).stackbase ≤ (v.push .null).top := by
    simp only [push, setSlot_stackbase]
    omega
  have kept : KeptBelow (v.push .null).stack (v.push .null).stacksize (v.push .null).top a := by
    refine ⟨v.top - 1, by omega, ?_, ?_, ?_⟩
    · simp only [push]
      omega
    · change v.top - 1 < v.stacksize
      omega
    · change ((v.setSlot v.top .null).stack (v.top - 1)).RefersTo a
      rw [setSlot_stack_of_ne (by omega)]
      exact generatorOf_refersTo of
  have nonneg : 0 ≤ (v.push .null).top - 1 - (v.push .null).stackbase := by
    simp only [push, setSlot_stackbase]
    omega
  have resumed : ∀ w, (v.push .null).resume_ alive a g
      ((v.push .null).top - 1 - (v.push .null).stackbase) = some w → w.Seated := fun w resume =>
    resumed_seated (v := v.push .null) (wf.of_eq rfl rfl rfl) (seated.stays pushed) pushedTop
      ⟨saved.counted, saved.placed⟩ (generatorOf_found of) nonneg kept resume
  simp only [executeResume] at entry
  split at entry
  · cases entry
  · split at entry
    · rename_i w resume
      split at entry
      · cases entry
      · cases entry
        exact setRoot_seated (resumed w resume)
    · split at entry
      · cases entry
      · cases entry
        exact setRoot_seated
          ((seated.stays pushed).rises pushedTop (rises_pushFrame _ pushedTop _))

/-- `Interrupted`, where the top has not come below the frame that enters another one. -/
inductive Faults (Program : FunctionPrototype → Prop) : LVVM → LVVM → Prop
  | local {v v' : LVVM} (h : Local Program v v') : Faults Program v v'
  | close {v v' : LVVM} (h : Faults Program (v.closeOuters v.stackbase) v') : Faults Program v v'
  | enter {v v' : LVVM} {newbase newtop : Int} (le : v.stackbase ≤ newbase)
      (h : Local Program v v') (top : v'.stackbase ≤ v'.top) :
      Faults Program v (v'.pushFrame newbase newtop)

variable {Program : FunctionPrototype → Prop}

theorem Local.stays (effect : Local Program v v') : Stays v v' := by
  obtain ⟨ip, frames⟩ := effect.callsstack
  refine ⟨?_, effect.stackbase, effect.etraps, effect.stacksize, fun s lt _ => effect.below s lt⟩
  rw [frames]
  exact map_seat_modifyHead (f := fun ci => { ci with ip := ip }) (fun _ => rfl) _

theorem Faults.seated (seated : v.Seated) (faults : Faults Program v v') : v'.Seated := by
  induction faults with
  | «local» h => exact seated.stays h.stays
  | close h ih => exact ih (seated.stays (.of_frames rfl rfl rfl rfl rfl))
  | enter le h top =>
    exact (seated.stays h.stays).rises top (rises_pushFrame _ (h.stackbase ▸ le) _)

end LVVM

end Lavril
