import Lavril.Suspension

/-!
# Captured variables when their frame stops running

`YIELD` takes the registers of its frame away before the open outers are closed,
and a trap takes the frame back to the start of its `try` block without closing
any.
-/

namespace Lavril

namespace LVVM

variable {v v' : LVVM} {i : LVInstruction}

/-- The frame that is left has its outers closed on what its slots hold. -/
theorem WF.leaveFrame_closes {b : Nat} {s : Int} (wf : v.WF) (isOpen : (b, s) ∈ v.openouters)
    (own : v.stackbase ≤ s) (run : v.leaveFrame = some v') :
    v'.heap b = some (.outer (some (v.stack s))) := by
  unfold leaveFrame at run
  split at run
  · cases run
  · cases run
    exact wf.closeOuters_mem isOpen own

theorem WF.return_closes {b : Nat} {s : Int} {ci : CallInfo} {rest : List CallInfo} {arg0 : Nat}
    {arg1 : Int} (wf : v.WF) (frames : v.callsstack = ci :: rest)
    (target : ci.target < ci.prevstkbase) (isOpen : (b, s) ∈ v.openouters)
    (own : v.stackbase ≤ s) (run : v.return_ arg0 arg1 = some v') :
    v'.heap b = some (.outer (some (v.stack s))) := by
  simp only [return_, frames] at run
  split at run
  · exact wf.leaveFrame_closes isOpen own run
  · have stored : Calm ∅ v _ := wf.calm_setSlot
      (v.stackbase - ci.prevstkbase + ci.target) (v.resultValue arg0 arg1)
    rw [stored.wf.leaveFrame_closes isOpen own run, setSlot_stack_of_ne (by omega)]

/-- `YIELD` clears the registers of its frame, apart from the one it yields, and
closes the outers afterwards. -/
theorem WF.yieldReturn_closes {b : Nat} {s : Int} {ci : CallInfo} {rest : List CallInfo} {r : Ran}
    (wf : v.WF) (frames : v.callsstack = ci :: rest) (target : ci.target < ci.prevstkbase)
    (isOpen : (b, s) ∈ v.openouters) (own : v.stackbase ≤ s) (register : s < v.top)
    (run : v.yieldReturn i = some r) : r.vm.heap b = some (.outer (some
      (if i.arg1 ≠ 0xFF ∧ s = v.stackbase + i.arg1 then v.stack s else .null))) := by
  simp only [LVVM.yieldReturn, Option.bind_eq_bind, Option.bind_eq_some_iff, Option.pure_def,
    Option.some.injEq] at run
  obtain ⟨v₁, yield, v₂, ret, ran⟩ := run
  have vm : r.vm = v₂ := by
    rw [← ran]
    split <;> rfl
  rw [vm]
  simp only [yieldOp, frames, Option.bind_eq_bind, Option.bind_eq_some_iff, Option.pure_def,
    Option.some.injEq] at yield
  obtain ⟨a, -, g, found, yielded, yield, rfl⟩ := yield
  obtain ⟨_, _, -, -, -, -, changed, -⟩ := wf.yield_control (W := ∅) found yield
  obtain ⟨ci', rest', frames', running, rfl⟩ := yield_eq yield
  have nulled : (v.nullSlots v.stackbase v.top).stack s = .null := by
    simp only [nullSlots]
    exact if_pos ⟨own, register⟩
  split at ret
  · rename_i yields
    have stored : Calm ∅ _ _ := changed.wf.calm_setSlot (v.stackbase + i.arg1) (v.register i.arg1)
    rw [stored.wf.return_closes frames target isOpen own ret]
    by_cases eq : s = v.stackbase + i.arg1
    · rw [if_pos ⟨yields, eq⟩, eq, setSlot_stack_self, LVVM.register]
    · rw [if_neg fun h => eq h.2, setSlot_stack_of_ne eq, nulled]
  · rename_i yieldsNothing
    rw [changed.wf.return_closes frames target isOpen own ret, if_neg fun h => yieldsNothing h.1,
      nulled]

theorem outerValue_closed {b : Nat} {o : LVObject} (closed : v.heap b = some (.outer (some o))) :
    v.outerValue b = some o := by simp [outerValue, closed]

end LVVM

namespace Exec

open LVVM

variable {alive : LVVM → LVObject → Bool} {Program : FunctionPrototype → Prop} {e e₁ : Exec}
  {v : LVVM} {i : LVInstruction}

/-- A variable of a generator that a closure has captured keeps its value after
a `YIELD` exactly when its register is the one that is yielded or holds null. -/
theorem yield_captured_iff {b : Nat} {s : Int} {ci : CallInfo} {rest : List CallInfo}
    (wf : e.vm.WF) (step : Step alive Program (.instruction i v) e e₁) (op : i.op = .OP_YIELD)
    (frames : v.callsstack = ci :: rest) (target : ci.target < ci.prevstkbase)
    (isOpen : (b, s) ∈ v.openouters) (own : v.stackbase ≤ s) (register : s < v.top) :
    (∀ e', Runs alive Program (fun _ ev => b ∉ ev.writes) e₁ e' →
      e'.vm.outerValue b = some (v.stack s)) ↔
    (i.arg1 ≠ 0xFF ∧ s = v.stackbase + i.arg1) ∨ v.stack s = .null := by
  have wf₁ := (step.moves wf).wf wf
  have closed : e₁.vm.heap b = some (.outer (some
      (if i.arg1 ≠ 0xFF ∧ s = v.stackbase + i.arg1 then v.stack s else .null))) := by
    cases step with
    | @instruction _ act cs i v r controls fetch run =>
      obtain ⟨calm, -⟩ := wf.fetch (W := ∅) fetch
      have run : v.yieldReturn i = some r := by simpa only [LVVM.instruction, op] using run
      have heap := calm.wf.yieldReturn_closes frames target isOpen own register run
      cases r <;> exact heap
  constructor
  · intro keeps
    have now := keeps e₁ .refl
    rw [outerValue_closed closed, Option.some.injEq] at now
    split at now
    · exact .inl ‹_›
    · exact .inr now.symm
  · intro condition e' runs
    have kept := runs.keeps_closed wf₁ closed fun _ _ => id
    rw [outerValue_closed kept, Option.some.injEq]
    split
    · rfl
    · exact (condition.resolve_left ‹_›).symm

/-- A generator function of three registers that does `i` first. -/
def generatorFunction (i : LVInstruction) : LVClosure where
  function := ⟨3, true, false, [i], [], [], ["this"], [], [], []⟩
  this := Nat.zero_lt_one
  env := none
  outervalues := []
  defaultparams := []

/-- A generator with the variable `x = 1`, which a closure in register 2 has
captured, at `yield` of that closure. -/
def yieldsClosure : Exec where
  vm := {
    stack s := if s = 11 then .integer 1 else if s = 12 then .ofAddress .OT_CLOSURE 3 else .null
    stacksize := 100, stackbase := 10, top := 13
    callsstack :=
      [⟨.ofAddress .OT_CLOSURE 0, [], 0, some 1, 0, 10, 10, 1, 1, false⟩,
       ⟨.null, [], 0, none, 0, 0, 0, 0, 1, true⟩]
    alloccallsstacksize := 4, nmetamethodscall := 0, nnativecalls := 1, etraps := []
    openouters := [(2, 11)]
    heap address :=
      match address with
      | 0 => some (.closure (generatorFunction (LVInstruction.mk .OP_YIELD 1 2 3 0)))
      | 1 => some (.generator ⟨.ofAddress .OT_CLOSURE 0, .eRunning, [.null, .null, .null], false, none, []⟩)
      | 2 => some (.outer none)
      | 3 => some (.closure (generatorFunction (LVInstruction.mk .OP_GETOUTER 1 0 0 0)))
      | _ => none
    next := 4 }
  controls := [.execute ⟨0, 0, []⟩, .host]
  suspended := none
  resumers _ := none

theorem yieldsClosure_wf : yieldsClosure.vm.WF where
  fresh a le := by
    match a, le with
    | a + 4, _ => rfl
  outers o mem := by
    simp only [yieldsClosure, List.mem_singleton] at mem
    subst mem
    rfl
  sorted := by simp [yieldsClosure]
  nodup := by simp [yieldsClosure]

theorem yield_captured_yieldsClosure : ∃ v i e₁,
    Step (fun _ _ => true) (fun _ => True) (.instruction i v) yieldsClosure e₁ ∧
    ¬ ∀ e', Runs (fun _ _ => true) (fun _ => True) (fun _ ev => 2 ∉ ev.writes) e₁ e' →
      e'.vm.outerValue 2 = some (.integer 1) := by
  have step := @Step.instruction (fun _ _ => true) (fun _ => True) yieldsClosure _ _ _ _ _ rfl rfl rfl
  refine ⟨_, _, _, step, fun keeps => ?_⟩
  rcases (yield_captured_iff yieldsClosure_wf step rfl rfl (by decide) (.head _) (by decide)
    (by decide)).mp keeps with ⟨-, eq⟩ | null
  · exact absurd eq (by decide)
  · exact absurd null (by decide)

/-- Its captured variable is null from then on. -/
theorem yield_nulls_captured : ∃ v i e₁, yieldsClosure.vm.WF ∧
    Step (fun _ _ => true) (fun _ => True) (.instruction i v) yieldsClosure e₁ ∧
    i.op = .OP_YIELD ∧ (2, 11) ∈ v.openouters ∧ v.stack 11 = .integer 1 ∧
    e₁.vm.outerValue 2 = some .null :=
  ⟨_, _, _, yieldsClosure_wf, .instruction rfl rfl rfl, rfl, .head _, rfl, rfl⟩

end Exec

namespace LVVM

variable {v v' : LVVM} {error : LVObject} {last_top : Int}

/-- The bases of the frames above the one that takes the exception. -/
def unwoundBases : Int → List CallInfo → List Int
  | _, [] => []
  | stackbase, ci :: rest =>
    if ci.etraps > 0 then [] else stackbase :: unwoundBases (stackbase - ci.prevstkbase) rest

/-- The slot the exception goes to: the first one of the handler, and of the
`try` block before. -/
def handlerBase (v : LVVM) : Int := (v.etraps.head?.map fun et => et.stackbase + et.extarget).getD 0

/-- A variable of the frame with the trap that is declared in the `try` block. -/
structure InTryBlock (v : LVVM) (s : Int) : Prop where
  frame : ∀ b ∈ unwoundBases v.stackbase v.callsstack, s < b
  block : v.handlerBase ≤ s

theorem killGenerator_outers (v : LVVM) (ci : CallInfo) :
    (v.killGenerator ci).openouters = v.openouters ∧ (v.killGenerator ci).stackbase = v.stackbase ∧
      (v.killGenerator ci).etraps = v.etraps ∧ (v.killGenerator ci).callsstack = v.callsstack := by
  unfold killGenerator
  split
  · exact ⟨rfl, rfl, rfl, rfl⟩
  · split <;> exact ⟨rfl, rfl, rfl, rfl⟩

/-- When the frame with the trap goes on, its own outers and those below are
still open. -/
theorem WF.unwind_outers {frames : List CallInfo} (wf : v.WF) (eq : v.callsstack = frames)
    (caught : unwind error last_top frames v = some (true, v')) (o : Nat × Int) :
    o ∈ v'.openouters ↔
      o ∈ v.openouters ∧ ∀ b ∈ unwoundBases v.stackbase frames, o.2 < b := by
  induction frames generalizing v with
  | nil => cases caught
  | cons ci rest ih =>
    simp only [unwind] at caught
    simp only [unwoundBases]
    split at caught
    · rename_i trap
      simp only [Option.map_eq_some_iff, Prod.mk.injEq, true_and] at caught
      obtain ⟨v₁, catch_, rfl⟩ := caught
      have same : v₁.openouters = v.openouters := by
        unfold LVVM.catch_ at catch_
        split at catch_
        · cases catch_
        · cases catch_
          rfl
      simp [same, trap]
    · rename_i noTrap
      simp only [Option.bind_eq_bind, Option.bind_eq_some_iff] at caught
      obtain ⟨v₁, leave, caught⟩ := caught
      rw [if_neg noTrap]
      have left : Left ∅ ci v v₁ := wf.unwind_left eq leave
      split at caught
      · cases caught
      · have tail := (List.cons.inj (left.callsstack.symm.trans eq)).2
        obtain ⟨outers, base, -, calls⟩ := killGenerator_outers v ci
        simp only [LVVM.leaveFrame, calls, eq, Option.some.injEq] at leave
        have closed : v₁.openouters = (v.closeOuters v.stackbase).openouters := by
          rw [← leave]
          simp only [LVVM.closeOuters, nullSlots, outers, base]
        have below : v₁.stackbase = v.stackbase - ci.prevstkbase := by
          rw [← leave]
          simp only [base]
        rw [ih left.wf tail caught, closed, below, wf.mem_closeOuters]
        simp only [List.mem_cons, forall_eq_or_imp, and_assoc]

/-- When an exception is caught, the captured variables of the `try` block keep
their values, and no open outer refers to a register of the handler, exactly
when no variable of the block has been captured. -/
theorem caught_captured_iff (wf : v.WF)
    (caught : unwind error last_top v.callsstack v = some (true, v')) :
    ((∀ o ∈ v.openouters, InTryBlock v o.2 → v'.outerValue o.1 = some (v.stack o.2)) ∧
      ∀ o ∈ v'.openouters, o.2 < v.handlerBase) ↔
    ∀ o ∈ v.openouters, ¬ InTryBlock v o.2 := by
  constructor
  · rintro ⟨-, apart⟩ o isOpen block
    have below := apart o ((wf.unwind_outers rfl caught o).mpr ⟨isOpen, block.frame⟩)
    have := block.block
    omega
  · intro none
    refine ⟨fun o isOpen block => absurd block (none o isOpen), fun o isOpen => ?_⟩
    obtain ⟨isOpen, frame⟩ := (wf.unwind_outers rfl caught o).mp isOpen
    by_contra above
    exact none o isOpen ⟨frame, by omega⟩

/-- `try { var x = 1; f = function () { return x; }; throw 2; } catch (e) { }`,
where the exception is raised. -/
def throwsInTry : LVVM where
  stack s := if s = 1 then .integer 1 else .null
  stacksize := 100
  stackbase := 0
  top := 3
  callsstack := [⟨.ofAddress .OT_CLOSURE 0, [], 5, none, 1, 0, 0, 0, 1, true⟩]
  alloccallsstacksize := 4
  nmetamethodscall := 0
  nnativecalls := 1
  etraps := [⟨0, 3, 8, 1⟩]
  openouters := [(2, 1)]
  heap address := if address = 2 then some (.outer none) else none
  next := 3

theorem throwsInTry_wf : throwsInTry.WF where
  fresh a le := if_neg (by simp only [throwsInTry] at le; omega)
  outers o mem := by
    simp only [throwsInTry, List.mem_singleton] at mem
    subst mem
    rfl
  sorted := by simp [throwsInTry]
  nodup := by simp [throwsInTry]

theorem throwsInTry_block : InTryBlock throwsInTry 1 where
  frame := by simp [throwsInTry, unwoundBases]
  block := by decide

theorem caught_captured_throwsInTry : ∃ v',
    unwind (.integer 2) throwsInTry.top throwsInTry.callsstack throwsInTry = some (true, v') ∧
    ¬ ((∀ o ∈ throwsInTry.openouters, InTryBlock throwsInTry o.2 →
        v'.outerValue o.1 = some (throwsInTry.stack o.2)) ∧
      ∀ o ∈ v'.openouters, o.2 < throwsInTry.handlerBase) := by
  refine ⟨_, rfl, fun keeps => ?_⟩
  exact (caught_captured_iff throwsInTry_wf rfl).mp keeps (2, 1) (.head _) throwsInTry_block

/-- The handler finds the exception in the register of `x`, and so does the closure. -/
theorem caught_overwrites_captured : ∃ v',
    unwind (.integer 2) throwsInTry.top throwsInTry.callsstack throwsInTry = some (true, v') ∧
    throwsInTry.WF ∧ InTryBlock throwsInTry 1 ∧ throwsInTry.outerValue 2 = some (.integer 1) ∧
    v'.outerValue 2 = some (.integer 2) :=
  ⟨_, rfl, throwsInTry_wf, throwsInTry_block, rfl, rfl⟩

end LVVM

end Lavril
