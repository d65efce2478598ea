import Lavril.Guards
import Lavril.Parameters
import Lavril.Potential
import Lavril.Unwinding

/-!
# The failures that are dropped

`MOD` does not look at what `ARITH_OP` answers, and a loop over a generator not at what
`Resume` does. Every other failure reaches `exception_trap`, which hands the error to the
innermost handler of this run of `Execute`, if there is one.
-/

namespace Lavril

namespace Interpret

variable {Heap α : Type} {W : Objects Heap} {rest : Rest Heap} {fuel : Nat} {i : LVInstruction}
  {s s' : Loop Heap}

/-- `EXISTS` asks with errors off: whatever the answer, nothing is raised. -/
theorem quiet_get {vm vm' : MetaVM Heap} {self key : LVObject} {result : Option LVObject}
    (ran : ObjectM.Get W fuel self key true true false vm = some (result, vm')) : vm' = vm := by
  cases fuel with
  | zero => cases ran
  | succ fuel =>
    rw [ObjectM.Get] at ran
    obtain ⟨_, _, got, ran⟩ := Potential.run_bind.mp ran
    cases got
    cases own : ObjectM.own W vm.objects self key <;> simp only [own] at ran <;> cases ran <;> rfl

/-! ## The remainder -/

/-- The machine when a metamethod of two operands is called. -/
def withOperands (vm : MetaVM Heap) (o1 o2 : LVObject) : MetaVM Heap :=
  { vm with toLVVM := { (vm.push o1).push o2 with nmetamethodscall := vm.nmetamethodscall + 1 } }

/-- The operands have no remainder: the divisor is zero, or they are not both numbers and
there is no `_modulo` for them or its call fails. -/
def ModuloRefused (W : Objects Heap) (vm : MetaVM Heap) (o1 o2 : LVObject) : Prop :=
  if o1.type = .OT_INTEGER ∧ o2.type = .OT_INTEGER then o2.bits = 0
  else if o1.type.isnumeric ∧ o2.type.isnumeric then False
  else ∀ closure, ObjectM.delegableMetaMethod W vm.objects o1 .MT_MODULO = some closure →
    (W.call closure 2 ((withOperands vm o1 o2).top - 2) (withOperands vm o1 o2)).1 = none

theorem arithInteger_mod (i1 i2 : BitVec 64) :
    (∃ text, ObjectM.arithInteger '%' i1 i2 = .error text) ↔ i2 = 0 := by
  simp only [ObjectM.arithInteger]
  split_ifs with zero
  · simp [zero]
  · simpa using zero
  · simpa using zero

theorem modulo_refused_iff {vm vm' : MetaVM Heap} {o1 o2 : LVObject} {result : Option LVObject}
    (ran : ObjectM.ARITH_OP W fuel '%' o1 o2 vm = some (result, vm')) :
    result = none ↔ ModuloRefused W vm o1 o2 := by
  unfold ObjectM.ARITH_OP at ran
  unfold ModuloRefused
  by_cases ints : o1.type = .OT_INTEGER ∧ o2.type = .OT_INTEGER
  · rw [if_pos ints] at ran ⊢
    rw [← arithInteger_mod o1.bits]
    cases same : ObjectM.arithInteger '%' o1.bits o2.bits with
    | ok res =>
      simp only [same] at ran
      cases ran
      simp
    | error text =>
      simp only [same] at ran
      cases ran
      simp
  · rw [if_neg ints] at ran ⊢
    by_cases numbers : o1.type.isnumeric ∧ o2.type.isnumeric
    · rw [if_pos numbers] at ran ⊢
      cases ran
      simp
    · rw [if_neg numbers, if_neg (by simp)] at ran
      rw [if_neg numbers]
      obtain ⟨vm₁, vm₁', got, ran⟩ := Potential.run_bind.mp ran
      cases got
      cases found : ObjectM.delegableMetaMethod W vm.objects o1 .MT_MODULO with
      | none =>
        simp only [ObjectM.arithMethod, found] at ran
        cases ran
        simp
      | some closure =>
        simp only [ObjectM.arithMethod, found] at ran
        cases ran
        simp only [Option.some.injEq, forall_eq']
        exact Iff.rfl

theorem report_some {op : ObjectM Heap (Option α)} {r : Except Exit (Option α)}
    (ran : report op s = some (r, s')) :
    ∃ result vm, op s.toMetaVM = some (result, vm) ∧ r = .ok result ∧
      s' = { s with toMetaVM := vm, failed := s.failed || result.isNone } := by
  rw [report] at ran
  split at ran
  · cases ran
  · rename_i result vm done
    cases ran
    exact ⟨result, vm, done, rfl, rfl⟩

/-- `MOD` goes on whether there is a remainder or not. -/
theorem mod_goes_on {r : Except Exit Unit} (fine : s.failed = false)
    (ran : modInstruction W fuel i s = some (r, s')) :
    r = .ok () ∧ (s'.failed = true ↔
      ModuloRefused W s.toMetaVM (s.register i.arg2) (s.register i.arg1)) := by
  rcases bind_some ran with ⟨exit, exited, _⟩ | ⟨o1, s₁, first, ran⟩
  · cases exited
  cases first
  rcases bind_some ran with ⟨exit, exited, _⟩ | ⟨o2, s₂, second, ran⟩
  · cases exited
  cases second
  rcases bind_some ran with ⟨exit, exited, _⟩ | ⟨res, s₃, done, ran'⟩
  · obtain ⟨_, _, _, ok, _⟩ := report_some exited
    cases ok
  · obtain ⟨result, vm, arith, ok, rfl⟩ := report_some done
    cases ok
    rw [← modulo_refused_iff arith]
    cases res with
    | none =>
      cases ran'
      simp
    | some o =>
      cases ran'
      simp [fine, Loop.setVM]

/-! ## Resumption -/

/-- The frame of a generator does not fit in the stack, which cannot grow now. -/
def NoRoom (v : LVVM) (g : LVGenerator) : Prop :=
  v.nmetamethodscall ≠ 0 ∧ v.stacksize < v.top + g.stack.length + MIN_STACK_OVERHEAD

theorem resume_none_iff {v : LVVM} {alive : LVObject → Bool} {address : Nat} {g : LVGenerator}
    {saved : CallInfo} {target : Int} (suspended : g.state = .eSuspended)
    (frame : g.ci = some saved) :
    v.resume_ alive address g target = none ↔ NoRoom v g := by
  have room : v.enterFrame v.top (v.top + g.stack.length) false = none ↔ _ :=
    v.enterFrame_eq_none fun tail => by cases tail
  rw [NoRoom, and_comm, ← gt_iff_lt, ← room]
  simp only [LVVM.resume_, suspended, frame]
  cases v.enterFrame v.top (v.top + g.stack.length) false <;> simp

theorem suspended_refused_iff {vm vm' : MetaVM Heap} {address : Nat} {g : LVGenerator} {target : Int}
    {result : Option Unit} (suspended : g.state = .eSuspended)
    (ran : Resume rest address g target vm = some (result, vm')) :
    result = none ↔ NoRoom vm.toLVVM g := by
  rw [Resume] at ran
  cases frame : g.ci with
  | none =>
    simp only [suspended, frame] at ran
    cases ran
  | some saved =>
    have none_iff : vm.resume_ rest.alive address g target = none ↔ NoRoom vm.toLVVM g :=
      resume_none_iff suspended frame
    rw [← none_iff]
    simp only [suspended, frame] at ran
    obtain ⟨vm₁, _, got, ran⟩ := Potential.run_bind.mp ran
    cases got
    cases resumed : vm.resume_ rest.alive address g target with
    | none =>
      simp only [resumed] at ran
      cases ran
      simp
    | some v =>
      simp only [resumed] at ran
      cases ran
      simp

/-- The generator in the container of a loop, when the loop resumes it. -/
def suspendedIn (v : LVVM) (i : LVInstruction) : Option LVGenerator :=
  (v.generatorOf (v.register i.arg0)).bind fun (_, g) =>
    if g.state = .eSuspended then some g else none

theorem resumeNext_goes_on {o4 : LVObject} {address : Nat} {g : LVGenerator}
    {r : Except Exit (Option Int)} (suspended : g.state = .eSuspended) (fine : s.failed = false)
    (ran : resumeNext rest i o4 address g s = some (r, s')) :
    r = .ok (some 0) ∧ (s'.failed = true ↔ NoRoom s.toLVVM g) := by
  rcases bind_some ran with ⟨exit, exited, _⟩ | ⟨_, s₁, done, ran⟩
  · cases exited
  rcases bind_some ran with ⟨exit, exited, _⟩ | ⟨_, s₂, done₂, ran⟩
  · cases exited
  rcases bind_some ran with ⟨exit, exited, _⟩ | ⟨res, s₃, done₃, ran⟩
  · obtain ⟨_, _, _, ok, _⟩ := report_some exited
    cases ok
  · obtain ⟨result, vm, resumed, ok, rfl⟩ := report_some done₃
    cases ok
    cases done
    cases done₂
    cases ran
    have refused := suspended_refused_iff suspended resumed
    refine ⟨rfl, ?_⟩
    simp only [Loop.setVM, fine, Bool.false_or, Option.isNone_iff_eq_none]
    exact refused

theorem foreach_resumes {g : LVGenerator} {r : Except Exit (Option Int)}
    (suspended : suspendedIn s.toLVVM i = some g) (fine : s.failed = false)
    (ran : FOREACH_OP W rest fuel i s = some (r, s')) :
    r = .ok (some 0) ∧ (s'.failed = true ↔ NoRoom s.toLVVM g) := by
  rw [suspendedIn, Option.bind_eq_some_iff] at suspended
  obtain ⟨⟨address, g'⟩, found, suspended⟩ := suspended
  dsimp only at suspended
  have state : g'.state = .eSuspended := by
    by_contra other
    rw [if_neg other] at suspended
    cases suspended
  rw [if_pos state, Option.some.injEq] at suspended
  subst suspended
  have type : (s.register i.arg0).type = .OT_GENERATOR := by
    unfold LVVM.generatorOf at found
    split at found
    · assumption
    · cases found
  rw [FOREACH_OP, bind_eq] at ran
  simp only [current, type, found, foreachGenerator, state] at ran
  exact resumeNext_goes_on state fine ran

theorem iterate_routed (found : Option (BitVec 64 × LVObject × LVObject)) :
    Routed (iterate i found : LoopM Heap (Option Int)) := by
  cases found with
  | none => exact .pure _
  | some next =>
    exact .bind (.store _ _) fun _ => .bind (.store _ _) fun _ => .bind (.store _ _) fun _ => .pure _

theorem foreach_reports (other : suspendedIn s.toLVVM i = none) :
    ReportsAt (FOREACH_OP W rest fuel i) s := by
  intro r s' ran fine
  rw [FOREACH_OP, bind_eq] at ran
  simp only [current] at ran
  cases type : (s.register i.arg0).type with
  | OT_TABLE | OT_ARRAY | OT_STRING | OT_CLASS =>
    simp only [type] at ran
    exact Reports.of_routed (iterate_routed _) s r s' ran fine
  | OT_USERDATA | OT_INSTANCE =>
    simp only [type] at ran
    exact nexti_reports W fuel i _ _ s r s' ran fine
  | OT_GENERATOR =>
    simp only [type] at ran
    cases found : s.generatorOf (s.register i.arg0) with
    | none =>
      simp only [found] at ran
      cases ran
    | some generator =>
      obtain ⟨address, g⟩ := generator
      simp only [found, foreachGenerator] at ran
      cases state : g.state with
      | eDead =>
        simp only [state] at ran
        exact Reports.pure _ s r s' ran fine
      | eRunning =>
        simp only [state] at ran
        exact Reports.raiseFalse _ s r s' ran fine
      | eSuspended => simp [suspendedIn, found, state] at other
  | _ =>
    simp only [type] at ran
    exact Reports.raiseFalse _ s r s' ran fine

/-- `FOREACH` goes on whether the generator is resumed or not. -/
theorem foreach_goes_on {g : LVGenerator} {r : Except Exit Unit}
    (suspended : suspendedIn s.toLVVM i = some g) (fine : s.failed = false)
    (ran : (_GUARD (FOREACH_OP W rest fuel i) >>= skip) s = some (r, s')) :
    r = .ok () ∧ (s'.failed = true ↔ NoRoom s.toLVVM g) := by
  rcases bind_some ran with ⟨exit, exited, rfl⟩ | ⟨jump, s₁, done, ran'⟩
  · rcases bind_some exited with ⟨exit, exited, _⟩ | ⟨res, s₂, done, left⟩
    · cases (foreach_resumes suspended fine exited).1
    · cases (foreach_resumes suspended fine done).1
      cases left
  · rcases bind_some done with ⟨exit, _, other⟩ | ⟨res, s₂, done, same⟩
    · cases other
    · obtain ⟨ok, failed⟩ := foreach_resumes suspended fine done
      cases ok
      cases same
      cases ran'
      exact ⟨rfl, failed⟩

/-! ## Every instruction -/

theorem RoutedAt.thrown {x : LoopM Heap α} {r : Except Exit α} (routed : RoutedAt x s)
    (fine : s.failed = false) (ran : x s = some (r, s')) (failed : s'.failed = true) :
    r = .error .THROW := by
  rcases routed r s' ran fine with thrown | fine'
  · exact thrown
  · rw [failed] at fine'
    cases fine'

/-- The failures that the loop does not look at. -/
def Dropped (W : Objects Heap) (i : LVInstruction) (s : Loop Heap) : Prop :=
  (i.op = .OP_MOD ∧ ModuloRefused W s.toMetaVM (s.register i.arg2) (s.register i.arg1)) ∨
    (i.op = .OP_FOREACH ∧ ∃ g, suspendedIn s.toLVVM i = some g ∧ NoRoom s.toLVVM g)

theorem thrown_iff {r : Except Exit Unit} (fine : s.failed = false)
    (ran : dispatch W rest fuel i s = some (r, s')) :
    (s'.failed = true → r = .error .THROW) ↔ ¬Dropped W i s := by
  by_cases mod : i.op = .OP_MOD
  · have : i.op ≠ .OP_FOREACH := by rw [mod]; decide
    simp only [dispatch, mod] at ran
    obtain ⟨rfl, failed⟩ := mod_goes_on fine ran
    simp [Dropped, mod, failed]
  by_cases foreach : i.op = .OP_FOREACH
  · simp only [dispatch, foreach] at ran
    cases suspended : suspendedIn s.toLVVM i with
    | none =>
      have routed : RoutedAt (_GUARD (FOREACH_OP W rest fuel i) >>= skip) s :=
        (foreach_reports suspended).guard.bind .skip
      simp only [Dropped, foreach, suspended, false_and, false_or, reduceCtorEq, exists_false,
        and_false, not_false_eq_true, iff_true]
      exact routed.thrown fine ran
    | some g =>
      obtain ⟨rfl, failed⟩ := foreach_goes_on suspended fine ran
      simp [Dropped, foreach, suspended, failed]
  · have routed := dispatch_routed W rest fuel i mod foreach s
    simp only [Dropped, mod, foreach, false_and, or_self, not_false_eq_true, iff_true]
    exact routed.thrown fine ran

/-! ## The handler -/

/-- The innermost frame of this run of `Execute` with an active handler, and the frames
below it. -/
def innermost : List CallInfo → Option (CallInfo × List CallInfo)
  | [] => none
  | ci :: below =>
    if ci.etraps > 0 then some (ci, below) else if ci.root then none else innermost below

/-- The handler `et` of the frame `ci` is about to run, with the error in its register. -/
structure TakesOver (et : LVExceptionTrap) (ci : CallInfo) (below : List CallInfo)
    (error : LVObject) (v : LVVM) : Prop where
  callsstack : v.callsstack = { ci with ip := et.ip, etraps := ci.etraps - 1 } :: below
  stackbase : v.stackbase = et.stackbase
  top : v.top = et.stacksize
  delivered : et.stackbase + et.extarget < et.stacksize →
    v.stack (et.stackbase + et.extarget) = error

theorem catch_takesOver {v v' : LVVM} {error : LVObject} {last_top : Int} {ci : CallInfo}
    {below : List CallInfo} (frames : v.callsstack = ci :: below)
    (taken : v.catch_ error last_top = some v') :
    ∃ et, v.etraps.head? = some et ∧ TakesOver et ci below error v' := by
  rw [LVVM.catch_] at taken
  cases traps : v.etraps with
  | nil => simp [traps] at taken
  | cons et etraps =>
    simp only [traps, frames, Option.some.injEq] at taken
    subst taken
    refine ⟨et, rfl, rfl, rfl, rfl, fun inside => ?_⟩
    simp only [LVVM.nullSlots, LVVM.setSlot]
    rw [if_neg (by omega), Function.update_self]

theorem left_etraps {v v₁ : LVVM} {ci : CallInfo} {below : List CallInfo}
    (frames : v.callsstack = ci :: below) (leave : (v.killGenerator ci).leaveFrame = some v₁) :
    v₁.callsstack = below ∧ v₁.etraps = v.etraps := by
  have killed := v.killGenerator_bookkeeping ci
  simp only [LVVM.bookkeeping, Bookkeeping.mk.injEq] at killed
  have left := LVVM.leaveFrame_bookkeeping (killed.1.trans frames) leave
  simp only [LVVM.bookkeeping, Bookkeeping.mk.injEq] at left
  exact ⟨left.1, left.2.2.2.trans killed.2.2.2⟩

/-- The loop of `exception_trap` finds the innermost handler. -/
theorem unwind_innermost {v v' : LVVM} {error : LVObject} {last_top : Int}
    {frames : List CallInfo} {caught : Bool} (eq : v.callsstack = frames)
    (run : LVVM.unwind error last_top frames v = some (caught, v')) :
    match innermost frames with
    | none => caught = false
    | some (ci, below) => caught = true ∧
        ∃ et, v.etraps.head? = some et ∧ TakesOver et ci below error v' := by
  induction frames generalizing v with
  | nil =>
    cases run
    rfl
  | cons ci below ih =>
    simp only [LVVM.unwind] at run
    by_cases trap : ci.etraps > 0
    · rw [if_pos trap, Option.map_eq_some_iff] at run
      obtain ⟨v₁, taken, same⟩ := run
      cases same
      simp only [innermost, if_pos trap]
      exact ⟨trivial, catch_takesOver eq taken⟩
    · rw [if_neg trap] at run
      simp only [Option.bind_eq_bind, Option.bind_eq_some_iff] at run
      obtain ⟨v₁, leave, run⟩ := run
      obtain ⟨frames, etraps⟩ := left_etraps eq leave
      simp only [innermost, if_neg trap]
      by_cases root : ci.root
      · rw [if_pos root] at run ⊢
        cases run
        rfl
      · rw [if_neg root] at run ⊢
        have found := ih frames run
        rwa [etraps] at found

/-- Where an error that was raised in `thrown` has to lead: to the innermost handler, or out
of `Execute` with false. -/
def Transferred (thrown : Loop Heap) : Went Heap → Prop
  | .next _ => False
  | .caught s => ∃ ci below et, innermost thrown.callsstack = some (ci, below) ∧
      thrown.etraps.head? = some et ∧ TakesOver et ci below thrown.lasterror s.toLVVM
  | .left answer _ => answer = false ∧ innermost thrown.callsstack = none

theorem exceptionTrap_transfers {caught : Bool} (trapped : exceptionTrap s = some (caught, s')) :
    Transferred s (if caught then .caught s' else .left false s') := by
  rw [exceptionTrap] at trapped
  cases run : LVVM.unwind s.lasterror s.top s.callsstack s.toLVVM with
  | none => simp [run] at trapped
  | some result =>
    obtain ⟨caught', v⟩ := result
    have found := unwind_innermost rfl run
    cases handler : innermost s.callsstack with
    | none =>
      simp only [handler] at found
      subst found
      simp only [run, Option.some.injEq, Prod.mk.injEq] at trapped
      obtain ⟨rfl, rfl⟩ := trapped
      exact ⟨rfl, handler⟩
    | some frame =>
      obtain ⟨ci, below⟩ := frame
      simp only [handler] at found
      obtain ⟨rfl, et, top, takes⟩ := found
      simp only [run, Option.some.injEq, Prod.mk.injEq] at trapped
      obtain ⟨rfl, rfl⟩ := trapped
      exact ⟨ci, below, et, handler, top, takes⟩

/-- Whenever an operation of an instruction reports failure or an error is raised, control goes
to the innermost handler or out of `Execute` with false, exactly unless the failure is one
of the two that are dropped. -/
theorem failure_transfers_iff {r : Except Exit Unit} {w : Went Heap} (fine : s.failed = false)
    (ran : dispatch W rest fuel i s = some (r, s')) (went : round W rest fuel i s = some w) :
    (s'.failed = true → Transferred s' w) ↔ ¬Dropped W i s := by
  rw [← thrown_iff fine ran]
  rw [round, ran] at went
  refine imp_congr_right fun failed => ?_
  rcases r with exit | done
  · cases exit with
    | THROW =>
      refine iff_of_true ?_ rfl
      cases trapped : exceptionTrap s' with
      | none => simp [trapped] at went
      | some result =>
        obtain ⟨caught, s''⟩ := result
        have transferred := exceptionTrap_transfers trapped
        cases caught <;> simp only [trapped, Option.some.injEq] at went <;> subst went <;>
          exact transferred
    | RETURN =>
      simp only [Option.some.injEq] at went
      subst went
      refine iff_of_false (fun left => ?_) (fun left => by cases left)
      cases left.1
  · simp only [Option.some.injEq] at went
    subst went
    exact iff_of_false id (fun left => by cases left)

/-! ## A machine with a handler -/

/-- No object has a metamethod, and nothing is found in any. -/
def bare : Objects Unit where
  get _ _ _ := none
  set _ _ _ _ := none
  delegate _ _ := none
  getMetaMethod _ _ _ := none
  invokeDefaultDelegate _ _ _ := none
  root _ := none
  roottable := .null
  newSlot _ _ _ _ _ := none
  locked _ _ := false
  setAttributes objects _ _ _ := objects
  remove objects _ _ := objects
  clone objects o := (o, objects)
  next _ _ _ := none
  count _ _ := 0
  referent _ _ := .null
  floatText _ := ""
  floatText14 _ := ""
  floatOp _ o _ := o
  floatNeg o := o
  floatLess _ _ := false
  floatEqual _ _ := false
  call _ _ _ vm := (none, vm)

def bareRest : Rest Unit where
  alive _ := true
  StartCall _ _ _ _ _ := return none
  CallNative _ _ _ := return none
  CreateClassInstance clo := return (clo, .null)
  createClass _ := return .null
  setAbstract _ := return ()
  next _ _ _ := none
  instanceOf _ _ _ := false
  others _ := return ()

/-- A frame that can be resumed, or run with the handler `et`. -/
def handlerFrame (etraps : Int) : CallInfo where
  closure := .null
  literals := []
  ip := 1
  generator := none
  etraps := etraps
  prevstkbase := 0
  prevtop := 0
  target := 0
  ncalls := 1
  root := false

/-- Five and zero in registers 1 and 2, a suspended generator in register 3. The frame has a
handler, and the stack is full while a metamethod runs. -/
def guarded : Loop Unit where
  stack n := if n = 1 then .integer 5 else if n = 2 then .integer 0 else
    if n = 3 then .ofAddress .OT_GENERATOR 0 else .null
  stacksize := 8
  stackbase := 0
  top := 8
  callsstack := [handlerFrame 1]
  alloccallsstacksize := 4
  nmetamethodscall := 1
  nnativecalls := 1
  etraps := [⟨0, 8, 9, 7⟩]
  openouters := []
  heap a := if a = 0 then
    some (.generator ⟨.null, .eSuspended, [.null], false, some (handlerFrame 0), []⟩) else none
  next := 1
  lasterror := .null
  objects := ()
  calls := []
  outres := .null
  traps := 1
  failed := false

/-- `throw` in that frame. -/
theorem throw_transfers : ∃ r s' w,
    dispatch bare bareRest 0 (Lavril.instruction .OP_THROW 1) guarded = some (r, s') ∧
    round bare bareRest 0 (Lavril.instruction .OP_THROW 1) guarded = some w ∧
    s'.failed = true ∧ ((s'.failed = true → Transferred s' w) ↔
      ¬Dropped bare (Lavril.instruction .OP_THROW 1) guarded) :=
  ⟨_, _, _, rfl, rfl, rfl, @failure_transfers_iff Unit bare bareRest 0 _ _ _ _ _ rfl rfl rfl⟩

/-- `5 % 0`, and a loop over the generator, with a handler around them. -/
theorem failures_dropped :
    (∃ s', round bare bareRest 0 (Lavril.instruction .OP_MOD 0 2 1) guarded = some (.next s') ∧
      s'.failed = true ∧ s'.lasterror = .string "modulo by zero" ∧
      s'.register 0 = guarded.register 0) ∧
    (∃ s', round bare bareRest 0 (Lavril.instruction .OP_FOREACH 3 5 4) guarded = some (.next s') ∧
      s'.failed = true ∧
      s'.lasterror = .string "stack overflow, cannot resize stack while in a metamethod") ∧
    (innermost guarded.callsstack).isSome :=
  ⟨⟨_, rfl, rfl, rfl, rfl⟩, ⟨_, rfl, rfl, rfl⟩, rfl⟩

end Interpret

end Lavril
