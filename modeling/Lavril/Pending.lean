import Lavril.Unwinding
import Lavril.Returns

/-!
# Calls that have not returned

`Pending` follows the C++ stack down to `Bottom`: each run of `Execute` and each
native function has been entered at some point, and what it has made of that is
where the call above it has been entered.
-/

namespace Lavril

open LVVM

/-- An error is raised, or a function that C++ code has called fails. -/
inductive Exec.Errs (Program : FunctionPrototype → Prop) (e : Exec) : Exec → Prop
  | raise {a cs i v v' e'} (controls : e.controls = .execute a :: cs)
      (fetch : e.vm.fetch = some (i, v)) (effect : v.Interrupted Program v')
      (raises : e.Raises a cs v' e') : Exec.Errs Program e e'
  | native {a cs v e'} (controls : e.controls = .native :: .execute a :: cs)
      (leave : e.vm.leaveFrame = some v)
      (raises : { e with vm := v.countCall (-1) }.Raises a cs (v.countCall (-1)) e') :
      Exec.Errs Program e e'
  | nativeOutside {cs v} (controls : e.controls = .native :: cs)
      (leave : e.vm.leaveFrame = some v) (outside : { e with controls := cs }.Outside) :
      Exec.Errs Program e { e with vm := v.countCall (-1), controls := cs }
  | metamethod {nparams a cs e'} (controls : e.controls = .metamethod nparams :: .execute a :: cs)
      (raises : e.Raises a cs
        { e.vm.pop nparams with nmetamethodscall := e.vm.nmetamethodscall - 1 } e') :
      Exec.Errs Program e e'

/-- The call `control` that was made at `b` has come to `c`. -/
inductive CallLevel (s : Option Activation) (b : Bookkeeping) : Control → Bookkeeping → Prop
  | execute {a c} (onTop : Over b c) : CallLevel s b (.execute a) c
  | native {ci : CallInfo} {base top} (start : base = b.stackbase + ci.prevstkbase)
      (caller : b.top = b.stackbase + ci.prevtop) :
      CallLevel s b .native ⟨ci :: b.callsstack, base, top, b.etraps⟩
  | awake {base top} (awake : s = none) : CallLevel s b .host ⟨[], base, top, []⟩
  /-- The run of `Execute` that is suspended. -/
  | asleep {a b₀ c} (asleep : s = some a) (callsstack : b₀.callsstack = []) (etraps : b₀.etraps = [])
      (onTop : Over b₀ c) : CallLevel s b .host c

inductive Pending (s : Option Activation) (Bottom : List Control → Bookkeeping → Prop) :
    List Control → Bookkeeping → Prop
  | first {control cs b c} (bottom : Bottom cs b) (level : CallLevel s b control c) :
      Pending s Bottom (control :: cs) c
  | next {control cs b c} (below : Pending s Bottom cs b) (level : CallLevel s b control c) :
      Pending s Bottom (control :: cs) c
  | metamethod {nparams cs b c} (below : Pending s Bottom cs b) (similar : Similar b c) :
      Pending s Bottom (.metamethod nparams :: cs) c

/-- The calls down to `Bottom`, when there may be none left. -/
def Rest (s : Option Activation) (Bottom : List Control → Bookkeeping → Prop) (cs : List Control)
    (b : Bookkeeping) : Prop := Bottom cs b ∨ Pending s Bottom cs b

variable {s : Option Activation} {Bottom : List Control → Bookkeeping → Prop}
  {control : Control} {cs : List Control} {b c c' : Bookkeeping} {a : Activation}

theorem CallLevel.similar (level : CallLevel s b control c) (similar : Similar c c') :
    CallLevel s b control c' := by
  obtain ⟨f, keeps, frames⟩ := similar.callsstack
  cases level with
  | execute onTop => exact .execute (onTop.similar similar)
  | @native ci base top start caller =>
    obtain ⟨callsstack, stackbase, top', etraps⟩ := c'
    obtain rfl : stackbase = base := similar.stackbase
    obtain rfl : etraps = b.etraps := similar.etraps
    obtain rfl : callsstack = f ci :: b.callsstack := frames
    have ties := (keeps ci).1
    simp only [CallInfo.ties, Prod.mk.injEq] at ties
    exact .native (by rw [ties.1]; exact start) (by rw [ties.2.1]; exact caller)
  | awake awake =>
    obtain ⟨callsstack, stackbase, top', etraps⟩ := c'
    obtain rfl : etraps = [] := similar.etraps
    obtain rfl : callsstack = [] := frames
    exact .awake awake
  | asleep asleep callsstack etraps onTop =>
    exact .asleep asleep callsstack etraps (onTop.similar similar)

theorem Pending.similar (pending : Pending s Bottom cs c) (similar : Similar c c') :
    Pending s Bottom cs c' := by
  cases pending with
  | first bottom level => exact .first bottom (level.similar similar)
  | next below level => exact .next below (level.similar similar)
  | metamethod below same => exact .metamethod below (same.trans similar)

theorem Rest.level (rest : Rest s Bottom cs b) (level : CallLevel s b control c) :
    Pending s Bottom (control :: cs) c := by
  rcases rest with bottom | below
  · exact .first bottom level
  · exact .next below level

theorem Pending.execute (pending : Pending s Bottom (.execute a :: cs) c) :
    ∃ b, Rest s Bottom cs b ∧ Over b c := by
  cases pending with
  | first bottom level =>
    cases level with
    | execute onTop => exact ⟨_, .inl bottom, onTop⟩
  | next below level =>
    cases level with
    | execute onTop => exact ⟨_, .inr below, onTop⟩

theorem Pending.native (pending : Pending s Bottom (.native :: cs) c) : ∃ b ci, Rest s Bottom cs b ∧
    c.callsstack = ci :: b.callsstack ∧ c.stackbase = b.stackbase + ci.prevstkbase ∧
    b.top = b.stackbase + ci.prevtop ∧ c.etraps = b.etraps := by
  cases pending with
  | first bottom level =>
    cases level with
    | native start caller => exact ⟨_, _, .inl bottom, rfl, start, caller, rfl⟩
  | next below level =>
    cases level with
    | native start caller => exact ⟨_, _, .inr below, rfl, start, caller, rfl⟩

theorem Pending.popped {nparams : Nat} (pending : Pending s Bottom (.metamethod nparams :: cs) c) :
    Pending s Bottom cs c := by
  cases pending with
  | first bottom level => cases level
  | next below level => cases level
  | metamethod below similar => exact below.similar similar

namespace LVVM

variable {Program : FunctionPrototype → Prop} {v v' w : LVVM} {i : LVInstruction}

theorem Local.similar (effect : Local Program v v') : Similar v.bookkeeping v'.bookkeeping := by
  obtain ⟨ip, frames⟩ := effect.callsstack
  refine ⟨⟨_, fun ci => ?_, frames⟩, effect.stackbase, effect.etraps⟩
  exact ⟨rfl, rfl⟩

theorem fetch_similar (fetch : v.fetch = some (i, v')) : Similar v.bookkeeping v'.bookkeeping := by
  simp only [LVVM.fetch, Option.bind_eq_bind, Option.bind_eq_some_iff] at fetch
  obtain ⟨k, -, fetch⟩ := fetch
  split at fetch
  · cases fetch
  · rename_i ci rest frames
    simp only [Option.bind_eq_some_iff, Option.pure_def, Option.some.injEq, Prod.mk.injEq] at fetch
    obtain ⟨i, -, -, rfl⟩ := fetch
    refine ⟨⟨fun ci => { ci with ip := ci.ip + 1 }, fun _ => ⟨rfl, rfl⟩, ?_⟩, rfl, rfl⟩
    simp only [bookkeeping, frames, List.modifyHead_cons]

theorem resumes_found {x : Nat} {g : LVGenerator} (resumes : v.resumes i = some (x, g)) :
    v.generatorAt x = some g := by
  unfold LVVM.resumes at resumes
  split at resumes
  · exact generatorOf_found resumes
  · exact generatorOf_found (Option.filter_eq_some_iff.mp resumes).1
  · cases resumes

/-- A frame that `EnterFrame` has left behind is one more to leave. -/
theorem Interrupted.onTop (effect : Interrupted Program v v') (onTop : Over b v.bookkeeping) :
    Over b v'.bookkeeping := by
  induction effect with
  | «local» h => exact onTop.similar h.similar
  | close h ih => exact ih onTop
  | enter le h => exact (enters_pushFrame _ _ _).onTop (onTop.similar h.similar)

theorem pushArgs_similar (v : LVVM) (args : List LVObject) :
    Similar v.bookkeeping (v.pushArgs args).bookkeeping :=
  pushes_similar (fun _ o => o) args v

/-- `leaveFrame` leads back to where the native function was called. -/
theorem leave_rest (pending : Pending s Bottom (.native :: cs) v.bookkeeping)
    (leave : v.leaveFrame = some v') : Rest s Bottom cs v'.bookkeeping := by
  obtain ⟨b, ci, rest, frames, start, caller, etraps⟩ := pending.native
  simp only [bookkeeping] at frames start etraps
  rw [leaveFrame_bookkeeping frames leave, start, etraps]
  have same : b = ⟨b.callsstack, b.stackbase + ci.prevstkbase - ci.prevstkbase,
      b.stackbase + ci.prevstkbase - ci.prevstkbase + ci.prevtop, b.etraps⟩ := by
    obtain ⟨callsstack, stackbase, top, etraps⟩ := b
    simp only [Bookkeeping.mk.injEq, true_and, and_true] at caller ⊢
    omega
  rwa [← same]

theorem Enters.native (enters : Enters v v') (rest : Rest s Bottom cs v.bookkeeping) :
    Pending s Bottom (.native :: cs) v'.bookkeeping := by
  obtain ⟨ci, frames, -, -, start, caller⟩ := enters.frame
  have level : CallLevel s v.bookkeeping .native ⟨ci :: v.callsstack, v'.stackbase, v'.top, v.etraps⟩ :=
    .native start caller
  rw [← frames, ← enters.etraps] at level
  exact rest.level level

/-- The traps of a generator are counted from its own base. -/
def TrapBases (v : LVVM) : Prop :=
  ∀ a g, v.generatorAt a = some g → ∀ t ∈ g.etraps, t.stackbase = 0

/-- Every trap that a generator has saved is as `P` says. -/
def EveryTrap (P : LVExceptionTrap → Prop) (v : LVVM) : Prop :=
  ∀ a g, v.generatorAt a = some g → ∀ t ∈ g.etraps, P t

/-- The traps of the running frame are, when they are counted from its base. -/
def RunningTraps (P : LVExceptionTrap → Prop) (v : LVVM) : Prop :=
  ∀ ci rest, v.callsstack = ci :: rest →
    ∀ t ∈ v.etraps.take ci.etraps.toNat, P (t.shift (-v.stackbase))

variable {W : Set Nat} {P : LVExceptionTrap → Prop}

theorem RunningTraps.bases (onTop : Over b v.bookkeeping) :
    RunningTraps (·.stackbase = 0) v := by
  intro ci rest frames t mem
  obtain ⟨ci', rest', ts, etraps, frames', eq, traps, -⟩ := onTop.head
  obtain ⟨rfl, rfl⟩ := List.cons.inj (frames.symm.trans frames')
  simp only [bookkeeping] at eq traps
  rw [eq, ← traps.length, Int.toNat_natCast, List.take_left] at mem
  rw [LVExceptionTrap.shift, traps.base t mem]
  exact Int.add_right_neg _

theorem EveryTrap.same (every : EveryTrap P v)
    (generators : ∀ a, v'.generatorAt a = v.generatorAt a) : EveryTrap P v' := by
  intro a g found
  rw [generators] at found
  exact every a g found

theorem EveryTrap.changed {x : Nat} {g : LVGenerator} (every : EveryTrap P v)
    (changed : Changed W x g v v') (own : ∀ t ∈ g.etraps, P t) : EveryTrap P v' := by
  intro a g' found
  rw [changed.generators] at found
  split at found
  · cases found
    exact own
  · exact every a g' found

theorem EveryTrap.created (every : EveryTrap P v) (created : Created W v v') : EveryTrap P v' := by
  obtain ⟨-, -, x, g, ci, -, changed, -, -, -, none⟩ := created
  exact every.changed changed (none ▸ List.forall_mem_nil _)

theorem EveryTrap.left {ci : CallInfo} (every : EveryTrap P v) (left : Left W ci v v') :
    EveryTrap P v' := by
  intro a g found
  rw [left.generators] at found
  split at found
  · obtain ⟨g', found', rfl⟩ := Option.map_eq_some_iff.mp found
    exact every a g' found'
  · exact every a g found

theorem EveryTrap.resumed {alive : LVObject → Bool} {x : Nat} {g g' : LVGenerator} {target : Int}
    {saved ci : CallInfo} (every : EveryTrap P v) (found : v.generatorAt x = some g)
    (resumed : Resumed alive v x g target saved ci g' v') (changed : Changed W x g' v v') :
    EveryTrap P v' := by
  refine every.changed changed fun t mem => ?_
  rw [resumed.running] at mem
  exact every x g found t (List.mem_of_mem_take mem)

/-- What `Yield` saves is counted from the base of the running frame. -/
theorem EveryTrap.saved {ci : CallInfo} {rest : List CallInfo} {x target : Nat} {g g' : LVGenerator}
    (every : EveryTrap P v) (running : RunningTraps P v) (frames : v.callsstack = ci :: rest)
    (found : v.generatorAt x = some g) (saved : Saved v ci g target g') : ∀ t ∈ g'.etraps, P t := by
  intro t mem
  rw [saved.etraps] at mem
  rcases List.mem_append.mp mem with old | new
  · exact every x g found t old
  · obtain ⟨t', mem', rfl⟩ := List.mem_map.mp new
    exact running ci rest frames t' mem'

theorem EveryTrap.did {r : Ran} (every : EveryTrap P v) (running : RunningTraps P v)
    (did : Did W v i r) : EveryTrap P r.vm := by
  cases did with
  | touch calm frames => exact every.same calm.generators
  | script calm plain frames controls => exact every.same calm.generators
  | native calm plain frames closure controls => exact every.same calm.generators
  | tail calm frames => exact every.same calm.generators
  | done calm frames => exact every.same calm.generators
  | metamethod calm frames => exact every.same calm.generators
  | generator created => exact every.created created
  | «return» op left ran =>
    subst ran
    split <;> exact every.left left
  | yield op frames generator found _ etraps changed saved ran =>
    have after := every.changed changed (every.saved running frames found saved)
    subst ran
    split <;> exact after
  | pushTrap frames frames' etraps calm => exact every.same calm.generators
  | popTrap op frames etraps calm => exact every.same calm.generators

theorem EveryTrap.resumption {alive : LVObject → Bool} {x : Nat} {g : LVGenerator} {r : Ran}
    (every : EveryTrap P v) (found : v.generatorAt x = some g)
    (did : Resumption W alive v i x g r) : EveryTrap P r.vm := by
  cases did with
  | resumed calm frames stackbase top suspended is resumed changed =>
    exact (every.same calm.generators).resumed ((calm.generators x).trans found) resumed changed
  | stuck suspended calm plain frames closure => exact every.same calm.generators

theorem EveryTrap.unwind {error : LVObject} {last_top : Int} {caught : Bool}
    {frames : List CallInfo} (every : EveryTrap P v) (wf : v.WF) (eq : v.callsstack = frames)
    (unwound : LVVM.unwind error last_top frames v = some (caught, v')) : EveryTrap P v' := by
  induction frames generalizing v with
  | nil =>
    cases unwound
    exact every
  | cons ci rest ih =>
    simp only [LVVM.unwind] at unwound
    split at unwound
    · simp only [Option.map_eq_some_iff, Prod.mk.injEq] at unwound
      obtain ⟨v₁, taken, -, rfl⟩ := unwound
      obtain ⟨et, -, calm, -⟩ := wf.catch (W := ∅) taken
      exact every.same calm.generators
    · simp only [Option.bind_eq_bind, Option.bind_eq_some_iff] at unwound
      obtain ⟨v₁, leave, unwound⟩ := unwound
      have left : Left ∅ ci v v₁ := wf.unwind_left eq leave
      have tail := (List.cons.inj (left.callsstack.symm.trans eq)).2
      split at unwound
      · cases unwound
        exact every.left left
      · exact ih (every.left left) left.wf tail unwound

end LVVM

namespace Exec

variable {alive : LVVM → LVObject → Bool} {Program : FunctionPrototype → Prop} {e e' : Exec}
  {ev : Event} {v v' : LVVM}

theorem Raises.rest (pending : Pending s Bottom (.execute a :: cs) v.bookkeeping)
    (raises : e.Raises a cs v e') : Rest s Bottom e'.controls e'.vm.bookkeeping := by
  obtain ⟨b, rest, onTop⟩ := pending.execute
  cases raises with
  | caught unwind => exact .inr (rest.level (.execute (unwind_over onTop rfl unwind)))
  | uncaught unwind =>
    have back := unwind_over onTop rfl unwind
    rw [if_neg Bool.false_ne_true] at back
    rw [← back] at rest
    exact rest

/-- What an error leads to. -/
theorem Errs.rest (outside : ∀ a cs b, ¬ Bottom (.execute a :: cs) b)
    (pending : Pending s Bottom e.controls e.vm.bookkeeping)
    (errs : Errs Program e e') : Rest s Bottom e'.controls e'.vm.bookkeeping := by
  cases errs with
  | raise controls fetch effect raises =>
    rw [controls] at pending
    obtain ⟨b, rest, onTop⟩ := pending.execute
    exact raises.rest (rest.level (.execute (effect.onTop (onTop.similar (fetch_similar fetch)))))
  | @native a cs v e' controls leave raises =>
    rw [controls] at pending
    have rest : Rest s Bottom (.execute a :: cs) v.bookkeeping := leave_rest pending leave
    have counted : v.bookkeeping = (v.countCall (-1)).bookkeeping := rfl
    rw [counted] at rest
    rcases rest with bottom | below
    · exact absurd bottom (outside _ _ _)
    · exact raises.rest below
  | @nativeOutside cs v controls leave _ =>
    rw [controls] at pending
    have rest : Rest s Bottom cs v.bookkeeping := leave_rest pending leave
    exact rest
  | @metamethod nparams a cs e' controls raises =>
    rw [controls] at pending
    have popped : Pending s Bottom (.execute a :: cs) (e.vm.pop nparams).bookkeeping :=
      pending.popped.similar (.refl rfl rfl rfl)
    exact Raises.rest (v := { e.vm.pop nparams with
      nmetamethodscall := e.vm.nmetamethodscall - 1 }) popped raises

/-! ## Steps -/

/-- The generators that can be resumed. -/
structure Resumables (v : LVVM) : Prop where
  length : v.GeneratorTraps
  bases : v.TrapBases

/-- A call fails and leaves its frame behind. -/
def LeavesFrame (e e' : Exec) : Prop :=
  e.Outside ∧ ∃ newbase newtop, e' = { e with vm := e.vm.pushFrame newbase newtop }

/-- The state after an instruction, seen from the calls that have not returned. -/
theorem Executed.rest {i : LVInstruction} {r : Ran} (rest : Rest s Bottom cs b)
    (executed : Executed b r) : Rest s Bottom ((e.note v i).advance a cs r).controls
      ((e.note v i).advance a cs r).vm.bookkeeping := by
  cases executed with
  | next onTop => exact .inr (rest.level (.execute onTop))
  | @call w v onTop controls =>
    have below : Pending s Bottom (.execute a :: cs) v.bookkeeping := rest.level (.execute onTop)
    rcases controls with none | ⟨n, metamethod⟩
    · simp only [advance, none, List.nil_append]
      exact .inr below
    · simp only [advance, metamethod, List.singleton_append]
      exact .inr (.metamethod below (.refl rfl rfl rfl))
  | @native w v v' onTop enters controls =>
    have below : Pending s Bottom (.execute a :: cs) v.bookkeeping := rest.level (.execute onTop)
    simp only [advance, controls, List.singleton_append]
    exact .inr (enters.native (.inr below))
  | finish same =>
    rw [← same] at rest
    exact rest

/-- `lv_resume` enters the frame of the generator. -/
theorem reentered_over {al : LVObject → Bool} {x : Nat} {g : LVGenerator} {traps : Int}
    (resumables : Resumables e.vm) (found : e.vm.generatorAt x = some g)
    (unmixed : (Event.resume x g).Unmixed) (entered : Reentered ∅ al e.vm x g v traps) :
    Over (e.vm.push .null).bookkeeping v.bookkeeping := by
  cases entered with
  | @resumed target saved ci g' v' suspended is resumed changed =>
    have length := (resumables.length x g saved found suspended is).2
    have all : g.etraps.length - saved.etraps.toNat = 0 := by omega
    have etraps := resumed.etraps
    rw [all, List.drop_zero] at etraps
    have traps : ({ ci with root := true } : CallInfo).Traps (e.vm.push .null).top
        (g.etraps.map (·.shift (e.vm.push .null).top)) := by
      refine ⟨?_, fun t inside => ?_⟩
      · rw [List.length_map, resumed.frame]
        exact length
      · obtain ⟨kept, mem, rfl⟩ := List.mem_map.mp inside
        simp [LVExceptionTrap.shift, resumables.bases x g found kept mem]
    have rooted : Over (e.vm.push .null).bookkeeping ⟨{ ci with root := true } ::
        (e.vm.push .null).callsstack, (e.vm.push .null).top, v'.top,
        g.etraps.map (·.shift (e.vm.push .null).top) ++ (e.vm.push .null).etraps⟩ := by
      refine .root rfl ?_ ?_ traps
      · rw [resumed.frame]
        simp only [bookkeeping]
        omega
      · rw [resumed.frame]
        simp only [bookkeeping]
        omega
    rw [← etraps, ← resumed.stackbase] at rooted
    simpa only [bookkeeping, LVVM.setRoot, resumed.frames, List.modifyHead_cons] using rooted
  | failed suspended => exact (enters_pushFrame _ _ _).setRoot
  | refused notSuspended => exact absurd unmixed notSuspended

/-- A call of a script function enters its frame. -/
theorem executeCall_over {clo : LVObject} {k : LVClosure} {nargs : Nat} {stackbase traps : Int}
    {moved : Bool} (unmixed : (Event.call k moved).Unmixed)
    (entry : v.executeCall clo k nargs stackbase moved = .loop v' traps) :
    Over v.bookkeeping v'.bookkeeping := by
  simp only [executeCall] at entry
  split at entry
  · cases entry
  · split at entry
    · cases entry
    · rename_i w start
      have call := startCall_bookkeeping start
      split at entry
      · cases entry
      · rename_i notDone
        split at entry
        · cases entry
        · cases entry
          have script : ¬ k.function.bgenerator = true := fun generator =>
            notDone ⟨generator, fun h => by
              rw [unmixed generator] at h
              exact absurd h.2 Bool.false_ne_true⟩
          rw [if_neg script] at call
          exact call.setRoot

theorem executeCall_done_bookkeeping {clo o : LVObject} {k : LVClosure} {nargs : Nat}
    {stackbase : Int} {moved : Bool}
    (entry : v.executeCall clo k nargs stackbase moved = .done o v') :
    v'.bookkeeping = v.bookkeeping := by
  simp only [executeCall] at entry
  split at entry
  · cases entry
  · split at entry
    · cases entry
    · rename_i w start
      have call := startCall_bookkeeping start
      split at entry
      · rename_i done
        cases entry
        rwa [if_pos done.1] at call
      · split at entry <;> cases entry

/-- A step, where frames are not left behind. When it ends the call above `Bottom`
only the top and `ip` may be others there. -/
theorem Step.pending (outside : ∀ a cs b, ¬ Bottom (.execute a :: cs) b) (wf : e.vm.WF)
    (resumables : Resumables e.vm) (pending : Pending s Bottom e.controls e.vm.bookkeeping)
    (unmixed : ev.Unmixed) (balanced : ev.Balanced) (kept : ¬ e.LeavesFrame e')
    (awake : e'.suspended = e.suspended) (step : Step alive Program ev e e') :
    Pending s Bottom e'.controls e'.vm.bookkeeping ∨
      ∃ b, Bottom e'.controls b ∧ Similar b e'.vm.bookkeeping := by
  have rest : ∀ {cs b}, Rest s Bottom cs b → Pending s Bottom cs b ∨
      ∃ b', Bottom cs b' ∧ Similar b' b :=
    fun h => h.symm.imp_right fun bottom => ⟨_, bottom, .refl rfl rfl rfl⟩
  cases step with
  | @instruction _ a cs i v r controls fetch run =>
    rw [controls] at pending
    obtain ⟨b, below, onTop⟩ := pending.execute
    obtain ⟨calm, -⟩ := wf.fetch (W := ∅) fetch
    refine rest (Executed.rest below ?_)
    refine instruction_executed calm.wf (onTop.similar (fetch_similar fetch)) balanced.2.1
      balanced.2.2 (fun x g ci resumes suspended is => ?_) run
    have found := (calm.generators x).symm.trans (resumes_found resumes)
    exact ⟨unmixed x g ci resumes is, (resumables.length x g ci found suspended is).2,
      resumables.bases x g found⟩
  | «local» controls fetch op effect top =>
    exact .inl ((pending.similar (fetch_similar fetch)).similar effect.similar)
  | @metamethod _ a cs i v args controls fetch =>
    exact .inl (.metamethod (pending.similar (fetch_similar fetch)) (v.pushArgs_similar args))
  | raise controls fetch effect raises =>
    have errs : Errs Program e e' := .raise controls fetch effect raises
    exact rest (errs.rest outside pending)
  | @call _ clo k nargs moved v traps outside callee entry =>
    have onTop : Over e.vm.bookkeeping v.bookkeeping := executeCall_over unmixed entry
    exact .inl (.next pending (.execute onTop))
  | generator outside callee entry =>
    rw [← executeCall_done_bookkeeping entry] at pending
    exact .inl pending
  | native outside callee entry =>
    exact .inl ((enterNative_bookkeeping entry).native (.inr pending))
  | @resume _ x g v traps api found entry =>
    have at_ := generatorOf_found found
    have onTop : Over (e.vm.push .null).bookkeeping v.bookkeeping :=
      reentered_over resumables at_ unmixed (wf.executeResume_loop at_ entry)
    have pushed : Pending s Bottom e.controls (e.vm.push .null).bookkeeping :=
      pending.similar (.refl rfl rfl rfl)
    exact .inl (.next pushed (.execute onTop))
  | api api effect => exact .inl (pending.similar effect.similar)
  | @apiMetamethod _ args api => exact .inl (.metamethod pending (e.vm.pushArgs_similar args))
  | failCall outside le => exact absurd ⟨outside, _, _, rfl⟩ kept
  | @setOuter _ address o api found =>
    rw [← setOuterValue_bookkeeping e.vm address o] at pending
    exact .inl pending
  | @returnNative _ cs ret value v v' controls leave store top =>
    rw [controls] at pending
    simp only [leaveNative] at leave
    split at leave
    · cases leave
    · obtain ⟨w, leave, eq⟩ := Option.map_eq_some_iff.mp leave
      cases eq
      rcases leave_rest pending leave with bottom | below
      · exact .inr ⟨_, bottom, store.similar⟩
      · exact .inl (below.similar store.similar)
  | failNative controls leave raises =>
    have errs : Errs Program e e' := .native controls leave raises
    exact rest (errs.rest outside pending)
  | failNativeOutside controls leave api =>
    have errs : Errs Program e _ := .nativeOutside controls leave api
    exact rest (errs.rest outside pending)
  | @returnMetamethod _ nparams cs v' controls store top =>
    rw [controls] at pending
    have popped : Pending s Bottom cs (e.vm.pop nparams).bookkeeping :=
      pending.popped.similar (.refl rfl rfl rfl)
    exact .inl (popped.similar store.similar)
  | failMetamethod controls raises =>
    have errs : Errs Program e e' := .metamethod controls raises
    exact rest (errs.rest outside pending)
  | suspend controls none leave =>
    rw [none] at awake
    cases awake
  | wakeup controls asleep effect =>
    rw [asleep] at awake
    cases awake

end Exec

end Lavril
