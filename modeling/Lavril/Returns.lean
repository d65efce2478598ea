import Lavril.ControlRuns

/-!
# Who a generator returns to

Every step of the machine keeps it `Held`. It follows that a generator returns
to whoever has resumed it last.
-/

namespace Lavril

open LVVM

namespace Exec

variable {alive : LVVM → LVObject → Bool} {Program : FunctionPrototype → Prop} {Strict : Prop}
  {e e' : Exec} {ev : Event} {a : Activation} {cs : List Control} {v v' : LVVM} {i : LVInstruction}

/-- The machine has moved `ip` at most. -/
theorem Held.moved {W : Set Nat} {f : CallInfo → CallInfo} (held : Held Strict e) (calm : Calm W e.vm v)
    (keeps : ∀ ci, (f ci).mark = ci.mark ∧ (f ci).closure = ci.closure)
    (frames : v.callsstack = e.vm.callsstack.modifyHead f) : Held Strict { e with vm := v } where
  stacked := by
    have stacked := held.stacked.modifyHead keeps
    rwa [← frames, ← calm.etraps] at stacked
  saved strict := (held.saved strict).same calm.generators

theorem Held.local (held : Held Strict e) (wf : e.vm.WF) (effect : e.vm.Local Program v) :
    Held Strict { e with vm := v } := by
  obtain ⟨ip, frames⟩ := effect.callsstack
  have calm : Calm ∅ e.vm v := (wf.local effect).1
  exact held.moved (f := fun ci => { ci with ip := ip }) calm (fun _ => ⟨rfl, rfl⟩) frames

/-- The running frame is one of the run of `Execute` on top of the C++ stack. -/
theorem Held.fetch (held : Held Strict e) (wf : e.vm.WF) (controls : e.controls = .execute a :: cs)
    (fetch : e.vm.fetch = some (i, v)) : ∃ own lower, v.callsstack = own ++ lower ∧
      Running Strict e.resumers e.suspended a cs [] own lower v.etraps := by
  have stacked := held.stacked
  rw [controls] at stacked
  obtain ⟨idles, own, lower, frames, run⟩ := stacked.running
  obtain ⟨calm, touched⟩ := wf.fetch (W := ∅) fetch
  cases idles with
  | cons ci idles =>
    have type := (run.idle ci List.mem_cons_self).closure
    rw [fetch_of_type frames type] at fetch
    cases fetch
  | nil =>
    rw [frames, List.nil_append] at touched
    obtain ⟨own', frames', run'⟩ := run.touched touched
    exact ⟨own', lower, frames', calm.etraps ▸ run'⟩

theorem Held.fetched (held : Held Strict e) (wf : e.vm.WF) (fetch : e.vm.fetch = some (i, v)) :
    Held Strict { e with vm := v } := by
  obtain ⟨calm, -⟩ := wf.fetch (W := ∅) fetch
  simp only [LVVM.fetch, Option.bind_eq_bind, Option.bind_eq_some_iff] at fetch
  obtain ⟨k, -, fetch⟩ := fetch
  split at fetch
  · cases fetch
  · rename_i ci rest frames
    simp only [Option.bind_eq_some_iff, Option.pure_def, Option.some.injEq, Prod.mk.injEq] at fetch
    obtain ⟨i, -, -, rfl⟩ := fetch
    refine held.moved (f := fun ci => { ci with ip := ci.ip + 1 }) calm (fun _ => ⟨rfl, rfl⟩) ?_
    rw [frames, List.modifyHead_cons]

theorem Held.instruction {al : LVObject → Bool} {r : Ran} (held : Held Strict e) (wf : e.vm.WF)
    (ok : GeneratorsOk e.vm) (unmixed : (Event.instruction i v).Unmixed)
    (balanced : Strict → (Event.instruction i v).Balanced) (controls : e.controls = .execute a :: cs)
    (fetch : e.vm.fetch = some (i, v)) (run : v.instruction al i = some r) :
    Held Strict ((e.note v i).advance a cs r) := by
  obtain ⟨calm, touched⟩ := wf.fetch (W := {a | v.writes i = some a}) fetch
  have ok' : GeneratorsOk v :=
    (Move.of_calm (R := ∅) calm (generatorFrames_touched touched)).generatorsOk ok
  obtain ⟨own, lower, frames, running⟩ := held.fetch wf controls fetch
  have traps : Strict → v.GeneratorTraps := fun strict => (held.saved strict).same calm.generators
  rcases calm.wf.instruction (fun a writes => writes) run with
    ⟨resumes, did⟩ | ⟨x, g, resumes, found, did⟩
  · have noted : e.note v i = e := by simp only [note, resumes]
    rw [noted]
    exact .did running frames traps ok' balanced did
  · refine .resumption controls running frames traps ok' found resumes unmixed ?_ did
    intro strict op ci is
    have foreach : i.op = .OP_FOREACH := by
      by_contra foreach
      rw [resumes_of_op op foreach] at resumes
      cases resumes
    exact (balanced strict).1 foreach x g ci resumes is

/-- A call of a script function by the machine or by C++ code. -/
theorem Held.executeCall {clo : LVObject} {k : LVClosure} {nargs : Nat} {moved : Bool} {traps : Int}
    (held : Held Strict e) (wf : e.vm.WF) (unmixed : (Event.call k moved).Unmixed)
    (entry : e.vm.executeCall clo k nargs (e.vm.top - nargs) moved = .loop v traps) :
    Held Strict (e.enter v traps) := by
  obtain ⟨w, rfl, rfl, generator, call⟩ := wf.executeCall_loop (W := ∅) entry
  have script : ¬ k.function.bgenerator = true := fun is => by
    rw [unmixed is] at generator
    cases generator is
  rw [if_neg script] at call
  obtain ⟨calm, ci, plain, frames⟩ := call
  refine ⟨?_, fun strict => (held.saved strict).same calm.generators⟩
  have stacked := held.stacked.enter { ci with root := true } [] rfl
    (by simp [plain.generator]) (by simp [plain.etraps])
  simpa only [enter, countCall, LVVM.setRoot, frames, List.modifyHead_cons, calm.etraps,
    plain.etraps, List.nil_append] using stacked

/-- `lv_resume` of a generator that is suspended. -/
theorem Held.executeResume {al : LVObject → Bool} {x : Nat} {g : LVGenerator} {traps : Int}
    (held : Held Strict e) (ok : GeneratorsOk e.vm) (wf : e.vm.WF)
    (found : e.vm.generatorAt x = some g) (unmixed : (Event.resume x g).Unmixed)
    (entered : Reentered ∅ al e.vm x g v traps) :
    Held Strict { e.enter v traps with
      resumers := Function.update e.resumers x (some (.host e.controls)) } := by
  have absent : ∀ ci ∈ e.vm.callsstack, ci.generator ≠ some x := by
    intro ci mem is
    obtain ⟨g', found', running⟩ := ok.running x (List.mem_filterMap.mpr ⟨ci, mem, is⟩)
    rw [found, Option.some.injEq] at found'
    rw [← found', unmixed] at running
    cases running
  have below := held.stacked.update (r := some (.host e.controls)) absent
  have pushed : Calm ∅ e.vm (e.vm.push .null) := wf.calm_push .null
  have saved : Strict → (e.vm.push .null).GeneratorTraps := fun strict =>
    (held.saved strict).same pushed.generators
  cases entered with
  | @resumed target saved_ ci g' v' suspended is resumed changed =>
    obtain rfl := resumed.frame
    have counts : Strict → 0 ≤ saved_.etraps ∧ (g.etraps.length : Int) = saved_.etraps :=
      fun strict => held.saved strict x g saved_ found suspended is
    constructor
    · have stacked := below.enter { saved_ with
          generator := some x, target := target
          prevstkbase := (e.vm.push .null).top - (e.vm.push .null).stackbase
          prevtop := (e.vm.push .null).top - (e.vm.push .null).stackbase, root := true }
        ((g.etraps.drop (g.etraps.length - saved_.etraps.toNat)).map
          (·.shift (e.vm.push .null).top)) rfl
        (fun y is => by rw [← Option.some.inj is, Function.update_self])
        (fun strict => by
          have := counts strict
          rw [List.length_map, List.length_drop]
          dsimp only
          omega)
      simp only [enter, countCall, LVVM.setRoot, resumed.frames, List.modifyHead_cons, resumed.etraps]
      exact stacked
    · intro strict
      have after : v'.GeneratorTraps := (saved strict).changed changed fun suspended' => by
        rw [resumed.running] at suspended'
        cases suspended'
      exact after
  | @failed newbase newtop suspended =>
    obtain ⟨ci, plain, -, frames⟩ := (e.vm.push .null).pushFrame_frames newbase newtop
    refine ⟨?_, saved⟩
    have stacked := below.enter { ci with root := true } [] rfl
      (by simp [plain.generator]) (by simp [plain.etraps])
    simp only [plain.etraps] at stacked
    simp only [enter, countCall, LVVM.setRoot, frames, List.modifyHead_cons, plain.etraps]
    exact stacked
  | refused notSuspended => exact absurd unmixed notSuspended

/-- An exception that is raised in the run of `Execute` on top of the C++ stack. -/
theorem Raises.held {own lower : List CallInfo} (idles : List CallInfo) (wf : v.WF)
    (run : Running Strict e.resumers e.suspended a cs [] own lower v.etraps)
    (plain : ∀ ci ∈ idles, ci.Plain) (frames : v.callsstack = idles ++ (own ++ lower))
    (saved : Strict → v.GeneratorTraps) (raises : e.Raises a cs v e') : Held Strict e' := by
  have unwound : ∀ {caught error v'}, LVVM.unwind error v.top v.callsstack v = some (caught, v') →
      Unwound Strict e.resumers e.suspended a cs lower caught v' ∧ (Strict → v'.GeneratorTraps) := by
    intro caught error v' unwind
    refine ⟨?_, fun strict => (saved strict).unwind wf rfl unwind⟩
    rw [frames] at unwind
    exact run.unwind_idle wf plain frames unwind
  cases raises with
  | caught unwind =>
    obtain ⟨unwound, saved⟩ := unwound unwind
    cases unwound with
    | caught frames run =>
      have stacked := run.stacked
      rw [List.nil_append, ← frames] at stacked
      exact ⟨stacked, saved⟩
  | uncaught unwind =>
    obtain ⟨unwound, saved⟩ := unwound unwind
    cases unwound with
    | uncaught frames stacked =>
      rw [← frames] at stacked
      exact ⟨stacked, saved⟩

theorem Raises.held_stacked (raises : e.Raises a cs v e') (wf : v.WF)
    (stacked : Stacked Strict e.resumers e.suspended (.execute a :: cs) v.callsstack v.etraps)
    (saved : Strict → v.GeneratorTraps) : Held Strict e' := by
  obtain ⟨idles, own, lower, frames, run⟩ := stacked.running
  have run' : Running Strict e.resumers e.suspended a cs [] own lower v.etraps :=
    ⟨run.below, List.forall_mem_nil _, run.depth, run.owned, run.counted⟩
  exact raises.held _ wf run' (fun ci mem => (run.idle ci mem).plain) frames saved

/-- The frame of a native function is left. -/
theorem Held.leaveFrame (held : Held Strict e) (wf : e.vm.WF) (controls : e.controls = .native :: cs)
    (leave : e.vm.leaveFrame = some v) : v.WF ∧
      Stacked Strict e.resumers e.suspended cs v.callsstack v.etraps ∧
      (Strict → v.GeneratorTraps) := by
  obtain ⟨calm, ci, frames⟩ : Calm ∅ e.vm v ∧ _ := wf.calm_leaveFrame leave
  have stacked := held.stacked
  rw [controls, frames, ← calm.etraps] at stacked
  refine ⟨calm.wf, ?_, fun strict => (held.saved strict).same calm.generators⟩
  generalize eq : ci :: v.callsstack = all at stacked
  cases stacked with
  | @native _ idles lower _ below idle frame =>
    cases idles with
    | nil => exact absurd rfl frame
    | cons ci' idles =>
      obtain ⟨-, same⟩ := List.cons.inj eq
      rw [same]
      exact below.absorb fun ci mem => idle ci (List.mem_cons_of_mem _ mem)

theorem Held.leaveMetamethod {nparams : Nat} (held : Held Strict e)
    (controls : e.controls = .metamethod nparams :: cs) :
    Stacked Strict e.resumers e.suspended cs e.vm.callsstack e.vm.etraps := by
  have stacked := held.stacked
  rw [controls] at stacked
  generalize e.vm.callsstack = all at stacked ⊢
  cases stacked with
  | metamethod below idle => exact below.absorb idle

/-- A metamethod is called. -/
theorem Held.pushArgs {args : List LVObject} (held : Held Strict e) (wf : e.vm.WF) :
    Held Strict { e with
      vm := e.vm.pushArgs args, controls := .metamethod args.length :: e.controls } := by
  obtain ⟨calm, frames⟩ := wf.calm_pushes (W := ∅) (fun _ o => o) args
  refine ⟨?_, fun strict => (held.saved strict).same calm.generators⟩
  have stacked := @Stacked.metamethod Strict _ _ args.length _ [] _ _ held.stacked
    (List.forall_mem_nil _)
  rw [List.nil_append, ← frames, ← calm.etraps] at stacked
  exact stacked

theorem Step.held (wf : e.vm.WF) (ok : GeneratorsOk e.vm) (held : Held Strict e)
    (unmixed : ev.Unmixed) (balanced : Strict → ev.Balanced) (step : Step alive Program ev e e') :
    Held Strict e' := by
  cases step with
  | instruction controls fetch run =>
    exact held.instruction wf ok unmixed balanced controls fetch run
  | «local» controls fetch op effect top =>
    obtain ⟨calm, -⟩ := wf.fetch (W := ∅) fetch
    exact (held.fetched wf fetch).local calm.wf effect
  | metamethod controls fetch =>
    obtain ⟨calm, -⟩ := wf.fetch (W := ∅) fetch
    exact (held.fetched wf fetch).pushArgs calm.wf
  | @raise _ a cs i v v' e' controls fetch effect raises =>
    obtain ⟨calm, -⟩ := wf.fetch (W := ∅) fetch
    obtain ⟨own, lower, frames, run⟩ := held.fetch wf controls fetch
    obtain ⟨interrupted, frames', touched, after⟩ := calm.wf.interrupted (W := ∅) effect
    rw [frames] at touched
    obtain ⟨own', rfl, run'⟩ := run.touched touched
    rw [← interrupted.etraps] at run'
    have saved : Strict → v'.GeneratorTraps := fun strict =>
      ((held.saved strict).same calm.generators).same interrupted.generators
    rcases after with same | ⟨ci, plain, pushed⟩
    · exact raises.held [] interrupted.wf run' (List.forall_mem_nil _) same saved
    · exact raises.held [ci] interrupted.wf run' (by simpa using plain) pushed saved
  | call outside callee entry => exact held.executeCall wf unmixed entry
  | generator outside callee entry =>
    have created := wf.executeCall_done (W := ∅) entry
    refine ⟨?_, fun strict => (held.saved strict).created created⟩
    simpa only [created.callsstack, created.etraps] using held.stacked
  | native outside callee entry =>
    obtain ⟨calm, ci, plain, closure, frames⟩ := wf.enterNative (W := ∅) entry
    refine ⟨?_, fun strict => (held.saved strict).same calm.generators⟩
    have stacked := @Stacked.native Strict _ _ _ [ci] _ _ held.stacked
      (by simpa using ⟨plain, closure ▸ lookup_native callee⟩) (by simp)
    simpa only [countCall, frames, calm.etraps, List.singleton_append] using stacked
  | resume api found entry =>
    have at_ := generatorOf_found found
    exact held.executeResume ok wf at_ unmixed (wf.executeResume_loop at_ entry)
  | api api effect => exact held.local wf effect
  | apiMetamethod api => exact held.pushArgs wf
  | @failCall _ newbase newtop outside le =>
    obtain ⟨ci, plain, null, frames⟩ := e.vm.pushFrame_frames newbase newtop
    have idle : ∀ x ∈ [ci], CallInfo.Idle x := by simpa using ⟨plain, by simp [null, LVObject.null]⟩
    refine ⟨?_, held.saved⟩
    have stacked := held.stacked.absorb idle
    rwa [List.singleton_append, ← frames] at stacked
  | @setOuter _ address o api found =>
    obtain ⟨x, found⟩ := found
    have set : Calm {address} e.vm _ := wf.calm_setOuterValue found (Set.mem_singleton address) o
    refine ⟨?_, fun strict => (held.saved strict).same set.generators⟩
    simpa only [setOuterValue_callsstack, set.etraps] using held.stacked
  | @returnNative _ cs ret value v v' controls leave store top =>
    simp only [leaveNative] at leave
    split at leave
    · cases leave
    · obtain ⟨w, leave, eq⟩ := Option.map_eq_some_iff.mp leave
      cases eq
      obtain ⟨wf', stacked, saved⟩ := held.leaveFrame wf controls leave
      have left : Held Strict { e with vm := v, controls := cs } := ⟨stacked, saved⟩
      have stored := left.local wf' store
      exact ⟨stored.stacked, stored.saved⟩
  | failNative controls leave raises =>
    obtain ⟨wf', stacked, saved⟩ := held.leaveFrame wf controls leave
    exact raises.held_stacked (wf'.of_eq rfl rfl rfl) stacked saved
  | failNativeOutside controls leave outside =>
    obtain ⟨-, stacked, saved⟩ := held.leaveFrame wf controls leave
    exact ⟨stacked, saved⟩
  | @returnMetamethod _ nparams cs v' controls store top =>
    have left : Held Strict { e with vm := e.vm.pop nparams, controls := cs } :=
      ⟨held.leaveMetamethod controls, held.saved⟩
    have stored := left.local (wf.of_eq rfl rfl rfl) store
    exact ⟨stored.stacked, stored.saved⟩
  | failMetamethod controls raises =>
    exact raises.held_stacked (wf.of_eq rfl rfl rfl) (held.leaveMetamethod controls) held.saved
  | suspend controls awake leave =>
    obtain ⟨-, stacked, saved⟩ := held.leaveFrame wf controls leave
    rw [awake] at stacked
    exact ⟨stacked.suspend, saved⟩
  | wakeup controls asleep effect =>
    have moved := held.local wf effect
    have stacked := moved.stacked
    simp only [controls, asleep] at stacked
    exact ⟨stacked.wakeup, moved.saved⟩

theorem Initial.held (initial : Initial e) : Held Strict e where
  stacked := by
    rw [initial.controls, initial.suspended, initial.callsstack]
    exact .host rfl (List.forall_mem_nil _) fun _ => initial.etraps
  saved _ a g ci found := by simp [initial.generators] at found

variable {e₀ : Exec}

theorem Runs.held {Allowed : Exec → Event → Prop} (initial : Initial e₀)
    (runs : Runs alive Program Allowed e₀ e)
    (allowed : ∀ e ev, Allowed e ev → ev.Unmixed ∧ (Strict → ev.Balanced)) : Held Strict e := by
  induction runs with
  | refl => exact initial.held
  | tail runs allows step ih =>
    have ok := runs.ok ⟨initial.wf, initial.generatorsOk⟩
    obtain ⟨unmixed, balanced⟩ := allowed _ _ allows
    exact step.held ok.1 ok.2 ih unmixed balanced

/-- The control is back with `r`: `lv_resume` returns, or `Execute` goes on with
the frame that has resumed the generator. -/
def Regains (e : Exec) : Resumer → Prop
  | .host cs => e.controls = cs
  | .script level frames =>
    (∃ a cs, e.controls = .execute a :: cs ∧ cs.length + 1 = level) ∧ e.vm.callsstack = frames

/-- A frame that `YIELD` or `RETURN` leaves. -/
theorem Step.leaves {ci : CallInfo} {rest : List CallInfo} (wf : e.vm.WF)
    (step : Step alive Program (.instruction i v) e e') (op : i.op = .OP_YIELD ∨ i.op = .OP_RETURN)
    (frames : v.callsstack = ci :: rest) : ∃ a cs, e.controls = .execute a :: cs ∧
      e.vm.fetch = some (i, v) ∧ e'.vm.callsstack = rest ∧
      if ci.root then e'.controls = cs else ∃ a', e'.controls = .execute a' :: cs := by
  cases step with
  | @instruction _ a cs i v r controls fetch run =>
    refine ⟨a, cs, controls, fetch, ?_⟩
    obtain ⟨calm, -⟩ := wf.fetch (W := ∅) fetch
    have left : ∃ v' n, v.callsstack = ci :: v'.callsstack ∧
        r = if ci.root then .finish v' n else .next v' n := by
      rcases op with op | op
      · have run : v.yieldReturn i = some r := by simpa only [LVVM.instruction, op] using run
        obtain ⟨ci', x, g, g', v', popped, -, -, -, -, -, -, ran⟩ := calm.wf.yield_return (W := ∅) run
        obtain ⟨rfl, -⟩ := List.cons.inj (frames.symm.trans popped)
        exact ⟨v', _, popped, ran⟩
      · have run : v.returnOp i = some r := by simpa only [LVVM.instruction, op] using run
        simp only [LVVM.returnOp, frames, Option.bind_eq_bind, Option.bind_eq_some_iff,
          Option.pure_def, Option.some.injEq] at run
        obtain ⟨v', ret, ran⟩ := run
        have left : Left ∅ ci v v' := calm.wf.left frames fun w wf _ eq => by
          subst eq
          exact wf.calm_return ret
        exact ⟨v', 0, left.callsstack, ran.symm⟩
    obtain ⟨v', n, popped, ran⟩ := left
    obtain ⟨-, rfl⟩ := List.cons.inj (frames.symm.trans popped)
    cases root : ci.root with
    | true =>
      rw [root, if_pos rfl] at ran
      subst ran
      exact ⟨rfl, rfl⟩
    | false =>
      rw [root, if_neg Bool.false_ne_true] at ran
      subst ran
      exact ⟨rfl, _, rfl⟩

/-- A generator returns to whoever has resumed it last, as long as no script code
resumes one that `lv_resume` has resumed before. -/
theorem generator_regains {e₀ : Exec} {ci : CallInfo} {rest : List CallInfo} {x : Nat}
    (initial : Initial e₀) (runs : Runs alive Program (fun _ ev => ev.Unmixed) e₀ e)
    (step : Step alive Program (.instruction i v) e e') (op : i.op = .OP_YIELD ∨ i.op = .OP_RETURN)
    (frames : v.callsstack = ci :: rest) (generator : ci.generator = some x) :
    ∃ r, e.resumers x = some r ∧ Regains e' r := by
  have wf := runs.wf initial.wf
  have held : Held False e := runs.held initial fun _ _ allowed => ⟨allowed, False.elim⟩
  obtain ⟨a, cs, controls, fetch, after, continues⟩ := step.leaves wf op frames
  obtain ⟨own, lower, eq, run⟩ := held.fetch wf controls fetch
  rw [eq] at frames
  have owned := run.owned
  cases owned with
  | root root host =>
    obtain ⟨rfl, -⟩ := List.cons.inj frames
    rw [if_pos root] at continues
    exact ⟨_, host x generator, continues⟩
  | push owned notRoot script =>
    obtain ⟨rfl, same⟩ := List.cons.inj frames
    rw [notRoot, if_neg Bool.false_ne_true] at continues
    obtain ⟨a', continues⟩ := continues
    exact ⟨_, script x generator, ⟨a', cs, continues, rfl⟩, after.trans same.symm⟩

/-- A function of four registers. -/
def functionOf (bgenerator : Bool) (parameters : List String) (instructions : List LVInstruction) :
    LVClosure where
  function := ⟨4, bgenerator, false, instructions, [], [], "this" :: parameters, [], [], []⟩
  this := Nat.zero_lt_succ _
  env := none
  outervalues := []
  defaultparams := []

/-- The program around the machine has pushed a generator function and `this`.
The other function resumes its first argument. -/
def resumesTwice : Exec :=
  { hostCall with
    vm := { hostCall.vm with
      heap := fun address =>
        match address with
        | 0 => some (.closure (functionOf true []
            [⟨.OP_YIELD, 0xFF, 0xFF, 4, 0⟩, ⟨.OP_YIELD, 0xFF, 0xFF, 4, 0⟩]))
        | 1 => some (.closure (functionOf false ["x"] [⟨.OP_RESUME, 2, 0, 0, 0⟩]))
        | _ => none
      next := 2 } }

theorem resumesTwice_initial : Initial resumesTwice where
  controls := rfl
  suspended := rfl
  callsstack := rfl
  etraps := rfl
  generators a := by
    simp only [generatorAt, resumesTwice]
    split
    · rename_i g found
      split at found <;> cases found
    · rfl
  wf := by
    refine ⟨fun a le => ?_, List.forall_mem_nil _, .nil, .nil⟩
    obtain ⟨b, rfl⟩ := Nat.exists_eq_add_of_le' le
    rfl

/-- The generator is made, resumed by `lv_resume` and yields. -/
theorem generator_regains_resumesTwice : ∃ e e' v i ci rest,
    Runs (fun _ _ => true) (fun _ => True) (fun _ ev => ev.Unmixed) resumesTwice e ∧
    Step (fun _ _ => true) (fun _ => True) (.instruction i v) e e' ∧ v.callsstack = ci :: rest ∧
    ∃ r, e.resumers 2 = some r ∧ Regains e' r := by
  have run₀ : Runs (fun _ _ => true) (fun _ => True) (fun _ ev => ev.Unmixed) resumesTwice
      resumesTwice := .refl
  have run₁ := run₀.tail (by intro; rfl) (@Step.generator _ _ _ (.ofAddress .OT_CLOSURE 0) _ 1 false _ _
    (by simp [Outside, resumesTwice, hostCall]) rfl rfl)
  have run₂ := run₁.tail (by rfl) (.resume (.inr rfl) rfl rfl)
  exact ⟨_, _, _, _, _, _, run₂, .instruction rfl rfl rfl, rfl,
    generator_regains resumesTwice_initial run₂ (.instruction rfl rfl rfl) (.inl rfl) rfl rfl⟩

/-- After that the other function resumes it; the next yield ends the run of
`Execute` that the function is in. -/
theorem resumesTwice_returns_to_host : Initial resumesTwice ∧ ∃ e e' v i ci rest,
    Runs (fun _ _ => true) (fun _ => True) (fun _ _ => True) resumesTwice e ∧
    Step (fun _ _ => true) (fun _ => True) (.instruction i v) e e' ∧ i.op = .OP_YIELD ∧
    v.callsstack = ci :: rest ∧ ci.generator = some 2 ∧ e.resumers 2 = some (.script 2 rest) ∧
    e'.controls = [.host] ∧ ¬ Regains e' (.script 2 rest) := by
  have run₀ : Runs (fun _ _ => true) (fun _ => True) (fun _ _ => True) resumesTwice resumesTwice :=
    .refl
  have run₁ := run₀.tail trivial (@Step.generator _ _ _ (.ofAddress .OT_CLOSURE 0) _ 1 false _ _
    (by simp [Outside, resumesTwice, hostCall]) rfl rfl)
  have run₂ := run₁.tail trivial (.resume (.inr rfl) rfl rfl)
  have run₃ := run₂.tail trivial (.instruction rfl rfl rfl)
  have run₄ := run₃.tail trivial (@Step.call _ _ _ (.ofAddress .OT_CLOSURE 1) _ 2 false _ _
    (by rintro a ⟨⟩) rfl rfl)
  have run₅ := run₄.tail trivial (.instruction rfl rfl rfl)
  refine ⟨resumesTwice_initial, _, _, _, _, _, _, run₅, .instruction rfl rfl rfl, rfl, rfl, rfl, rfl,
    rfl, ?_⟩
  rintro ⟨⟨a, cs, controls, -⟩, -⟩
  cases controls

end Exec

end Lavril
