import Lavril.CallTarget
import Lavril.Runs

/-!
# What a generator keeps while it is suspended

`Yield` saves the running frame in the generator and `Resume` restores it, at
whatever stack base the frame then gets.
-/

namespace Lavril

namespace LVVM

variable {v w w' : LVVM} {ci : CallInfo} {target : Nat} {al : LVObject → Bool}

/-- The running frame of `w'` is the frame `ci` of `v`, as `Yield(target)` has
found it. -/
structure Restored (alive : LVObject → Bool) (v : LVVM) (ci : CallInfo) (target : Nat)
    (w w' : LVVM) : Prop where
  frame : ∃ ci' rest, w'.callsstack = ci' :: rest ∧ ci'.ip = ci.ip ∧ ci'.closure = ci.closure ∧
    ci'.literals = ci.literals ∧ ci'.etraps = ci.etraps
  size : w'.top - w'.stackbase = (v.top - v.stackbase).toNat
  this : 0 < w'.top - w'.stackbase → w'.stack w'.stackbase =
    if (v.stack v.stackbase).type.refCounted ∧ alive (v.stack v.stackbase) = false then .null
    else v.stack v.stackbase
  registers : ∀ n : Nat, 0 < n → n < w'.top - w'.stackbase → w'.stack (w'.stackbase + n) =
    if n < target then v.stack (v.stackbase + n) else .null
  etraps : w'.etraps =
    (v.etraps.take ci.etraps.toNat).map (·.shift (w'.stackbase - v.stackbase)) ++ w.etraps

theorem new_resting (clo : LVObject) : (LVGenerator.new clo).Resting where
  etraps := rfl
  stack n _ := by simp [LVGenerator.new]

/-- `Resume` restores what `Yield` has saved. -/
theorem Saved.restored {g g' g₁ : LVGenerator} {w₀ : LVVM}
    {a : Nat} {saved ci' : CallInfo} {t : Int} (rest : g.Resting) (kept : Saved v ci g target g')
    (is : g'.ci = some saved) (resumed : Resumed al w a g' t saved ci' g₁ w')
    (etraps : w.etraps = w₀.etraps) : Restored al v ci target w₀ w' := by
  rw [kept.frame, Option.some.injEq] at is
  subst is
  have size : (g'.stack.length : Int) = w'.top - w'.stackbase := by
    rw [resumed.top, resumed.stackbase]
    omega
  refine ⟨⟨ci', _, resumed.frames, ?_⟩, ?_, fun pos => ?_, fun n pos lt => ?_, ?_⟩
  · rw [resumed.frame]
    exact ⟨rfl, rfl, rfl, rfl⟩
  · rw [← size, kept.size]
  · rw [resumed.stackbase, resumed.this, LVGenerator.this, kept.weak, kept.this (by omega)]
  · rw [resumed.stackbase, resumed.registers n pos (by omega),
      kept.registers n pos (by omega), rest.stack n pos]
  · have few := kept.few rest
    rw [resumed.etraps]
    simp only
    rw [Nat.sub_eq_zero_of_le few, List.drop_zero, kept.etraps, rest.etraps, List.nil_append,
      List.map_map, resumed.stackbase, etraps]
    congr 2
    funext et
    rw [Function.comp_apply, LVExceptionTrap.shift_shift, Int.sub_eq_add_neg]

theorem Restored.setRoot (restored : Restored al v ci target w w') :
    Restored al v ci target w w'.setRoot := by
  obtain ⟨ci', rest, frames, same⟩ := restored.frame
  refine ⟨⟨{ ci' with root := true }, rest, ?_, same⟩, restored.size, restored.this,
    restored.registers, restored.etraps⟩
  simp only [LVVM.setRoot, frames, List.modifyHead_cons]

end LVVM

namespace Exec

open LVVM

/-- The step to `e'` calls `Yield(target)` for the generator `a`, whose frame in
`v` is `ci`. -/
inductive Suspends (alive : LVVM → LVObject → Bool) (Program : FunctionPrototype → Prop)
    (e : Exec) : LVVM → CallInfo → Nat → Nat → Exec → Prop
  | yield {i v ci rest a e'} (step : Step alive Program (.instruction i v) e e')
      (op : i.op = .OP_YIELD) (frames : v.callsstack = ci :: rest)
      (generator : ci.generator = some a) : Suspends alive Program e v ci a i.arg2 e'
  /-- The call of a generator function. -/
  | create {ev e'} {w v v' : LVVM} {clo k target args stackbase ci rest}
      (step : Step alive Program ev e e') (wf : w.WF)
      (start : w.startFrame clo k target args stackbase false = some v)
      (frames : v.callsstack = ci :: rest) (create : v.startGenerator clo k target = some v')
      (generator : e'.vm.generatorAt v.next = v'.generatorAt v.next) :
      Suspends alive Program e v ci v.next k.function.stacksize e'

/-- The step to `e'` calls `Resume` for the generator `a`. -/
inductive Wakes (alive : LVVM → LVObject → Bool) (Program : FunctionPrototype → Prop) (e : Exec)
    (a : Nat) : (LVObject → Bool) → Exec → Prop
  | script {i v e'} (step : Step alive Program (.instruction i v) e e')
      (resumes : a ∈ (Event.instruction i v).resumes) : Wakes alive Program e a (alive v) e'
  | host {g e'} (step : Step alive Program (.resume a g) e e') :
      Wakes alive Program e a (alive e.vm) e'

variable {alive : LVVM → LVObject → Bool} {Program : FunctionPrototype → Prop}
  {Allowed : Exec → Event → Prop} {e e' e₀ e₁ e₂ e₃ : Exec} {v w : LVVM} {ci : CallInfo}
  {a target : Nat}

theorem advance_generatorAt (e : Exec) (act : Activation) (cs : List Control) (r : Ran) (a : Nat) :
    (e.advance act cs r).vm.generatorAt a = r.vm.generatorAt a := by
  cases r <;> rfl

/-- What a step that suspends a generator leaves in it. -/
theorem Suspends.saved (ok : e.vm.WF ∧ GeneratorsOk e.vm)
    (suspends : Suspends alive Program e v ci a target e') :
    ∃ g g', g.Resting ∧ Saved v ci g target g' ∧ e'.vm.generatorAt a = some g' := by
  cases suspends with
  | @yield i v ci rest a e' step op frames generator =>
    cases step with
    | @instruction _ b cs i v r controls fetch run =>
      obtain ⟨calm, touched⟩ := ok.1.fetch (W := ∅) fetch
      have fetched : Move ∅ ∅ e.vm v := .of_calm calm (generatorFrames_touched touched)
      have ok := fetched.generatorsOk ok.2
      have run : v.yieldReturn i = some r := by simpa only [LVVM.instruction, op] using run
      obtain ⟨ci', a', g, g', v', frames', generator', found, running, -, changed, saved, rfl⟩ :=
        calm.wf.yield_return (W := ∅) run
      rw [frames, List.cons.injEq] at frames'
      obtain ⟨rfl, rfl⟩ := frames'
      rw [generator, Option.some.injEq] at generator'
      subst generator'
      refine ⟨g, g', ok.resting a g found running, saved, ?_⟩
      rw [advance_generatorAt]
      split <;> exact (changed.generators a).trans (if_pos rfl)
  | create step wf start frames create generator =>
    obtain ⟨calm, ci', plain, frames'⟩ : Calm ∅ _ _ ∧ _ := wf.calm_startFrame start
    rw [frames, List.cons.injEq] at frames'
    obtain ⟨rfl, rfl⟩ := frames'
    obtain ⟨-, -, g', changed, saved⟩ := calm.wf.startGenerator (W := ∅) frames plain create
    refine ⟨_, g', new_resting _, saved, generator.trans ?_⟩
    exact (changed.generators v.next).trans (if_pos rfl)

theorem Suspends.step (suspends : Suspends alive Program e v ci a target e') :
    ∃ ev, Step alive Program ev e e' := by
  cases suspends with
  | yield step op frames generator => exact ⟨_, step⟩
  | create step wf start frames create generator => exact ⟨_, step⟩

/-- What a step that resumes `a` finds in it is what its frame gets back. -/
theorem Wakes.restored {g g' : LVGenerator} {al : LVObject → Bool} (wf : e.vm.WF)
    (rest : g.Resting) (kept : Saved v ci g target g') (found : e.vm.generatorAt a = some g')
    (wakes : Wakes alive Program e a al e')
    (entered : e'.vm.callsstack.head?.bind (·.generator) = some a) :
    Restored al v ci target e.vm e'.vm := by
  have notPlain : ∀ {ci : CallInfo} {rest}, e'.vm.callsstack = ci :: rest → ¬ ci.Plain := by
    intro ci rest frames plain
    simp [frames, plain.generator] at entered
  cases wakes with
  | @script i u e' step resumes =>
    cases step with
    | @instruction _ b cs i u r controls fetch run =>
      obtain ⟨calm, touched⟩ := wf.fetch (W := ∅) fetch
      obtain ⟨g₂, resumes⟩ := resumes
      rcases calm.wf.instruction (W := {a | u.writes i = some a}) (fun a writes => writes) run with
        ⟨none, -⟩ | ⟨a₂, g₂', resumes', found', did⟩
      · rw [none] at resumes
        cases resumes
      · rw [resumes] at resumes'
        cases resumes'
        rw [calm.generators, found, Option.some.injEq] at found'
        subst found'
        cases did with
        | resumed calm' frames stackbase top suspended is resumed changed =>
          exact kept.restored rest is resumed (calm'.etraps.trans calm.etraps)
        | stuck suspended' calm' plain frames closure => exact absurd plain (notPlain frames)
  | @host g₂ e' step =>
    cases step with
    | @resume _ _ _ u traps api of entry =>
      have found' := generatorOf_found of
      rw [found, Option.some.injEq] at found'
      subst found'
      have reentered : Reentered ∅ _ _ _ _ _ _ := wf.executeResume_loop found entry
      cases reentered with
      | resumed suspended is resumed changed =>
        have restored := (kept.restored rest is resumed rfl : Restored _ v ci target e.vm _).setRoot
        exact ⟨restored.frame, restored.size, restored.this, restored.registers, restored.etraps⟩
      | failed suspended => simp [enter, countCall, LVVM.setRoot, pushFrame] at entered
      | refused notSuspended => exact absurd kept.state notSuspended

/-- A generator that is resumed goes on where it was suspended, whatever has
happened in between. -/
theorem resume_restores {al : LVObject → Bool} (initial : Initial e₀)
    (reached : Runs alive Program (fun _ _ => True) e₀ e)
    (suspends : Suspends alive Program e v ci a target e₁)
    (sleeps : Runs alive Program (fun _ ev => a ∉ ev.resumes) e₁ e₂)
    (wakes : Wakes alive Program e₂ a al e₃)
    (entered : e₃.vm.callsstack.head?.bind (·.generator) = some a) :
    Restored al v ci target e₂.vm e₃.vm := by
  have ok := reached.ok ⟨initial.wf, initial.generatorsOk⟩
  obtain ⟨g, g', rest, kept, found⟩ := suspends.saved ok
  obtain ⟨ev, step⟩ := suspends.step
  have ok₁ := (step.moves ok.1).wf ok.1
  have ok₁' := (step.moves ok.1).generatorsOk ok.2
  have found := sleeps.keeps_suspended ⟨ok₁, ok₁'⟩ found kept.state fun _ _ => id
  exact wakes.restored (sleeps.ok ⟨ok₁, ok₁'⟩).1 rest kept found entered

/-- The program around the machine has pushed a generator function and `this`. -/
def hostCall : Exec where
  vm := {
    stack s := if s = 0 then .ofAddress .OT_CLOSURE 0 else .null
    stacksize := 100, stackbase := 0, top := 2, callsstack := [], alloccallsstacksize := 4
    nmetamethodscall := 0, nnativecalls := 0, etraps := [], openouters := []
    heap address := if address = 0 then some (.closure (plainFunction true)) else none
    next := 1 }
  controls := [.host]
  suspended := none
  resumers _ := none

theorem hostCall_initial : Initial hostCall where
  controls := rfl
  suspended := rfl
  callsstack := rfl
  etraps := rfl
  generators a := by
    simp only [generatorAt, hostCall]
    split
    · rename_i g found
      split at found <;> cases found
    · rfl
  wf := ⟨fun a le => if_neg (by simp only [hostCall] at le; omega), nofun, .nil, .nil⟩

/-- The function is called and its generator resumed. -/
theorem hostCall_resumes : ∃ (e₁ e₃ : Exec) (v : LVVM) (ci : CallInfo),
    Suspends (fun _ _ => true) (fun _ => True) hostCall v ci 1
      (plainFunction true).function.stacksize e₁ ∧
    Restored (fun _ => true) v ci (plainFunction true).function.stacksize e₁.vm e₃.vm := by
  have start : hostCall.vm.startFrame (.ofAddress .OT_CLOSURE 0) (plainFunction true) 1 1 1 false
      = some _ := rfl
  have step₁ : Step (fun _ _ => true) (fun _ => True) (.call (plainFunction true) false) hostCall _ :=
    @Step.generator _ _ _ (.ofAddress .OT_CLOSURE 0) _ 1 _ _ _ (by simp [Outside, hostCall]) rfl rfl
  have suspends := @Suspends.create (fun _ _ => true) (fun _ => True) hostCall _ _ hostCall.vm _ _
    (.ofAddress .OT_CLOSURE 0) (plainFunction true) 1 1 1 _ _ step₁ hostCall_initial.wf start
    rfl rfl rfl
  refine ⟨_, _, _, _, suspends, resume_restores hostCall_initial .refl suspends .refl
    (.host (.resume (.inr rfl) rfl rfl)) rfl⟩

end Exec

end Lavril
