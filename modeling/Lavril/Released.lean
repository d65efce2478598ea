import Lavril.RunningGenerators
import Lavril.Suspension

/-!
# Generators that are released while they run

A frame does not count among the references to the generator it runs. The
generator has not been released as long as something else refers to it. That
is so in every run whose steps are `Careful`.
-/

namespace Lavril

open LVVM

/-- The values an object of the heap refers to. -/
def HeapObject.values : HeapObject → List LVObject
  | .closure c => c.env.toList ++ c.outervalues ++ c.defaultparams
  | .nativeclosure c => c.outervalues ++ c.env.toList
  | .class c => c.constructor.toList ++ c.call.toList
  | .instance class_ call => class_ :: call.toList
  | .delegable call => call.toList
  | .generator g =>
    g.closure :: (if g.weakThis then g.stack.tail else g.stack) ++
      (g.ci.map fun ci => ci.closure :: ci.literals).getD []
  | .array values => values
  | .outer value => value.toList

namespace LVVM

/-- Something has a reference to the generator, so that it has not been released. -/
def Referenced (v : LVVM) (a : Nat) : Prop :=
  (∃ s, 0 ≤ s ∧ s < v.stacksize ∧ (v.stack s).RefersTo a) ∨
  (∃ b object, v.heap b = some object ∧ ∃ o ∈ object.values, o.RefersTo a) ∨
  ∃ ci ∈ v.callsstack, ci.closure.RefersTo a ∨ ∃ o ∈ ci.literals, o.RefersTo a

end LVVM

/-- The values that a metamethod has been called with. -/
def pushedArgs : List Control → Nat
  | .metamethod nparams :: _ => nparams
  | _ => 0

namespace Exec

/-- `e'` is `e` after C++ code has called something with `n` values. -/
inductive CallsWith (e : Exec) : Nat → Exec → Prop
  | execute {clo k nargs moved v traps} (callee : e.vm.lookup clo = some (.closure k))
      (entry : e.vm.executeCall clo k nargs (e.vm.top - nargs) moved = .loop v traps) :
      CallsWith e nargs (e.enter v traps)
  | generator {clo k nargs moved o v} (callee : e.vm.lookup clo = some (.closure k))
      (entry : e.vm.executeCall clo k nargs (e.vm.top - nargs) moved = .done o v) :
      CallsWith e nargs { e with vm := v }
  | native {clo k nargs v} (callee : e.vm.lookup clo = some (.nativeclosure k))
      (entry : e.vm.enterNative clo k nargs (e.vm.top - nargs) = some v) :
      CallsWith e nargs { e with vm := v.countCall 1, controls := .native :: e.controls }

/-- A step keeps to the slots of the running frame: the values it calls with are there, and
the top is neither below the frame nor outside of the stack. -/
structure Contained (Program : FunctionPrototype → Prop) (e e' : Exec) : Prop where
  top : e.vm.stackbase + pushedArgs e.controls ≤ e.vm.top
  stacksize : e.vm.top ≤ e.vm.stacksize
  arguments : ∀ n, e.CallsWith n e' → e.vm.stackbase ≤ e.vm.top - n
  faults : ∀ {a cs i v v'}, e.controls = .execute a :: cs → e.vm.fetch = some (i, v) →
    v.Interrupted Program v' → e.Raises a cs v' e' →
    ∃ w, v.Faults Program w ∧ e.Raises a cs w e'

end Exec

/-- The generator that is resumed is in a slot of the running frame. -/
def Event.ResumesOwn (e : Exec) : Event → Prop
  | .instruction i v => v.ResumesRegister i
  | .resume _ _ => e.vm.stackbase < e.vm.top
  | _ => True

/-- What is stored takes no running generator its last slot. -/
def Event.Spares (e e' : Exec) : Event → Prop
  | .instruction i v => v.SparesGenerators i
  | .setOuter address => ∀ slot, e.vm.outerSlot address = some slot →
    Lavril.Spares e.vm.stack e.vm.stacksize slot (e'.vm.stack slot) e.vm.stackbase e.vm.callsstack
  | _ => True

namespace Exec

variable {alive : LVVM → LVObject → Bool} {Program : FunctionPrototype → Prop} {e e' : Exec}
  {ev : Event} {a : Activation} {cs : List Control} {v v' : LVVM}

/-- What is asked of a step. -/
structure Careful (Program : FunctionPrototype → Prop) (ev : Event) (e e' : Exec) : Prop where
  unmixed : ev.Unmixed
  balanced : ev.Balanced
  contained : e.Contained Program e'
  own : ev.ResumesOwn e
  spares : ev.Spares e e'

/-- What holds of a machine whose steps have been careful. -/
structure Keeps (e : Exec) : Prop where
  wf : e.vm.WF
  ok : GeneratorsOk e.vm
  held : Held True e
  placed : e.vm.EveryTrap fun t => t.stackbase = 0 ∧ t.Above
  seated : e.vm.Seated

/-- The frame of a native function has no traps. -/
theorem Keeps.native_traps (keeps : Keeps e) (controls : e.controls = .native :: cs) :
    e.vm.frameTraps ≤ 0 := by
  have stacked := keeps.held.stacked
  rw [controls] at stacked
  unfold frameTraps
  generalize e.vm.callsstack = all at stacked ⊢
  cases stacked with
  | @native _ idles lower _ below idle frame =>
    cases idles with
    | nil => exact absurd rfl frame
    | cons ci idles =>
      have plain := (idle ci List.mem_cons_self).plain
      simp [plain.etraps]

theorem Raises.seated (raises : e.Raises a cs v e') (seated : v.Seated) : e'.vm.Seated := by
  cases raises with
  | caught unwind => exact unwind_seated seated rfl unwind
  | uncaught unwind => exact countCall_seated (unwind_seated seated rfl unwind) (-1)

theorem Step.seated (keeps : Keeps e) (careful : Careful Program ev e e')
    (step : Step alive Program ev e e') : e'.vm.Seated := by
  obtain ⟨unmixed, balanced, contained, own, spares⟩ := careful
  have seated := keeps.seated
  have top : e.vm.stackbase ≤ e.vm.top := by have := contained.top; omega
  have saved : e.vm.SavedTraps := ⟨keeps.held.saved trivial, keeps.placed⟩
  cases step with
  | @instruction _ a cs i v r controls fetch run =>
    obtain ⟨calm, -⟩ := keeps.wf.fetch (W := ∅) fetch
    obtain ⟨stays, sameTop, sameSize⟩ := fetch_stays fetch
    have fetched : v.SavedTraps :=
      ⟨saved.counted.same calm.generators, saved.placed.same calm.generators⟩
    have ran := instruction_seated calm.wf (seated.stays stays) (by rw [stays.stackbase]; omega)
      (by have := contained.stacksize; omega) fetched balanced own spares run
    cases r with
    | next => exact ran
    | call w => exact countCall_seated ran w.nativeCalls
    | finish => exact countCall_seated ran (-1)
  | «local» controls fetch op effect _ =>
    exact (seated.stays (fetch_stays fetch).1).stays effect.stays
  | @metamethod _ a cs i v args controls fetch =>
    obtain ⟨stays, sameTop, -⟩ := fetch_stays fetch
    have pushed := pushes_stay (fun _ o => o) args v (by rw [stays.stackbase]; omega)
    exact (seated.stays (stays.trans pushed)).stays (.of_frames rfl rfl rfl rfl rfl)
  | raise controls fetch effect raises =>
    obtain ⟨w, faults, raises⟩ := contained.faults controls fetch effect raises
    exact raises.seated (faults.seated (seated.stays (fetch_stays fetch).1))
  | call outside callee entry =>
    have args := contained.arguments _ (.execute callee entry)
    exact countCall_seated (executeCall_seated seated top args unmixed entry) 1
  | generator outside callee entry =>
    have args := contained.arguments _ (.generator callee entry)
    exact executeCall_done_seated seated top args entry
  | native outside callee entry =>
    have args := contained.arguments _ (.native callee entry)
    exact countCall_seated (seated.rises top (enterNative_rises args entry)) 1
  | resume api found entry =>
    exact countCall_seated (executeResume_seated keeps.wf seated own contained.stacksize saved found
      unmixed entry) 1
  | api api effect => exact seated.stays effect.stays
  | @apiMetamethod _ args api =>
    exact (seated.stays (pushes_stay (fun _ o => o) args e.vm top)).stays
      (.of_frames rfl rfl rfl rfl rfl)
  | failCall outside le => exact seated.rises top (e.vm.rises_pushFrame le _)
  | @setOuter _ address o api found =>
    refine setOuterValue_seated seated fun slot isOpen => ?_
    have stored : (e.vm.setOuterValue address o).stack slot = o := by
      simp only [setOuterValue, isOpen, setSlot_stack_self]
    exact stored ▸ spares slot isOpen
  | @returnNative _ cs ret value v v' controls leave store _ =>
    simp only [leaveNative] at leave
    split at leave
    · cases leave
    · obtain ⟨w, leave, eq⟩ := Option.map_eq_some_iff.mp leave
      cases eq
      have left := leave_seated seated (keeps.native_traps controls) leave
      exact countCall_seated (left.stays store.stays) (-1)
  | failNative controls leave raises =>
    have left := leave_seated seated (keeps.native_traps controls) leave
    exact raises.seated (countCall_seated left (-1))
  | failNativeOutside controls leave outside =>
    exact countCall_seated (leave_seated seated (keeps.native_traps controls) leave) (-1)
  | @returnMetamethod _ nparams cs v' controls store _ =>
    have room := contained.top
    simp only [controls, pushedArgs] at room
    have popped : Stays e.vm (e.vm.pop nparams) :=
      (e.vm.stays_nullSlots (by omega) e.vm.top).trans (.of_frames rfl rfl rfl rfl rfl)
    exact ((seated.stays popped).stays store.stays).stays (.of_frames rfl rfl rfl rfl rfl)
  | @failMetamethod _ nparams a cs e' controls raises =>
    have room := contained.top
    simp only [controls, pushedArgs] at room
    have popped : Stays e.vm (e.vm.pop nparams) :=
      (e.vm.stays_nullSlots (by omega) e.vm.top).trans (.of_frames rfl rfl rfl rfl rfl)
    exact raises.seated ((seated.stays popped).stays (.of_frames rfl rfl rfl rfl rfl))
  | suspend controls awake leave =>
    exact countCall_seated (leave_seated seated (keeps.native_traps controls) leave) (-2)
  | wakeup controls asleep effect => exact countCall_seated (seated.stays effect.stays) 1

/-- The traps of the running frame are at its base. -/
theorem Keeps.running {i : LVInstruction} (keeps : Keeps e) (fetch : e.vm.fetch = some (i, v)) :
    v.RunningTraps fun t => t.stackbase = 0 ∧ t.Above := by
  intro ci rest frames t mem
  have seated : v.Seated := keeps.seated.stays (fetch_stays fetch).1
  unfold Seated at seated
  rw [frames] at seated
  obtain ⟨own, ts, eq, seat, -⟩ := seated.cons_inv
  rw [eq, ← seat.traps.length, Int.toNat_natCast, List.take_left] at mem
  have base := seat.traps.base t mem
  have above := seat.above t mem
  have stacksize := above.stacksize
  refine ⟨?_, above.extarget, ?_⟩
  · simp only [LVExceptionTrap.shift, base]
    omega
  · simp only [LVExceptionTrap.shift]
    omega

theorem Keeps.step (keeps : Keeps e) (careful : Careful Program ev e e')
    (step : Step alive Program ev e e') : Keeps e' := by
  have moves := step.moves keeps.wf
  refine ⟨moves.wf keeps.wf, moves.generatorsOk keeps.ok, ?_, ?_, step.seated keeps careful⟩
  · exact step.held keeps.wf keeps.ok keeps.held careful.unmixed fun _ => careful.balanced
  · exact step.everyTrap keeps.wf keeps.placed fun _ fetch => keeps.running fetch

theorem Initial.keeps (initial : Initial e) (start : 0 ≤ e.vm.stackbase) : Keeps e where
  wf := initial.wf
  ok := initial.generatorsOk
  held := initial.held
  placed a g found := by simp [initial.generators] at found
  seated := by
    unfold Seated
    rw [initial.callsstack]
    exact .nil start

/-! ## Runs -/

inductive CarefulRun (alive : LVVM → LVObject → Bool) (Program : FunctionPrototype → Prop)
    (e : Exec) : Exec → Prop
  | refl : CarefulRun alive Program e e
  | tail {ev : Event} {e₁ e₂ : Exec} (runs : CarefulRun alive Program e e₁)
      (careful : Careful Program ev e₁ e₂) (step : Step alive Program ev e₁ e₂) :
      CarefulRun alive Program e e₂

theorem Keeps.run (keeps : Keeps e) (runs : CarefulRun alive Program e e') : Keeps e' := by
  induction runs with
  | refl => exact keeps
  | tail runs careful step ih => exact ih.step careful step

theorem referenced_of_seats {base size : Int} {stack : Int → LVObject} {frames : List CallInfo}
    {ts : List LVExceptionTrap} {ci : CallInfo} {x : Nat} (seats : Seats stack size base frames ts)
    (mem : ci ∈ frames) (generator : ci.generator = some x) :
    ∃ s, 0 ≤ s ∧ s < size ∧ (stack s).RefersTo x := by
  induction seats with
  | nil => cases mem
  | cons seat below ih =>
    rcases List.mem_cons.mp mem with rfl | mem
    · obtain ⟨-, s, nonneg, -, inside, refers⟩ := seat.generator x generator
      exact ⟨s, nonneg, inside, refers⟩
    · exact ih mem

/-- The generator of a frame is not released while the frame is there. -/
theorem running_generator_referenced {e₀ : Exec} {ci : CallInfo} {x : Nat} (initial : Initial e₀)
    (start : 0 ≤ e₀.vm.stackbase) (runs : CarefulRun alive Program e₀ e)
    (mem : ci ∈ e.vm.callsstack) (generator : ci.generator = some x) : e.vm.Referenced x :=
  .inl (referenced_of_seats ((initial.keeps start).run runs).seated mem generator)

/-- The call of the generator function takes `this`. -/
theorem hostCall_contained (controls : e'.controls = [.host]) :
    Contained Program hostCall e' where
  top := by decide
  stacksize := by decide
  arguments n calls := by
    cases calls with
    | execute callee entry => cases controls
    | native callee entry => cases controls
    | @generator clo k nargs moved o v callee entry =>
      have plain : k = plainFunction true := by
        simp only [lookup, hostCall] at callee
        split at callee
        · split at callee
          · have found := (Option.filter_eq_some_iff.mp callee).1
            simpa using found.symm
          · cases callee
        · cases callee
      subst plain
      have few : n ≤ 1 := by
        by_contra more
        have failed : hostCall.vm.bindParameters (plainFunction true) n (2 - n) = none := by
          have parameters : (plainFunction true).function.parameters.length = 1 := by decide
          have varparams : (plainFunction true).function.varparams = false := by decide
          simp only [bindParameters, parameters, varparams]
          rw [if_neg (by decide), if_pos (by omega), if_neg (by omega)]
        have refused (target : Int) :
            hostCall.vm.startCall clo (plainFunction true) target n (2 - n) false = none := by
          simp only [startCall, startFrame, failed, Option.bind_eq_bind, Option.bind_none]
        have base : hostCall.vm.top - n = 2 - n := rfl
        unfold executeCall at entry
        rw [if_neg (by decide), base, refused] at entry
        cases entry
      simp only [hostCall]
      omega
  faults executes := by cases executes

/-- A resumption by C++ code calls nothing. -/
theorem resumed_contained {address : Nat} {v : LVVM} {traps : Int} (controls : e.controls = [.host])
    (resumers : e.resumers = fun _ => none) (top : e.vm.stackbase ≤ e.vm.top)
    (stacksize : e.vm.top ≤ e.vm.stacksize) : Contained Program e { e.enter v traps with
      resumers := Function.update e.resumers address (some (.host e.controls)) } where
  top := by simpa [controls, pushedArgs] using top
  stacksize := stacksize
  arguments n calls := by
    generalize eq : ({ e.enter v traps with
      resumers := Function.update e.resumers address (some (.host e.controls)) } : Exec) = e' at calls
    have noted := congrArg (·.resumers address) eq
    simp only [Function.update_self] at noted
    cases calls <;> simp [enter, resumers] at noted
  faults executes := by simp [controls] at executes

/-- The function is called and its generator resumed: the generator is referred to. -/
theorem hostCall_referenced : ∃ e : Exec, e.vm.Referenced 1 ∧
    e.vm.callsstack.head?.bind (·.generator) = some 1 := by
  have step₁ : Step (fun _ _ => true) (fun _ => True) (.call (plainFunction true) false) hostCall _ :=
    @Step.generator _ _ _ (.ofAddress .OT_CLOSURE 0) _ 1 _ _ _ (by simp [Outside, hostCall]) rfl rfl
  refine ⟨_, running_generator_referenced hostCall_initial le_rfl
    (.tail (.tail .refl ?call step₁) ?resume (.resume (.inr rfl) rfl rfl)) (.head _) rfl, rfl⟩
  case call => exact ⟨fun _ => rfl, trivial, hostCall_contained rfl, trivial, trivial⟩
  case resume =>
    have below : (0 : Int) ≤ 2 := by decide
    have inside : (2 : Int) ≤ 100 := by decide
    have pushed : (0 : Int) < 2 := by decide
    exact ⟨rfl, trivial, resumed_contained rfl rfl below inside, pushed, trivial⟩

end Exec

end Lavril
