import Lavril.Parameters
import Lavril.Pending

/-!
# Calls that fail

`LVVM::Call` fails before its callee runs, or because the callee has failed. Then
the frames and the traps are to be those of the caller.
-/

namespace Lavril

open LVVM

/-- How `LVVM::Call` begins. -/
inductive Begun where
  /-- It returns false. -/
  | failed (v : LVVM)
  /-- It returns true, and nothing has run. -/
  | returned (v : LVVM)
  /-- The loop of `Execute` starts, with that counter of traps. -/
  | execute (v : LVVM) (traps : Int)
  /-- The native function is called. -/
  | native (v : LVVM)
  | undefined

namespace LVVM

variable (v : LVVM)

/-- What a `StartCall` that has failed leaves. -/
def startCallFailed (k : LVClosure) (args : Nat) (stackbase : Int) : LVVM :=
  match v.bindParameters k args stackbase with
  | none => v
  | some v => (v.setEnv k.env stackbase).pushFrame stackbase (stackbase + k.function.stacksize)

/-- `Execute` with `ET_CALL`. -/
def beginExecute (clo : LVObject) (k : LVClosure) (nargs : Nat) (stackbase : Int)
    (moved : Bool) : Begun :=
  if v.nnativecalls + 1 > MAX_NATIVE_CALLS then .failed v
  else
    match v.executeCall clo k nargs stackbase moved with
    | .fail _ => .failed (v.startCallFailed k nargs stackbase)
    | .done _ v => .returned v
    | .loop v traps => .execute v traps
    | .undefined => .undefined

/-- `CallNative`. -/
def beginNative (clo : LVObject) (k : LVNativeClosure) (nargs : Nat) (newbase : Int) : Begun :=
  if v.nnativecalls + 1 > MAX_NATIVE_CALLS then .failed v
  else if v.acceptsArgs k nargs newbase = false then .failed v
  else
    match v.enterNative clo k nargs newbase with
    | none => .failed (v.pushFrame newbase (newbase + nargs + k.outervalues.length))
    | some v => .native v

/-- `LVVM::Call`. -/
def call (closure : LVObject) (nparams : Nat) (stackbase : Int) (moved : Bool) : Begun :=
  match v.lookup closure with
  | some (.closure k) => v.beginExecute closure k nparams stackbase moved
  | some (.nativeclosure k) => v.beginNative closure k nparams stackbase
  | some (.class c) =>
    let (inst, v) := v.create .OT_INSTANCE (.instance closure c.call)
    match c.constructor with
    | none => .returned v
    | some constr =>
      match v.lookup constr with
      | some (.closure k) => (v.setSlot stackbase inst).beginExecute constr k nparams stackbase moved
      | some (.nativeclosure k) => (v.setSlot stackbase inst).beginNative constr k nparams stackbase
      | _ => .returned v
  | _ => .failed v

/-- `EnterFrame` refuses a frame that ends there. -/
def Refuses (newtop : Int) : Prop :=
  newtop + MIN_STACK_OVERHEAD > v.stacksize ∧ v.nmetamethodscall ≠ 0

/-- The call of a script function comes to `EnterFrame`, which refuses. -/
def ExecuteRefused (k : LVClosure) (nargs : Nat) (stackbase : Int) : Prop :=
  v.nnativecalls + 1 ≤ MAX_NATIVE_CALLS ∧ (v.bindParameters k nargs stackbase).isSome ∧
    v.Refuses (stackbase + k.function.stacksize)

def NativeRefused (k : LVNativeClosure) (nargs : Nat) (newbase : Int) : Prop :=
  v.nnativecalls + 1 ≤ MAX_NATIVE_CALLS ∧ v.acceptsArgs k nargs newbase = true ∧
    v.Refuses (newbase + nargs + k.outervalues.length)

/-- The call comes to `EnterFrame`, which refuses. -/
def CallRefused (closure : LVObject) (nparams : Nat) (stackbase : Int) : Prop :=
  match v.lookup closure with
  | some (.closure k) => v.ExecuteRefused k nparams stackbase
  | some (.nativeclosure k) => v.NativeRefused k nparams stackbase
  | some (.class c) =>
    let (inst, v) := v.create .OT_INSTANCE (.instance closure c.call)
    match c.constructor with
    | none => False
    | some constr =>
      match v.lookup constr with
      | some (.closure k) => (v.setSlot stackbase inst).ExecuteRefused k nparams stackbase
      | some (.nativeclosure k) => (v.setSlot stackbase inst).NativeRefused k nparams stackbase
      | _ => False
  | _ => False

variable {v} {v' w : LVVM} {clo : LVObject} {nparams : Nat} {stackbase : Int} {moved : Bool}

/-! ## Calls that fail before the callee runs -/

theorem bookkeeping_pushFrame_ne (same : w.bookkeeping = v.bookkeeping) (newbase newtop : Int) :
    (w.pushFrame newbase newtop).bookkeeping ≠ v.bookkeeping := by
  intro eq
  have frames := congrArg (·.callsstack.length) eq
  have below := congrArg (·.callsstack.length) same
  simp only [bookkeeping, pushFrame, List.length_cons] at frames below
  omega

theorem startCall_none {k : LVClosure} {target : Int} {args : Nat}
    (run : v.startCall clo k target args stackbase false = none)
    (parameters : (v.bindParameters k args stackbase).isSome) :
    v.Refuses (stackbase + k.function.stacksize) := by
  by_contra accepts
  have room : v.nmetamethodscall = 0 ∨
      stackbase + k.function.stacksize + MIN_STACK_OVERHEAD ≤ v.stacksize := by
    by_cases metamethod : v.nmetamethodscall = 0
    · exact .inl metamethod
    · exact .inr (Int.not_lt.mp fun larger => accepts ⟨larger, metamethod⟩)
  obtain ⟨w, start⟩ := startFrame_isSome clo target parameters room
  obtain ⟨ci, frames, -⟩ := (startFrame_bookkeeping start).frame
  obtain ⟨w', made⟩ := startGenerator_isSome clo k target frames
  simp only [startCall, start, Option.bind_eq_bind, Option.bind_some, made, Option.pure_def] at run
  split at run <;> cases run

theorem startCallFailed_iff {k : LVClosure} {args : Nat} (w : LVVM)
    (same : v.bookkeeping = w.bookkeeping)
    (failed : (v.bindParameters k args stackbase).isSome →
      v.Refuses (stackbase + k.function.stacksize)) :
    (v.startCallFailed k args stackbase).bookkeeping = w.bookkeeping ↔
      ¬ ((v.bindParameters k args stackbase).isSome ∧
        v.Refuses (stackbase + k.function.stacksize)) := by
  cases bind : v.bindParameters k args stackbase with
  | none => simp [startCallFailed, bind, same]
  | some bound =>
    have refused := failed (by rw [bind]; rfl)
    simp only [startCallFailed, bind, Option.isSome_some, refused, and_self, not_true_eq_false,
      iff_false]
    apply bookkeeping_pushFrame_ne
    rw [setEnv_bookkeeping, bindParameters_bookkeeping bind, same]

theorem beginExecute_failed_iff {k : LVClosure} (w : LVVM) (same : v.bookkeeping = w.bookkeeping)
    (run : v.beginExecute clo k nparams stackbase moved = .failed v') :
    v'.bookkeeping = w.bookkeeping ↔ ¬ v.ExecuteRefused k nparams stackbase := by
  rw [beginExecute] at run
  split at run
  · rename_i limit
    cases run
    refine iff_of_true same fun refused => ?_
    have := refused.1
    omega
  · rename_i limit
    split at run <;> cases run
    rename_i entry
    simp only [executeCall, limit, if_false] at entry
    split at entry
    · rename_i start
      rw [startCallFailed_iff w same (startCall_none start), ExecuteRefused,
        and_iff_right (Nat.not_lt.mp limit)]
    · split at entry
      · cases entry
      · split at entry <;> cases entry

theorem beginNative_failed_iff {k : LVNativeClosure} (w : LVVM)
    (same : v.bookkeeping = w.bookkeeping)
    (run : v.beginNative clo k nparams stackbase = .failed v') :
    v'.bookkeeping = w.bookkeeping ↔ ¬ v.NativeRefused k nparams stackbase := by
  rw [beginNative] at run
  split at run
  · rename_i limit
    cases run
    refine iff_of_true same fun refused => ?_
    have := refused.1
    omega
  · rename_i limit
    split at run
    · rename_i rejected
      cases run
      refine iff_of_true same fun refused => ?_
      rw [refused.2.1] at rejected
      cases rejected
    · rename_i accepted
      split at run <;> cases run
      rename_i enter
      have refused : v.Refuses (stackbase + nparams + k.outervalues.length) := by
        simp only [enterNative, limit, accepted, if_false, Option.bind_eq_bind,
          Option.pure_def] at enter
        cases frame : v.enterFrame stackbase (stackbase + nparams + k.outervalues.length) false with
        | none => exact (enterFrame_eq_none fun tail => by cases tail).mp frame
        | some entered => simp [frame] at enter
      refine iff_of_false (bookkeeping_pushFrame_ne same _ _) (not_not_intro ⟨?_, ?_, refused⟩)
      · exact Nat.not_lt.mp limit
      · exact Bool.eq_true_of_not_eq_false accepted

/-- A call that fails before its callee runs leaves the frames alone, unless `EnterFrame`
refuses. -/
theorem call_failed_iff (run : v.call clo nparams stackbase moved = .failed v') :
    v'.bookkeeping = v.bookkeeping ↔ ¬ v.CallRefused clo nparams stackbase := by
  rw [call] at run
  rw [CallRefused]
  split at run
  · exact beginExecute_failed_iff v rfl run
  · exact beginNative_failed_iff v rfl run
  · rename_i c found
    simp only at run ⊢
    split at run
    · cases run
    · split at run
      · exact beginExecute_failed_iff v rfl run
      · exact beginNative_failed_iff v rfl run
      · cases run
  · cases run
    exact iff_of_true rfl not_false

end LVVM

namespace Exec

variable {alive : LVVM → LVObject → Bool} {Program : FunctionPrototype → Prop}
  {e e' e₀ e₁ e₂ e₃ : Exec} {ev : Event} {a : Activation} {cs : List Control} {v v' : LVVM}
  {s : Option Activation} {Bottom : List Control → Bookkeeping → Prop} {b c : Bookkeeping}
  {P : LVExceptionTrap → Prop}

/-! ## What holds of every machine -/

theorem Raises.everyTrap (raises : e.Raises a cs v e') (every : v.EveryTrap P) (wf : v.WF) :
    e'.vm.EveryTrap P := by
  cases raises with
  | caught unwind => exact every.unwind wf rfl unwind
  | uncaught unwind => exact (every.unwind wf rfl unwind).same fun _ => rfl

theorem Step.everyTrap (wf : e.vm.WF) (every : e.vm.EveryTrap P)
    (running : ∀ {a cs i v}, e.controls = .execute a :: cs → e.vm.fetch = some (i, v) →
      v.RunningTraps P)
    (step : Step alive Program ev e e') : e'.vm.EveryTrap P := by
  cases step with
  | @instruction _ a cs i v r controls fetch run =>
    obtain ⟨calm, -⟩ := wf.fetch (W := {a | v.writes i = some a}) fetch
    have fetched : v.EveryTrap P := every.same calm.generators
    have ran : r.vm.EveryTrap P := by
      rcases calm.wf.instruction (fun a writes => writes) run with
        ⟨-, did⟩ | ⟨x, g, -, found, did⟩
      · exact fetched.did (running controls fetch) did
      · exact fetched.resumption found did
    cases r with
    | next => exact ran
    | call => exact ran.same fun _ => rfl
    | finish => exact ran.same fun _ => rfl
  | «local» controls fetch op effect top =>
    obtain ⟨calm, -⟩ := wf.fetch (W := ∅) fetch
    exact (every.same calm.generators).same effect.generators
  | metamethod controls fetch =>
    obtain ⟨calm, -⟩ := wf.fetch (W := ∅) fetch
    exact (every.same calm.generators).same (calm.wf.calm_pushes (W := ∅) (fun _ o => o) _).1.generators
  | raise controls fetch effect raises =>
    obtain ⟨calm, -⟩ := wf.fetch (W := ∅) fetch
    obtain ⟨interrupted, -⟩ := calm.wf.interrupted (W := ∅) effect
    exact raises.everyTrap ((every.same calm.generators).same interrupted.generators) interrupted.wf
  | call outside callee entry =>
    obtain ⟨w, rfl, -, -, call⟩ := wf.executeCall_loop (W := ∅) entry
    have called : w.EveryTrap P := by
      split at call
      · exact every.created call
      · exact every.same call.1.generators
    exact called.same fun _ => rfl
  | generator outside callee entry => exact every.created (wf.executeCall_done (W := ∅) entry)
  | native outside callee entry =>
    obtain ⟨calm, -⟩ := wf.enterNative (W := ∅) entry
    exact (every.same calm.generators).same fun _ => rfl
  | @resume _ x g v traps api found entry =>
    have at_ := generatorOf_found found
    have pushed : Calm ∅ e.vm (e.vm.push .null) := wf.calm_push .null
    have every := every.same pushed.generators
    have entered : v.EveryTrap P := by
      cases wf.executeResume_loop (W := ∅) at_ entry with
      | resumed suspended is resumed changed =>
        exact (every.resumed ((pushed.generators x).trans at_) resumed changed).same fun _ => rfl
      | failed => exact every.same fun _ => rfl
      | refused => exact every.same fun _ => rfl
    exact entered.same fun _ => rfl
  | api api effect => exact every.same effect.generators
  | apiMetamethod api => exact every.same (wf.calm_pushes (W := ∅) (fun _ o => o) _).1.generators
  | failCall => exact every.same fun _ => rfl
  | @setOuter _ address o api found =>
    obtain ⟨x, found⟩ := found
    have set : Calm {address} e.vm _ := wf.calm_setOuterValue found (Set.mem_singleton address) o
    exact every.same set.generators
  | @returnNative _ cs ret value v v' controls leave store top =>
    simp only [leaveNative] at leave
    split at leave
    · cases leave
    · obtain ⟨w, leave, eq⟩ := Option.map_eq_some_iff.mp leave
      cases eq
      obtain ⟨calm, -⟩ := wf.calm_leaveFrame (W := ∅) leave
      exact ((every.same calm.generators).same store.generators).same fun _ => rfl
  | failNative controls leave raises =>
    obtain ⟨calm, -⟩ := wf.calm_leaveFrame (W := ∅) leave
    exact raises.everyTrap ((every.same calm.generators).same fun _ => rfl)
      (calm.wf.of_eq rfl rfl rfl)
  | failNativeOutside controls leave outside =>
    obtain ⟨calm, -⟩ := wf.calm_leaveFrame (W := ∅) leave
    exact (every.same calm.generators).same fun _ => rfl
  | @returnMetamethod _ nparams cs v' controls store top =>
    have popped : (e.vm.pop nparams).EveryTrap P := every.same fun _ => rfl
    exact (popped.same store.generators).same fun _ => rfl
  | @failMetamethod _ nparams a cs e' controls raises =>
    exact raises.everyTrap (every.same fun _ => rfl) (wf.of_eq rfl rfl rfl)
  | suspend controls awake leave =>
    obtain ⟨calm, -⟩ := wf.calm_leaveFrame (W := ∅) leave
    exact (every.same calm.generators).same fun _ => rfl
  | wakeup controls asleep effect => exact (every.same effect.generators).same fun _ => rfl

theorem Step.trapBases (wf : e.vm.WF) (pending : Pending s Bottom e.controls e.vm.bookkeeping)
    (bases : e.vm.TrapBases) (step : Step alive Program ev e e') : e'.vm.TrapBases := by
  refine step.everyTrap wf bases fun controls fetch => ?_
  rw [controls] at pending
  obtain ⟨b, -, onTop⟩ := pending.execute
  exact .bases (onTop.similar (fetch_similar fetch))

/-- No call is above the C++ stack. -/
def Nothing (cs : List Control) (_ : Bookkeeping) : Prop := cs = []

/-- What holds of a machine whose calls have left no frame behind. -/
structure Sound (e : Exec) : Prop where
  wf : e.vm.WF
  ok : GeneratorsOk e.vm
  held : Held True e
  bases : e.vm.TrapBases
  pending : Pending e.suspended Nothing e.controls e.vm.bookkeeping

theorem Sound.resumables (sound : Sound e) : Resumables e.vm :=
  ⟨sound.held.saved trivial, sound.bases⟩

theorem Held.controls_ne_nil {Strict : Prop} (held : Held Strict e) : e.controls ≠ [] := by
  intro none
  have stacked := held.stacked
  rw [none] at stacked
  cases stacked

theorem note_suspended (e : Exec) (v : LVVM) (i : LVInstruction) :
    (e.note v i).suspended = e.suspended := by
  unfold note
  split <;> rfl

theorem advance_suspended (e : Exec) (a : Activation) (cs : List Control) (r : Ran) :
    (e.advance a cs r).suspended = e.suspended := by
  cases r <;> rfl

theorem Raises.suspended (raises : e.Raises a cs v e') : e'.suspended = e.suspended := by
  cases raises <;> rfl

/-- What suspends the machine and what wakes it. -/
theorem Step.suspended (step : Step alive Program ev e e') : e'.suspended = e.suspended ∨
    (∃ a v, e.controls = [.native, .execute a, .host] ∧ e.suspended = none ∧
      e.vm.leaveFrame = some v ∧ e'.controls = [.host] ∧ e'.suspended = some a ∧
      e'.vm.bookkeeping = v.bookkeeping) ∨
    ∃ a v, e.controls = [.host] ∧ e.suspended = some a ∧ e.vm.Local Program v ∧
      e'.controls = [.execute a, .host] ∧ e'.suspended = none ∧
      e'.vm.bookkeeping = v.bookkeeping := by
  cases step with
  | instruction => exact .inl ((advance_suspended ..).trans (note_suspended ..))
  | raise _ _ _ raises => exact .inl raises.suspended
  | failNative _ _ raises => exact .inl raises.suspended
  | failMetamethod _ raises => exact .inl raises.suspended
  | suspend controls awake leave =>
    exact .inr (.inl ⟨_, _, controls, awake, leave, rfl, rfl, rfl⟩)
  | wakeup controls asleep effect =>
    exact .inr (.inr ⟨_, _, controls, asleep, effect, rfl, rfl, rfl⟩)
  | _ => exact .inl rfl

theorem Pending.suspend (pending : Pending none Nothing [.native, .execute a, .host] v.bookkeeping)
    (leave : v.leaveFrame = some v') : Pending (some a) Nothing [.host] v'.bookkeeping := by
  rcases leave_rest pending leave with bottom | below
  · cases bottom
  · obtain ⟨b, bottom | below, onTop⟩ := below.execute
    · cases bottom
    · cases below with
      | first bottom level =>
        cases level with
        | awake => exact .first (b := v'.bookkeeping) rfl (.asleep rfl rfl rfl onTop)
        | asleep asleep => cases asleep
      | next below => cases below

theorem Pending.wakeup (pending : Pending (some a) Nothing [.host] c) :
    Pending none Nothing [.execute a, .host] c := by
  cases pending with
  | first bottom level =>
    cases level with
    | awake awake => cases awake
    | @asleep _ b₀ c asleep callsstack etraps onTop =>
      cases asleep
      obtain ⟨frames, base, top, traps⟩ := b₀
      obtain rfl := callsstack
      obtain rfl := etraps
      have host : Pending none Nothing [.host] ⟨[], base, top, []⟩ :=
        .first (b := ⟨[], base, top, []⟩) rfl (.awake rfl)
      exact .next host (.execute onTop)
  | next below => cases below

theorem Sound.step (sound : Sound e) (unmixed : ev.Unmixed) (balanced : ev.Balanced)
    (kept : ¬ e.LeavesFrame e') (step : Step alive Program ev e e') : Sound e' := by
  have moves := step.moves sound.wf
  have held := step.held sound.wf sound.ok sound.held unmixed fun _ => balanced
  refine ⟨moves.wf sound.wf, moves.generatorsOk sound.ok, held,
    step.trapBases sound.wf sound.pending sound.bases, ?_⟩
  have pending := sound.pending
  rcases step.suspended with awake | ⟨a, v, controls, awake, leave, controls', asleep, same⟩ |
    ⟨a, v, controls, asleep, effect, controls', awake, same⟩
  · rw [awake]
    have outside : ∀ a cs b, ¬ Nothing (.execute a :: cs) b := fun a cs b none => by cases none
    rcases step.pending outside sound.wf sound.resumables pending unmixed balanced kept awake with
      pending | ⟨b, none, -⟩
    · exact pending
    · exact absurd none held.controls_ne_nil
  · rw [controls, awake] at pending
    rw [controls', asleep, same]
    exact Pending.suspend pending leave
  · rw [controls, asleep] at pending
    rw [controls', awake, same]
    exact (Pending.wakeup pending).similar effect.similar

theorem Initial.sound (initial : Initial e) : Sound e where
  wf := initial.wf
  ok := initial.generatorsOk
  held := initial.held
  bases a g found := by simp [initial.generators] at found
  pending := by
    have level : CallLevel none ⟨[], 0, 0, []⟩ .host ⟨[], e.vm.stackbase, e.vm.top, []⟩ := .awake rfl
    rw [initial.controls, initial.suspended, bookkeeping, initial.callsstack, initial.etraps]
    exact .first rfl level

/-! ## Calls that have run -/

/-- The conditions on the steps of a run: `Unmixed`, `Balanced`, and no call leaves its
frame behind. `Within` holds of every state after the first one. -/
inductive Keeping (alive : LVVM → LVObject → Bool) (Program : FunctionPrototype → Prop)
    (Within : Exec → Prop) (e : Exec) : Exec → Prop
  | refl : Keeping alive Program Within e e
  | tail {ev : Event} {e₁ e₂ : Exec} (runs : Keeping alive Program Within e e₁) (unmixed : ev.Unmixed)
      (balanced : ev.Balanced) (kept : ¬ e₁.LeavesFrame e₂)
      (step : Step alive Program ev e₁ e₂) (within : Within e₂) :
      Keeping alive Program Within e e₂

theorem Sound.keeping {Within : Exec → Prop} (sound : Sound e)
    (runs : Keeping alive Program Within e e') : Sound e' := by
  induction runs with
  | refl => exact sound
  | tail runs unmixed balanced kept step within ih => exact ih.step unmixed balanced kept step

/-- The callee of a call runs. -/
def enters (e : Exec) : Begun → Option Exec
  | .execute v traps => some (e.enter v traps)
  | .native v => some { e with vm := v.countCall 1, controls := .native :: e.controls }
  | _ => none

/-- `Execute` does not run when a generator function is called. -/
def Notices (v : LVVM) (clo : LVObject) (moved : Bool) : Prop :=
  match v.lookup clo with
  | some (.closure k) => (Event.call k moved).Unmixed
  | some (.class c) => ∀ constr k, c.constructor = some constr →
    (v.create .OT_INSTANCE (.instance clo c.call)).2.lookup constr = some (.closure k) →
    (Event.call k moved).Unmixed
  | _ => True

/-- The C++ code that makes a call in `e` is on top. -/
def At (e : Exec) (cs : List Control) (b : Bookkeeping) : Prop :=
  cs = e.controls ∧ b = e.vm.bookkeeping

theorem not_leavesFrame (ne : e'.controls ≠ e.controls) : ¬ e.LeavesFrame e' := by
  rintro ⟨-, newbase, newtop, rfl⟩
  exact ne rfl

theorem Pending.above (pending : Pending s (At e) cs c) : e.controls.length < cs.length := by
  induction pending with
  | first bottom level =>
    rw [bottom.1]
    exact Nat.lt_succ_self _
  | next below level ih => exact Nat.lt_succ_of_lt ih
  | metamethod below similar ih => exact Nat.lt_succ_of_lt ih

/-- An object is created, and the stack is written. -/
theorem Sound.changed (sound : Sound e) (calm : Calm ∅ e.vm v)
    (same : v.bookkeeping = e.vm.bookkeeping) : Sound { e with vm := v } := by
  have frames : v.callsstack = e.vm.callsstack := congrArg (·.callsstack) same
  refine ⟨calm.wf, ?_, ?_, EveryTrap.same (P := (·.stackbase = 0)) sound.bases calm.generators, ?_⟩
  · have quiet : Move ∅ ∅ e.vm v := .same calm frames
    exact quiet.generatorsOk sound.ok
  · refine sound.held.moved (f := id) calm (fun _ => ⟨rfl, rfl⟩) ?_
    rw [frames]
    cases e.vm.callsstack <;> rfl
  · rw [same]
    exact sound.pending

/-- The call of a script function for a call that has been made in `e`. -/
theorem Sound.execute {clo : LVObject} {k : LVClosure} {nparams : Nat} {moved : Bool} {traps : Int}
    (sound : Sound e') (outside : e'.Outside) (controls : e'.controls = e.controls)
    (same : e'.vm.bookkeeping = e.vm.bookkeeping)
    (callee : e'.vm.lookup clo = some (.closure k)) (unmixed : (Event.call k moved).Unmixed)
    (entry : e'.vm.beginExecute clo k nparams (e'.vm.top - nparams) moved = .execute v traps) :
    Sound (e'.enter v traps) ∧ Pending e'.suspended (At e) (e'.enter v traps).controls
      (e'.enter v traps).vm.bookkeeping := by
  rw [beginExecute] at entry
  split at entry
  · cases entry
  · split at entry <;> cases entry
    rename_i loop
    have longer : (e'.enter v traps).controls ≠ e'.controls := List.cons_ne_self _ _
    have step : Step (fun _ _ => true) (fun _ => True) (.call k moved) e' (e'.enter v traps) :=
      .call outside callee loop
    refine ⟨sound.step unmixed trivial (not_leavesFrame longer) step, ?_⟩
    have onTop : Over e'.vm.bookkeeping v.bookkeeping := executeCall_over unmixed loop
    exact .first ⟨controls, same⟩ (.execute onTop)

theorem Sound.native {clo : LVObject} {k : LVNativeClosure} {nparams : Nat}
    (sound : Sound e') (outside : e'.Outside) (controls : e'.controls = e.controls)
    (same : e'.vm.bookkeeping = e.vm.bookkeeping)
    (callee : e'.vm.lookup clo = some (.nativeclosure k))
    (entry : e'.vm.beginNative clo k nparams (e'.vm.top - nparams) = .native v) :
    Sound { e' with vm := v.countCall 1, controls := .native :: e'.controls } ∧
      Pending e'.suspended (At e) (.native :: e'.controls) (v.countCall 1).bookkeeping := by
  rw [beginNative] at entry
  split at entry
  · cases entry
  · split at entry
    · cases entry
    · split at entry <;> cases entry
      rename_i enter
      have step : Step (fun _ _ => true) (fun _ => True) .other e'
          { e' with vm := v.countCall 1, controls := .native :: e'.controls } :=
        .native outside callee enter
      have longer : Control.native :: e'.controls ≠ e'.controls := List.cons_ne_self _ _
      have plain : Event.other.Unmixed ∧ Event.other.Balanced := ⟨trivial, trivial⟩
      refine ⟨sound.step plain.1 plain.2 (not_leavesFrame longer) step, ?_⟩
      have bottom : At e e'.controls e'.vm.bookkeeping := ⟨controls, same⟩
      exact (enterNative_bookkeeping enter).native (.inl bottom)

theorem Sound.enters {clo : LVObject} {k : LVClosure} {nparams : Nat} {moved : Bool}
    (sound : Sound e') (outside : e'.Outside) (controls : e'.controls = e.controls)
    (same : e'.vm.bookkeeping = e.vm.bookkeeping)
    (callee : e'.vm.lookup clo = some (.closure k)) (unmixed : (Event.call k moved).Unmixed)
    (begins : e'.enters (e'.vm.beginExecute clo k nparams (e'.vm.top - nparams) moved) = some e₁) :
    Sound e₁ ∧ Pending e₁.suspended (At e) e₁.controls e₁.vm.bookkeeping := by
  cases entry : e'.vm.beginExecute clo k nparams (e'.vm.top - nparams) moved with
  | execute v traps =>
    rw [entry] at begins
    cases begins
    exact sound.execute outside controls same callee unmixed entry
  | native v =>
    rw [beginExecute] at entry
    split at entry
    · cases entry
    · split at entry <;> cases entry
  | _ => simp [entry, Exec.enters] at begins

theorem Sound.enters_native {clo : LVObject} {k : LVNativeClosure} {nparams : Nat}
    (sound : Sound e') (outside : e'.Outside) (controls : e'.controls = e.controls)
    (same : e'.vm.bookkeeping = e.vm.bookkeeping)
    (callee : e'.vm.lookup clo = some (.nativeclosure k))
    (begins : e'.enters (e'.vm.beginNative clo k nparams (e'.vm.top - nparams)) = some e₁) :
    Sound e₁ ∧ Pending e₁.suspended (At e) e₁.controls e₁.vm.bookkeeping := by
  cases entry : e'.vm.beginNative clo k nparams (e'.vm.top - nparams) with
  | native v =>
    rw [entry] at begins
    cases begins
    exact sound.native outside controls same callee entry
  | execute v traps =>
    rw [beginNative] at entry
    split at entry
    · cases entry
    · split at entry
      · cases entry
      · split at entry <;> cases entry
  | _ => simp [entry, Exec.enters] at begins

theorem enters_congr (same : v.bookkeeping = e.vm.bookkeeping) (b : Begun) :
    Exec.enters { e with vm := v } b = e.enters b := by
  have frames : v.callsstack = e.vm.callsstack := congrArg (·.callsstack) same
  have etraps : v.etraps = e.vm.etraps := congrArg (·.etraps) same
  cases b with
  | execute w traps => simp only [Exec.enters, Exec.enter, frames, etraps]
  | _ => rfl

theorem Sound.begin {clo : LVObject} {nparams : Nat} {moved : Bool} (sound : Sound e)
    (outside : e.Outside) (notices : Notices e.vm clo moved)
    (begins : e.enters (e.vm.call clo nparams (e.vm.top - nparams) moved) = some e₁) :
    Sound e₁ ∧ Pending e₁.suspended (At e) e₁.controls e₁.vm.bookkeeping := by
  unfold Notices at notices
  unfold LVVM.call at begins
  split at begins
  · rename_i k found
    rw [found] at notices
    exact sound.enters outside rfl rfl found notices begins
  · exact sound.enters_native outside rfl rfl ‹_› begins
  · rename_i c found
    simp only [found] at notices begins
    split at begins
    · simp [Exec.enters] at begins
    · rename_i constr is
      have created : Calm ∅ e.vm (e.vm.create .OT_INSTANCE (.instance clo c.call)).2 :=
        sound.wf.calm_create _ (fun g eq => by cases eq)
      have stored : Calm ∅ e.vm ((e.vm.create .OT_INSTANCE (.instance clo c.call)).2.setSlot
          (e.vm.top - nparams) (e.vm.create .OT_INSTANCE (.instance clo c.call)).1) :=
        created.trans (created.wf.calm_setSlot _ _)
      have sound' := sound.changed stored rfl
      split at begins
      · rename_i k callee
        exact sound'.enters (k := k) outside rfl rfl callee (notices constr k is callee)
          ((enters_congr rfl _).trans begins)
      · rename_i k callee
        exact sound'.enters_native (k := k) outside rfl rfl callee ((enters_congr rfl _).trans begins)
      · simp [Exec.enters] at begins
  · simp [Exec.enters] at begins

/-- The state of a run that is inside a call, seen from where the call has been made. -/
theorem Sound.inside (sound : Sound e₁) (outside : e.Outside)
    (pending : Pending e₁.suspended (At e) e₁.controls e₁.vm.bookkeeping)
    (runs : Keeping alive Program (fun e' => e.controls.length < e'.controls.length) e₁ e₂)
    (called : e.controls ≠ []) :
    Sound e₂ ∧ Pending e₂.suspended (At e) e₂.controls e₂.vm.bookkeeping := by
  induction runs with
  | refl => exact ⟨sound, pending⟩
  | @tail ev e₂ e₃ runs unmixed balanced kept step within ih =>
    obtain ⟨sound, pending⟩ := ih
    refine ⟨sound.step unmixed balanced kept step, ?_⟩
    have positive := List.length_pos_iff.mpr called
    rcases step.suspended with awake | ⟨_, _, _, _, _, host, _⟩ | ⟨_, _, host, _⟩
    · rw [awake]
      have bottom : ∀ a cs b, ¬ At e (.execute a :: cs) b := by
        rintro a cs b ⟨controls, -⟩
        exact outside a (by rw [← controls]; rfl)
      rcases step.pending bottom sound.wf sound.resumables pending unmixed balanced kept awake with
        pending | ⟨b, ⟨back, -⟩, -⟩
      · exact pending
      · rw [back] at within
        exact absurd within (Nat.lt_irrefl _)
    · rw [host, List.length_singleton] at within
      omega
    · have above := Pending.above pending
      rw [host, List.length_singleton] at above
      omega

/-- In a run whose steps meet the conditions, a call that fails before its callee runs leaves the
frames, the base, the top and the traps alone exactly when `EnterFrame` does not refuse, and a
call whose callee has run and failed leaves them as they were. -/
theorem failed_calls_restore (initial : Initial e₀)
    (runs : Keeping alive Program (fun _ => True) e₀ e) (outside : e.Outside) (clo : LVObject)
    (nparams : Nat) (moved : Bool) :
    (∀ v, e.vm.call clo nparams (e.vm.top - nparams) moved = .failed v →
      (v.bookkeeping = e.vm.bookkeeping ↔ ¬ e.vm.CallRefused clo nparams (e.vm.top - nparams))) ∧
    (Notices e.vm clo moved → ∀ e₁ e₂ e₃,
      e.enters (e.vm.call clo nparams (e.vm.top - nparams) moved) = some e₁ →
      Keeping alive Program (fun e' => e.controls.length < e'.controls.length) e₁ e₂ →
      Errs Program e₂ e₃ → e₃.controls = e.controls → e₃.vm.bookkeeping = e.vm.bookkeeping) := by
  refine ⟨fun v failed => call_failed_iff failed, ?_⟩
  intro notices e₁ e₂ e₃ begins inside errs back
  have sound := initial.sound.keeping runs
  obtain ⟨sound₁, pending₁⟩ := sound.begin outside notices begins
  obtain ⟨-, pending₂⟩ := sound₁.inside outside pending₁ inside sound.held.controls_ne_nil
  have bottom : ∀ a cs b, ¬ At e (.execute a :: cs) b := by
    rintro a cs b ⟨controls, -⟩
    exact outside a (by rw [← controls]; rfl)
  rcases errs.rest bottom pending₂ with ⟨-, same⟩ | pending₃
  · exact same
  · have above := Pending.above pending₃
    rw [back] at above
    exact absurd above (Nat.lt_irrefl _)

/-- A function that adds two registers and then throws, and one with 200 registers. -/
def adds : Exec :=
  { hostCall with
    vm := { hostCall.vm with
      heap := fun address =>
        match address with
        | 0 => some (.closure (functionOf false [] [⟨.OP_ADD, 2, 0, 1, 0⟩, ⟨.OP_THROW, 0, 0, 0, 0⟩]))
        | 1 => some (.closure ⟨⟨200, false, false, [], [], [], ["this", "o", "x"], [], [], []⟩,
            by decide, none, [], []⟩)
        | _ => none
      next := 2 } }

theorem adds_initial : Initial adds where
  controls := rfl
  suspended := rfl
  callsstack := rfl
  etraps := rfl
  generators a := by
    simp only [generatorAt, adds]
    split
    · rename_i g found
      split at found <;> cases found
    · rfl
  wf := by
    refine ⟨fun a le => ?_, List.forall_mem_nil _, .nil, .nil⟩
    obtain ⟨b, rfl⟩ := Nat.exists_eq_add_of_le' le
    rfl

theorem local_refl (v : LVVM) : v.Local Program v where
  below _ _ := rfl
  stackbase := rfl
  callsstack := by
    cases frames : v.callsstack with
    | nil => exact ⟨0, rfl⟩
    | cons ci rest => exact ⟨ci.ip, rfl⟩
  alloc := rfl
  etraps := rfl
  openouters := rfl
  stacksize := le_refl _
  generators _ := rfl
  outers _ _ found := found
  closures _ _ found := found
  created _ _ found := .inl found
  next := ⟨le_refl _, fun _ _ free => free⟩

/-- The first function fails at its first instruction. -/
theorem failed_calls_restore_adds : ∃ e₁ e₃,
    adds.enters (adds.vm.call (.ofAddress .OT_CLOSURE 0) 1 (adds.vm.top - (1 : Nat)) false) =
      some e₁ ∧
    Errs (fun _ => True) e₁ e₃ ∧ e₃.vm.bookkeeping = adds.vm.bookkeeping := by
  have outside : adds.Outside := by rintro a ⟨⟩
  obtain ⟨e₁, begins, is⟩ : ∃ e₁, adds.enters (adds.vm.call (.ofAddress .OT_CLOSURE 0) 1
      (adds.vm.top - (1 : Nat)) false) = some e₁ ∧
    ∃ i v v', e₁.controls = [.execute ⟨0, 0, []⟩, .host] ∧ e₁.vm.fetch = some (i, v) ∧
      LVVM.unwind .null v.top v.callsstack v = some (false, v') := ⟨_, rfl, _, _, _, rfl, rfl, rfl⟩
  obtain ⟨i, v, v', controls, fetch, unwind⟩ := is
  have errs : Errs (fun _ => True) e₁ { e₁ with vm := v'.countCall (-1), controls := [.host] } :=
    .raise controls fetch (.local (local_refl v)) (.uncaught unwind)
  have restores := (@failed_calls_restore (fun _ _ => true) (fun _ => True) adds adds adds_initial
    .refl outside (.ofAddress .OT_CLOSURE 0) 1 false).2
  exact ⟨e₁, _, begins, errs, restores (fun _ => rfl) _ _ _ begins .refl errs rfl⟩

/-- The first function adds two objects whose `_add` is the second one. -/
theorem failed_call_leaves_frame : Initial adds ∧ ∃ e v,
    Keeping (fun _ _ => true) (fun _ => True) (fun _ => True) adds e ∧ e.Outside ∧
    e.vm.call (.ofAddress .OT_CLOSURE 1) 3 (e.vm.top - (3 : Nat)) false = .failed v ∧
    v.callsstack.length = e.vm.callsstack.length + 1 ∧ v.stackbase ≠ e.vm.stackbase ∧
    v.top ≠ e.vm.top := by
  obtain ⟨k, v₁, i, v₂, v, callee, entry, fetch, failed, frames, base, top⟩ :
      ∃ k v₁ i v₂ v, adds.vm.lookup (.ofAddress .OT_CLOSURE 0) = some (.closure k) ∧
        adds.vm.executeCall (.ofAddress .OT_CLOSURE 0) k 1 (adds.vm.top - (1 : Nat)) false =
          .loop v₁ 0 ∧
        (adds.enter v₁ 0).vm.fetch = some (i, v₂) ∧
        (v₂.pushArgs [.null, .null, .null]).call (.ofAddress .OT_CLOSURE 1) 3
          ((v₂.pushArgs [.null, .null, .null]).top - (3 : Nat)) false = .failed v ∧
        v.callsstack.length = (v₂.pushArgs [.null, .null, .null]).callsstack.length + 1 ∧
        v.stackbase ≠ (v₂.pushArgs [.null, .null, .null]).stackbase ∧
        v.top ≠ (v₂.pushArgs [.null, .null, .null]).top :=
    ⟨_, _, _, _, _, rfl, rfl, rfl, rfl, rfl, by decide, by decide⟩
  have unmixed : (Event.call k false).Unmixed := fun _ => rfl
  have called : Step (fun _ _ => true) (fun _ => True) (.call k false) adds (adds.enter v₁ 0) :=
    .call (by rintro a ⟨⟩) callee entry
  have run₁ : Keeping (fun _ _ => true) (fun _ => True) (fun _ => True) adds (adds.enter v₁ 0) :=
    .tail .refl unmixed trivial (not_leavesFrame (List.cons_ne_self _ _)) called trivial
  have asked : Step (fun _ _ => true) (fun _ => True) .other (adds.enter v₁ 0)
      { adds.enter v₁ 0 with
        vm := v₂.pushArgs [.null, .null, .null], controls := .metamethod 3 :: _ } :=
    .metamethod rfl fetch
  have other : Event.other.Unmixed ∧ Event.other.Balanced := ⟨trivial, trivial⟩
  have run₂ : Keeping (fun _ _ => true) (fun _ => True) (fun _ => True) adds _ :=
    .tail run₁ other.1 other.2 (not_leavesFrame (List.cons_ne_self _ _)) asked trivial
  exact ⟨adds_initial, _, v, run₂, (by rintro a ⟨⟩), failed, frames, base, top⟩

end Exec

end Lavril
