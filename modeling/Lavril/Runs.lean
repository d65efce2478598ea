import Lavril.Effects
import Mathlib.Logic.Relation

/-!
# Generators in a run of the machine

A step of the machine is a chain of moves, each of which changes at most one
generator. The moves keep `GeneratorsOk`, and only a move that resumes it
changes a suspended generator.
-/

namespace Lavril

/-- The captured variables that an event writes. -/
def Event.writes : Event → Set Nat
  | .instruction i v => {a | v.writes i = some a}
  | .setOuter address => {address}
  | _ => ∅

/-- The generators that an event resumes. -/
def Event.resumes : Event → Set Nat
  | .instruction i v => {a | ∃ g, v.resumes i = some (a, g)}
  | .resume address _ => {address}
  | _ => ∅

/-- What a generator that has been resumed holds itself. -/
structure LVGenerator.Resting (g : LVGenerator) : Prop where
  etraps : g.etraps = []
  stack : ∀ n, 0 < n → g.stack.getD n .null = .null

namespace LVVM

variable {W R : Set Nat} {v v₁ v₂ : LVVM} {i : LVInstruction}

/-- The generators of the frames. -/
def generatorFrames (v : LVVM) : List Nat := v.callsstack.filterMap (·.generator)

inductive Move (W R : Set Nat) (v v' : LVVM) : Prop
  | quiet (calm : Calm W v { v' with etraps := v.etraps })
      (frames : v'.generatorFrames = v.generatorFrames)
  | popped {ci} (calm : Calm W v v') (frames : v.callsstack = ci :: v'.callsstack)
  | created (h : Created W v v')
  | left {ci} (h : Left W ci v v')
  | yielded {ci a g target g'} (frames : v.callsstack = ci :: v'.callsstack)
      (generator : ci.generator = some a) (found : v.generatorAt a = some g)
      (running : g.state = .eRunning) (changed : Changed W a g' v v')
      (saved : Saved v ci g target g')
  | resumed {alive a g target saved ci g'} (mem : a ∈ R) (found : v.generatorAt a = some g)
      (suspended : g.state = .eSuspended) (is : g.ci = some saved)
      (resumed : Resumed alive v a g target saved ci g' v') (changed : Changed W a g' v v')

/-- A generator with a frame is running, in that frame only. -/
structure GeneratorsOk (v : LVVM) : Prop where
  running : ∀ a ∈ v.generatorFrames, ∃ g, v.generatorAt a = some g ∧ g.state = .eRunning
  nodup : v.generatorFrames.Nodup
  resting : ∀ a g, v.generatorAt a = some g → g.state = .eRunning → g.Resting
  suspended : ∀ a g, v.generatorAt a = some g → g.state = .eSuspended →
    ∃ ci, g.ci = some ci ∧ g.etraps.length ≤ ci.etraps.toNat

theorem generatorFrames_cons {ci : CallInfo} {rest : List CallInfo}
    (frames : v.callsstack = ci :: rest) :
    v.generatorFrames = ci.generator.toList ++ rest.filterMap (·.generator) := by
  rw [generatorFrames, frames]
  cases generator : ci.generator <;> simp [generator]

theorem generatorFrames_modify {f : CallInfo → CallInfo}
    (frames : v₁.callsstack = v.callsstack.modifyHead f)
    (keeps : ∀ ci, (f ci).generator = ci.generator) : v₁.generatorFrames = v.generatorFrames := by
  rw [generatorFrames, generatorFrames, frames]
  cases v.callsstack with
  | nil => rfl
  | cons ci rest => simp [List.filterMap_cons, keeps]

theorem generatorFrames_touched (frames : Touched v.callsstack v₁.callsstack) :
    v₁.generatorFrames = v.generatorFrames := by
  obtain ⟨f, keeps, eq⟩ := frames
  exact generatorFrames_modify eq fun ci => congrArg (·.2.2) (keeps ci)

theorem Move.wf (move : Move W R v v₁) : v₁.WF := by
  cases move with
  | quiet calm frames => exact calm.wf.of_eq rfl rfl rfl
  | popped calm frames => exact calm.wf
  | created h =>
    obtain ⟨-, -, a, g, ci, -, changed, -⟩ := h
    exact changed.wf
  | left h => exact h.wf
  | yielded frames generator found running changed saved => exact changed.wf
  | resumed mem found suspended is resumed changed => exact changed.wf

theorem Move.closed (move : Move W R v v₁) : KeepsClosed W v v₁ := by
  cases move with
  | quiet calm frames => exact calm.closed
  | popped calm frames => exact calm.closed
  | created h =>
    obtain ⟨-, -, a, g, ci, -, changed, -⟩ := h
    exact changed.closed
  | left h => exact h.closed
  | yielded frames generator found running changed saved => exact changed.closed
  | resumed mem found suspended is resumed changed => exact changed.closed

/-- The generator of the frame that is left. -/
theorem GeneratorsOk.pop {ci : CallInfo} (ok : GeneratorsOk v)
    (frames : v.callsstack = ci :: v₁.callsstack) : v₁.generatorFrames.Nodup ∧
      (∀ a ∈ v₁.generatorFrames, a ∈ v.generatorFrames ∧ ci.generator ≠ some a) ∧
      ∀ a, ci.generator = some a → a ∈ v.generatorFrames := by
  have nodup := ok.nodup
  have eq := generatorFrames_cons frames
  rw [eq] at nodup
  obtain ⟨-, nodup, apart⟩ := List.nodup_append.mp nodup
  refine ⟨nodup, fun a mem => ⟨?_, fun is => ?_⟩, fun a is => ?_⟩
  · rw [eq]
    exact List.mem_append_right _ mem
  · exact apart a (by simp [is]) a mem rfl
  · simp [eq, is]

/-- `Yield` saves the traps of its frame and no others. -/
theorem Saved.few {ci : CallInfo} {g g' : LVGenerator} {target : Nat} (rest : g.Resting)
    (saved : Saved v ci g target g') : g'.etraps.length ≤ ci.etraps.toNat := by
  rw [saved.etraps, rest.etraps]
  simp only [List.nil_append, List.length_map, List.length_take]
  omega

theorem Resumed.resting {alive : LVObject → Bool} {a : Nat} {g g' : LVGenerator} {target : Int}
    {saved ci : CallInfo} (few : g.etraps.length ≤ saved.etraps.toNat)
    (resumed : Resumed alive v a g target saved ci g' v₁) : g'.state = .eRunning ∧ g'.Resting := by
  rw [resumed.running]
  refine ⟨rfl, ?_, fun n pos => ?_⟩
  · simp only
    rw [Nat.sub_eq_zero_of_le few, List.take_zero]
  · simp only [List.getD_eq_getElem?_getD]
    cases stack : g.stack with
    | nil => simp
    | cons o rest =>
      cases n with
      | zero => omega
      | succ n =>
        simp only [List.take_succ_cons, List.take_zero, List.singleton_append,
          List.getElem?_cons_succ, List.getElem?_replicate]
        split <;> rfl

theorem Move.generatorsOk (ok : GeneratorsOk v) (move : Move W R v v₁) : GeneratorsOk v₁ := by
  cases move with
  | quiet calm frames =>
    have same : ∀ a, v₁.generatorAt a = v.generatorAt a := calm.generators
    refine ⟨?_, frames ▸ ok.nodup, ?_, ?_⟩
    · rw [frames]
      simpa only [same] using ok.running
    · simpa only [same] using ok.resting
    · simpa only [same] using ok.suspended
  | popped calm frames =>
    obtain ⟨nodup, kept, -⟩ := ok.pop frames
    refine ⟨fun a mem => ?_, nodup, ?_, ?_⟩
    · rw [calm.generators]
      exact ok.running a (kept a mem).1
    · simpa only [calm.generators] using ok.resting
    · simpa only [calm.generators] using ok.suspended
  | created h =>
    obtain ⟨frames, -, a, g, ci, fresh, changed, state, is, plain, traps⟩ := h
    have marks : v₁.generatorFrames = v.generatorFrames := by
      rw [generatorFrames, frames, generatorFrames]
    refine ⟨fun b mem => ?_, marks ▸ ok.nodup, fun b g' found running => ?_,
      fun b g' found suspended => ?_⟩
    · rw [marks] at mem
      obtain ⟨g', found, running⟩ := ok.running b mem
      have ne : b ≠ a := by
        rintro rfl
        rw [fresh] at found
        cases found
      exact ⟨g', by rw [changed.generators, if_neg ne, found], running⟩
    · rw [changed.generators] at found
      split at found
      · cases found
        rw [state] at running
        cases running
      · exact ok.resting b g' found running
    · rw [changed.generators] at found
      split at found
      · cases found
        exact ⟨ci, is, by simp [traps]⟩
      · exact ok.suspended b g' found suspended
  | @left ci h =>
    obtain ⟨nodup, kept, -⟩ := ok.pop h.callsstack
    refine ⟨fun b mem => ?_, nodup, fun b g' found running => ?_, fun b g' found suspended => ?_⟩
    · obtain ⟨mem, ne⟩ := kept b mem
      obtain ⟨g', found, running⟩ := ok.running b mem
      exact ⟨g', by rw [h.generators, if_neg ne, found], running⟩
    · rw [h.generators] at found
      split at found
      · obtain ⟨g, -, rfl⟩ := Option.map_eq_some_iff.mp found
        cases running
      · exact ok.resting b g' found running
    · rw [h.generators] at found
      split at found
      · obtain ⟨g, -, rfl⟩ := Option.map_eq_some_iff.mp found
        cases suspended
      · exact ok.suspended b g' found suspended
  | @yielded ci a g target g₁ frames generator found running changed saved =>
    obtain ⟨nodup, kept, -⟩ := ok.pop frames
    refine ⟨fun b mem => ?_, nodup, fun b g' found' running' => ?_, fun b g' found' suspended => ?_⟩
    · obtain ⟨mem, ne⟩ := kept b mem
      obtain ⟨g', found', running'⟩ := ok.running b mem
      have ne : b ≠ a := by
        rintro rfl
        exact ne generator
      exact ⟨g', by rw [changed.generators, if_neg ne, found'], running'⟩
    · rw [changed.generators] at found'
      split at found'
      · cases found'
        rw [saved.state] at running'
        cases running'
      · exact ok.resting b g' found' running'
    · rw [changed.generators] at found'
      split at found'
      · cases found'
        have few := saved.few (ok.resting a g found running)
        exact ⟨_, saved.frame, few⟩
      · exact ok.suspended b g' found' suspended
  | @resumed alive a g target saved ci g₁ mem found suspended is resumed changed =>
    obtain ⟨ci', is', few⟩ := ok.suspended a g found suspended
    have eq : saved = ci' := Option.some.inj (is.symm.trans is')
    obtain ⟨running, resting⟩ := resumed.resting (eq ▸ few)
    have marks : v₁.generatorFrames = a :: v.generatorFrames := by
      rw [generatorFrames_cons resumed.frames, resumed.frame]
      rfl
    refine ⟨fun b mem => ?_, ?_, fun b g' found' running' => ?_, fun b g' found' suspended' => ?_⟩
    · rw [changed.generators]
      split
      · exact ⟨g₁, rfl, running⟩
      · rename_i ne
        rw [marks] at mem
        exact ok.running b (List.mem_of_ne_of_mem ne mem)
    · rw [marks]
      refine List.nodup_cons.mpr ⟨fun mem => ?_, ok.nodup⟩
      obtain ⟨g', found', running'⟩ := ok.running a mem
      rw [found, Option.some.injEq] at found'
      rw [← found', suspended] at running'
      cases running'
    · rw [changed.generators] at found'
      split at found'
      · cases found'
        exact resting
      · exact ok.resting b g' found' running'
    · rw [changed.generators] at found'
      split at found'
      · cases found'
        rw [running] at suspended'
        cases suspended'
      · exact ok.suspended b g' found' suspended'

/-- A suspended generator that is not resumed stays as it is. -/
theorem Move.keeps_suspended {a : Nat} {g : LVGenerator} (ok : GeneratorsOk v)
    (found : v.generatorAt a = some g) (suspended : g.state = .eSuspended) (notMem : a ∉ R)
    (move : Move W R v v₁) : v₁.generatorAt a = some g := by
  have notRunning : a ∉ v.generatorFrames := by
    intro mem
    obtain ⟨g', found', running⟩ := ok.running a mem
    rw [found, Option.some.injEq] at found'
    rw [← found', suspended] at running
    cases running
  cases move with
  | quiet calm frames => exact (calm.generators a).trans found
  | popped calm frames => exact (calm.generators a).trans found
  | created h =>
    obtain ⟨-, -, b, g', ci, fresh, changed, -⟩ := h
    rw [changed.generators, if_neg, found]
    rintro rfl
    rw [fresh] at found
    cases found
  | left h =>
    rw [h.generators, if_neg, found]
    exact fun is => notRunning ((ok.pop h.callsstack).2.2 a is)
  | yielded frames generator found' running changed saved =>
    rw [changed.generators, if_neg, found]
    rintro rfl
    exact notRunning ((ok.pop frames).2.2 a generator)
  | resumed mem found' suspended' is resumed changed =>
    rw [changed.generators, if_neg, found]
    rintro rfl
    exact notMem mem

abbrev Moves (W R : Set Nat) : LVVM → LVVM → Prop := Relation.ReflTransGen (Move W R)

theorem Moves.wf (wf : v.WF) (moves : Moves W R v v₁) : v₁.WF := by
  induction moves with
  | refl => exact wf
  | tail _ move _ => exact move.wf

theorem Moves.generatorsOk (ok : GeneratorsOk v) (moves : Moves W R v v₁) : GeneratorsOk v₁ := by
  induction moves with
  | refl => exact ok
  | tail _ move ih => exact move.generatorsOk ih

theorem Moves.closed (moves : Moves W R v v₁) : KeepsClosed W v v₁ := by
  induction moves with
  | refl => exact fun _ _ _ => id
  | tail _ move ih => exact ih.trans move.closed

theorem Moves.keeps_suspended {a : Nat} {g : LVGenerator} (ok : GeneratorsOk v)
    (found : v.generatorAt a = some g) (suspended : g.state = .eSuspended) (notMem : a ∉ R)
    (moves : Moves W R v v₁) : v₁.generatorAt a = some g := by
  induction moves with
  | refl => exact found
  | tail moves move ih =>
    exact move.keeps_suspended (Moves.generatorsOk ok moves) ih suspended notMem

/-! ## The moves of a step -/

theorem Move.of_calm (calm : Calm W v v₁) (frames : v₁.generatorFrames = v.generatorFrames) :
    Move W R v v₁ :=
  .quiet ⟨rfl, calm.generators, calm.closed, calm.wf.of_eq rfl rfl rfl⟩ frames

theorem Move.push {ci : CallInfo} (calm : Calm W v v₁) (plain : ci.Plain)
    (frames : v₁.callsstack = ci :: v.callsstack) : Move W R v v₁ := by
  refine .of_calm calm ?_
  rw [generatorFrames_cons frames, plain.generator]
  rfl

theorem Move.same (calm : Calm W v v₁) (frames : v₁.callsstack = v.callsstack) : Move W R v v₁ :=
  .of_calm calm (by rw [generatorFrames, generatorFrames, frames])

end LVVM

/-- The machine after an instruction. -/
def Ran.vm : Ran → LVVM
  | .next v _ | .call _ v | .finish v _ => v

namespace LVVM

variable {W R : Set Nat} {v v₁ v₂ : LVVM} {i : LVInstruction}

theorem Did.move {r : Ran} (did : Did W v i r) : Move W R v r.vm := by
  cases did with
  | touch calm frames => exact .of_calm calm (generatorFrames_touched frames)
  | script calm plain frames controls => exact .push calm plain frames
  | native calm plain frames closure controls => exact .push calm plain frames
  | tail calm frames => exact .of_calm calm (generatorFrames_touched frames)
  | done calm frames => exact .same calm frames
  | metamethod calm frames => exact .same calm frames
  | generator created => exact .created created
  | «return» op left ran =>
    subst ran
    split <;> exact .left left
  | yield op frames generator found running etraps changed saved ran =>
    subst ran
    split <;> exact .yielded frames generator found running changed saved
  | pushTrap frames frames' etraps calm =>
    exact .quiet calm ((generatorFrames_cons frames').trans (generatorFrames_cons frames).symm)
  | popTrap op frames etraps calm => exact .quiet calm (generatorFrames_modify frames fun _ => rfl)

theorem Resumption.moves {alive : LVObject → Bool} {a : Nat} {g : LVGenerator} {r : Ran}
    (mem : a ∈ R) (found : v.generatorAt a = some g)
    (did : Resumption W alive v i a g r) : Moves W R v r.vm := by
  cases did with
  | resumed calm frames stackbase top suspended is resumed changed =>
    have quiet : Move W R v _ := .same calm frames
    exact .tail (.single quiet)
      (.resumed mem ((calm.generators a).trans found) suspended is resumed changed)
  | stuck suspended calm plain frames closure => exact .single (.push calm plain frames)

theorem WF.fetch (wf : v.WF) (fetch : v.fetch = some (i, v₁)) :
    Calm W v v₁ ∧ Touched v.callsstack v₁.callsstack := by
  simp only [LVVM.fetch, Option.bind_eq_bind, Option.bind_eq_some_iff] at fetch
  obtain ⟨k, -, fetch⟩ := fetch
  split at fetch
  · cases fetch
  · rename_i ci rest frames
    simp only [Option.bind_eq_some_iff, Option.pure_def, Option.some.injEq, Prod.mk.injEq] at fetch
    obtain ⟨i, -, -, rfl⟩ := fetch
    refine ⟨wf.calm_of rfl rfl rfl rfl, fun ci => { ci with ip := ci.ip + 1 }, fun _ => rfl, ?_⟩
    rw [frames, List.modifyHead_cons]

variable {Program : FunctionPrototype → Prop}

theorem WF.local (wf : v.WF) (effect : Local Program v v₁) :
    Calm W v v₁ ∧ Touched v.callsstack v₁.callsstack := by
  obtain ⟨ip, frames⟩ := effect.callsstack
  refine ⟨⟨effect.etraps, effect.generators, fun a o _ is => effect.outers a _ is, ?_⟩,
    fun ci => { ci with ip := ip }, fun _ => rfl, frames⟩
  refine ⟨fun a le => ?_, fun o mem => ?_, effect.openouters ▸ wf.sorted,
    effect.openouters ▸ wf.nodup⟩
  · exact effect.next.2 a le (wf.fresh a (effect.next.1.trans le))
  · exact effect.outers _ _ (wf.outers o (effect.openouters ▸ mem))

theorem WF.interrupted (wf : v.WF) (effect : Interrupted Program v v₁) :
    Calm W v v₁ ∧ ∃ frames, Touched v.callsstack frames ∧
      (v₁.callsstack = frames ∨ ∃ ci : CallInfo, ci.Plain ∧ v₁.callsstack = ci :: frames) := by
  induction effect with
  | «local» h =>
    obtain ⟨calm, frames⟩ : Calm W _ _ ∧ _ := wf.local h
    exact ⟨calm, _, frames, .inl rfl⟩
  | @close v v' h ih =>
    have closed : Calm W v (v.closeOuters v.stackbase) := wf.calm_closeOuters v.stackbase
    obtain ⟨calm, frames⟩ := ih closed.wf
    exact ⟨closed.trans calm, frames⟩
  | @enter v v' newbase newtop le h =>
    obtain ⟨calm, frames⟩ : Calm W _ _ ∧ _ := wf.local h
    obtain ⟨ci, plain, -, pushed⟩ := v'.pushFrame_frames newbase newtop
    exact ⟨calm.trans (calm.wf.calm_pushFrame _ _), _, frames, .inr ⟨ci, plain, pushed⟩⟩

theorem WF.interrupted_move (wf : v.WF) (effect : Interrupted Program v v₁) : Move W R v v₁ := by
  obtain ⟨calm, frames, touched, same | ⟨ci, plain, pushed⟩⟩ := wf.interrupted (W := W) effect
  · exact .of_calm calm (generatorFrames_touched (same ▸ touched))
  · refine .of_calm calm ?_
    rw [generatorFrames_cons pushed, plain.generator]
    exact @generatorFrames_touched v { v with callsstack := frames } touched

theorem WF.catch (wf : v.WF) {error : LVObject} {last_top : Int}
    (run : v.catch_ error last_top = some v₁) : ∃ et, v.etraps = et :: v₁.etraps ∧
      Calm W v { v₁ with etraps := v.etraps } ∧
      v₁.callsstack = v.callsstack.modifyHead fun ci =>
        { ci with ip := et.ip, etraps := ci.etraps - 1 } := by
  unfold LVVM.catch_ at run
  split at run
  · cases run
  · rename_i et rest traps
    cases run
    exact ⟨et, traps, wf.calm_of rfl rfl rfl rfl, rfl⟩

/-- A frame that the unwinder leaves. -/
theorem WF.unwind_left (wf : v.WF) {ci : CallInfo} {rest : List CallInfo}
    (frames : v.callsstack = ci :: rest) (run : (v.killGenerator ci).leaveFrame = some v₁) :
    Left W ci v v₁ := by
  refine wf.left frames fun w wf _ eq => ?_
  subst eq
  exact wf.calm_leaveFrame run

theorem WF.unwind_moves {error : LVObject} {last_top : Int} {frames : List CallInfo} {caught : Bool}
    (wf : v.WF) (eq : v.callsstack = frames)
    (run : unwind error last_top frames v = some (caught, v₁)) : Moves W R v v₁ := by
  induction frames generalizing v with
  | nil =>
    cases run
    exact .refl
  | cons ci rest ih =>
    simp only [unwind] at run
    split at run
    · simp only [Option.map_eq_some_iff, Prod.mk.injEq] at run
      obtain ⟨v', run, -, rfl⟩ := run
      obtain ⟨et, -, calm, frames⟩ := wf.catch (W := W) run
      exact .single (.quiet calm (generatorFrames_modify frames fun _ => rfl))
    · simp only [Option.bind_eq_bind, Option.bind_eq_some_iff] at run
      obtain ⟨v', leave, run⟩ := run
      have left : Left W ci v v' := wf.unwind_left eq leave
      have tail : v'.callsstack = rest := (List.cons.inj (left.callsstack.symm.trans eq)).2
      split at run
      · simp only [Option.pure_def, Option.some.injEq, Prod.mk.injEq] at run
        obtain ⟨-, rfl⟩ := run
        exact .single (.left left)
      · exact .head (.left left) (ih left.wf tail run)

theorem WF.quiet_of (wf : v.WF) (heap : v₁.heap = v.heap) (next : v₁.next = v.next)
    (outers : v₁.openouters = v.openouters) (etraps : v₁.etraps = v.etraps)
    (frames : v₁.generatorFrames = v.generatorFrames) : Move W R v v₁ :=
  .of_calm (wf.calm_of heap next outers etraps) frames

theorem WF.popped (wf : v.WF) (leave : v.leaveFrame = some v₁) : Move W R v v₁ := by
  obtain ⟨calm, ci, frames⟩ : Calm W _ _ ∧ _ := wf.calm_leaveFrame leave
  exact .popped calm frames

theorem WF.pushArgs (wf : v.WF) {args : List LVObject} : Move W R v (v.pushArgs args) := by
  obtain ⟨calm, frames⟩ := wf.calm_pushes (W := W) (fun _ o => o) args
  exact .same (calm.trans (calm.wf.calm_of rfl rfl rfl rfl)) frames

theorem WF.executeCall_loop (wf : v.WF) {clo : LVObject} {k : LVClosure} {nargs : Nat}
    {stackbase traps : Int} {moved : Bool}
    (entry : v.executeCall clo k nargs stackbase moved = .loop v₁ traps) :
    ∃ w, v₁ = w.setRoot ∧ traps = 0 ∧ (k.function.bgenerator = true → moved = true) ∧
      if k.function.bgenerator then Created W v w
      else Calm W v w ∧ ∃ ci : CallInfo, ci.Plain ∧ w.callsstack = ci :: v.callsstack := by
  simp only [executeCall] at entry
  split at entry
  · cases entry
  · split at entry
    · cases entry
    · rename_i w start
      split at entry
      · cases entry
      · rename_i notDone
        split at entry
        · cases entry
        · cases entry
          refine ⟨w, rfl, rfl, fun generator => ?_, wf.startCall start⟩
          by_contra notMoved
          exact notDone ⟨generator, fun h => notMoved h.2⟩

theorem WF.executeCall_done (wf : v.WF) {clo o : LVObject} {k : LVClosure} {nargs : Nat}
    {stackbase : Int} {moved : Bool}
    (entry : v.executeCall clo k nargs stackbase moved = .done o v₁) : Created W v v₁ := by
  simp only [executeCall] at entry
  split at entry
  · cases entry
  · split at entry
    · cases entry
    · rename_i w start
      split at entry
      · rename_i done
        cases entry
        have call := wf.startCall (W := W) start
        rwa [if_pos done.1] at call
      · split at entry <;> cases entry

theorem setRoot_generatorFrames (v : LVVM) : v.setRoot.generatorFrames = v.generatorFrames :=
  generatorFrames_modify rfl fun _ => rfl

theorem WF.setRoot (wf : v.WF) : Move W R v v.setRoot :=
  wf.quiet_of rfl rfl rfl rfl v.setRoot_generatorFrames

/-- What `lv_resume` has done when the loop starts. It goes on when `Resume`
fails, with the frame that is there. -/
inductive Reentered (W : Set Nat) (alive : LVObject → Bool) (v : LVVM) (a : Nat)
    (g : LVGenerator) : LVVM → Int → Prop
  | resumed {target saved ci g' v'} (suspended : g.state = .eSuspended) (is : g.ci = some saved)
      (resumed : Resumed alive (v.push .null) a g target saved ci g' v')
      (changed : Changed W a g' (v.push .null) v') :
      Reentered W alive v a g v'.setRoot saved.etraps
  | failed {newbase newtop} (suspended : g.state = .eSuspended) :
      Reentered W alive v a g ((v.push .null).pushFrame newbase newtop).setRoot 0
  | refused {traps} (notSuspended : g.state ≠ .eSuspended) :
      Reentered W alive v a g (v.push .null).setRoot traps

theorem WF.calm_push (wf : v.WF) (o : LVObject) : Calm W v (v.push o) :=
  wf.calm_of rfl rfl rfl rfl

theorem WF.executeResume_loop (wf : v.WF) {alive : LVObject → Bool} {a : Nat} {g : LVGenerator}
    {traps : Int} (found : v.generatorAt a = some g)
    (entry : v.executeResume alive a g = .loop v₁ traps) : Reentered W alive v a g v₁ traps := by
  have started : ∀ w : LVVM, (if w.callsstack = [] then Entry.undefined
      else .loop w.setRoot w.frameTraps) = .loop v₁ traps →
      v₁ = w.setRoot ∧ traps = w.frameTraps := by
    intro w eq
    split at eq
    · cases eq
    · cases eq
      exact ⟨rfl, rfl⟩
  simp only [executeResume] at entry
  split at entry
  · cases entry
  · obtain ⟨rfl, rfl⟩ := started _ entry
    have pushed : Calm W v (v.push .null) := wf.calm_push .null
    split
    · rename_i w run
      obtain ⟨suspended, saved, ci, g', is, resumed, changed⟩ :=
        pushed.wf.resume_control (W := W) ((pushed.generators a).trans found) run
      have traps : w.frameTraps = saved.etraps := by
        rw [frameTraps, resumed.frames, resumed.frame]
        rfl
      rw [traps]
      exact .resumed suspended is resumed changed
    · split
      · rename_i suspended
        exact .failed suspended
      · rename_i notSuspended
        exact .refused notSuspended

theorem Reentered.moves {alive : LVObject → Bool} {a : Nat} {g : LVGenerator} {traps : Int}
    (wf : v.WF) (mem : a ∈ R) (found : v.generatorAt a = some g)
    (entered : Reentered W alive v a g v₁ traps) : Moves W R v v₁ := by
  have pushed : Calm W v (v.push .null) := wf.calm_push .null
  have quiet : Move W R v (v.push .null) := .same pushed rfl
  cases entered with
  | resumed suspended is resumed changed =>
    exact .tail (.tail (.single quiet)
      (.resumed mem ((pushed.generators a).trans found) suspended is resumed changed))
      changed.wf.setRoot
  | @failed newbase newtop suspended =>
    obtain ⟨ci, plain, -, frames⟩ := (v.push .null).pushFrame_frames newbase newtop
    have entered : Calm W _ _ := pushed.wf.calm_pushFrame newbase newtop
    exact .tail (.tail (.single quiet) (.push entered plain frames)) entered.wf.setRoot
  | refused notSuspended => exact .tail (.single quiet) pushed.wf.setRoot

end LVVM

namespace Exec

open LVVM

variable {alive : LVVM → LVObject → Bool} {Program : FunctionPrototype → Prop} {e e' : Exec}
  {ev : Event}

theorem Raises.moves {W R : Set Nat} {v : LVVM} {a : Activation} {cs : List Control} (wf : v.WF)
    (raises : e.Raises a cs v e') : Moves W R v e'.vm := by
  cases raises with
  | caught run => exact wf.unwind_moves rfl run
  | uncaught run =>
    have moves : Moves W R v _ := wf.unwind_moves rfl run
    exact .tail moves ((moves.wf wf).quiet_of rfl rfl rfl rfl rfl)

theorem Step.moves (wf : e.vm.WF) (step : Step alive Program ev e e') :
    Moves ev.writes ev.resumes e.vm e'.vm := by
  have count : ∀ {W R : Set Nat} {v : LVVM} (n : Int), v.WF → Move W R v (v.countCall n) :=
    fun n wf => wf.quiet_of rfl rfl rfl rfl rfl
  cases step with
  | @instruction _ a cs i v r controls fetch run =>
    obtain ⟨calm, touched⟩ := wf.fetch (W := {a | v.writes i = some a}) fetch
    have fetched : Move _ (Event.instruction i v).resumes e.vm v :=
      .of_calm calm (generatorFrames_touched touched)
    have executed : Moves {a | v.writes i = some a} (Event.instruction i v).resumes v r.vm := by
      rcases calm.wf.instruction (fun a writes => writes) run with
        ⟨-, did⟩ | ⟨a, g, resumes, found, did⟩
      · exact .single did.move
      · exact did.moves ⟨g, resumes⟩ found
    have ran : Moves _ _ e.vm r.vm := .head fetched executed
    cases r with
    | next v₁ traps => exact ran
    | call w v₁ => exact .tail ran (count _ (ran.wf wf))
    | finish v₁ traps => exact .tail ran (count _ (ran.wf wf))
  | «local» controls fetch op effect top =>
    obtain ⟨calm, touched⟩ := wf.fetch (W := ∅) fetch
    obtain ⟨calm', touched'⟩ := calm.wf.local (W := ∅) effect
    exact .single (.of_calm (calm.trans calm') (generatorFrames_touched (touched.trans touched')))
  | @metamethod _ a cs i v args controls fetch =>
    obtain ⟨calm, touched⟩ := wf.fetch (W := ∅) fetch
    exact .tail (.single (.of_calm calm (generatorFrames_touched touched))) calm.wf.pushArgs
  | raise controls fetch effect raises =>
    obtain ⟨calm, touched⟩ := wf.fetch (W := ∅) fetch
    have interrupted : Move ∅ ∅ _ _ := calm.wf.interrupted_move effect
    exact .head (.of_calm calm (generatorFrames_touched touched))
      (.head interrupted (raises.moves interrupted.wf))
  | call outside callee entry =>
    obtain ⟨w, rfl, -, -, call⟩ := wf.executeCall_loop (W := ∅) entry
    have called : Move ∅ ∅ e.vm w := by
      split at call
      · exact .created call
      · obtain ⟨calm, ci, plain, frames⟩ := call
        exact .push calm plain frames
    have rooted : Move ∅ ∅ w w.setRoot := called.wf.setRoot
    exact .tail (.tail (.single called) rooted) (count 1 rooted.wf)
  | generator outside callee entry => exact .single (.created (wf.executeCall_done entry))
  | native outside callee entry =>
    obtain ⟨calm, ci, plain, -, frames⟩ := wf.enterNative (W := ∅) entry
    exact .tail (.single (.push calm plain frames)) (count 1 calm.wf)
  | @resume _ address g v traps api found entry =>
    have at_ := generatorOf_found found
    have entered : Reentered ∅ _ _ _ _ _ _ := wf.executeResume_loop at_ entry
    have moves := entered.moves (R := {address}) wf rfl at_
    exact .tail moves (count 1 (moves.wf wf))
  | api api effect =>
    obtain ⟨calm, touched⟩ := wf.local (W := ∅) effect
    exact .single (.of_calm calm (generatorFrames_touched touched))
  | apiMetamethod api => exact .single wf.pushArgs
  | @failCall _ newbase newtop outside le =>
    obtain ⟨ci, plain, -, frames⟩ := e.vm.pushFrame_frames newbase newtop
    exact .single (.push (wf.calm_pushFrame newbase newtop) plain frames)
  | @setOuter _ address o api found =>
    obtain ⟨x, found⟩ := found
    have set : Calm {address} e.vm _ := wf.calm_setOuterValue found (Set.mem_singleton address) o
    exact .single (.same set (setOuterValue_callsstack ..))
  | @returnNative _ cs ret value v v' controls leave store top =>
    have popped : Moves ∅ ∅ e.vm v := by
      simp only [leaveNative] at leave
      split at leave
      · cases leave
      · obtain ⟨v, leave, eq⟩ := Option.map_eq_some_iff.mp leave
        cases eq
        exact .single (wf.popped leave)
    obtain ⟨calm, touched⟩ := (popped.wf wf).local (W := ∅) store
    exact .tail (.tail popped (.of_calm calm (generatorFrames_touched touched))) (count _ calm.wf)
  | failNative controls leave raises =>
    have popped := wf.popped (W := ∅) (R := ∅) leave
    have counted : Move ∅ ∅ _ _ := count (-1) popped.wf
    exact .head popped (.head counted (raises.moves counted.wf))
  | failNativeOutside controls leave outside =>
    have popped := wf.popped (W := ∅) (R := ∅) leave
    exact .tail (.single popped) (count _ popped.wf)
  | @returnMetamethod _ nparams cs v' controls store top =>
    have popped : Move ∅ ∅ e.vm (e.vm.pop nparams) := wf.quiet_of rfl rfl rfl rfl rfl
    obtain ⟨calm, touched⟩ := popped.wf.local (W := ∅) store
    exact .tail (.tail (.single popped) (.of_calm calm (generatorFrames_touched touched)))
      (calm.wf.quiet_of rfl rfl rfl rfl rfl)
  | @failMetamethod _ nparams a cs e' controls raises =>
    have popped : Move ∅ ∅ e.vm { e.vm.pop nparams with
        nmetamethodscall := e.vm.nmetamethodscall - 1 } := wf.quiet_of rfl rfl rfl rfl rfl
    exact .head popped (raises.moves popped.wf)
  | suspend controls awake leave =>
    have popped := wf.popped (W := ∅) (R := ∅) leave
    exact .tail (.single popped) (count _ popped.wf)
  | wakeup controls asleep effect =>
    obtain ⟨calm, touched⟩ := wf.local (W := ∅) effect
    exact .tail (.single (.of_calm calm (generatorFrames_touched touched))) (count _ calm.wf)

/-! ## Runs -/

/-- Every step has been allowed in the state it was made in. -/
inductive Runs (alive : LVVM → LVObject → Bool) (Program : FunctionPrototype → Prop)
    (Allowed : Exec → Event → Prop) (e : Exec) : Exec → Prop
  | refl : Runs alive Program Allowed e e
  | tail {ev e₁ e₂} (runs : Runs alive Program Allowed e e₁) (allowed : Allowed e₁ ev)
      (step : Step alive Program ev e₁ e₂) : Runs alive Program Allowed e e₂

/-- The machine before the program around it has called it. -/
structure Initial (e : Exec) : Prop where
  controls : e.controls = [.host]
  suspended : e.suspended = none
  callsstack : e.vm.callsstack = []
  etraps : e.vm.etraps = []
  generators : ∀ a, e.vm.generatorAt a = none
  wf : e.vm.WF

variable {Allowed : Exec → Event → Prop} {e₀ : Exec}

theorem Initial.generatorsOk (initial : Initial e) : GeneratorsOk e.vm where
  running a mem := by simp [generatorFrames, initial.callsstack] at mem
  nodup := by simp [generatorFrames, initial.callsstack]
  resting a g found := by simp [initial.generators] at found
  suspended a g found := by simp [initial.generators] at found

theorem Runs.wf (wf : e.vm.WF) (runs : Runs alive Program Allowed e e') : e'.vm.WF := by
  induction runs with
  | refl => exact wf
  | tail runs allowed step ih => exact (step.moves ih).wf ih

theorem Runs.ok (ok : e.vm.WF ∧ GeneratorsOk e.vm) (runs : Runs alive Program Allowed e e') :
    e'.vm.WF ∧ GeneratorsOk e'.vm := by
  induction runs with
  | refl => exact ok
  | tail runs allowed step ih =>
    have moves := step.moves ih.1
    exact ⟨moves.wf ih.1, moves.generatorsOk ih.2⟩

/-- A suspended generator waits until it is resumed. -/
theorem Runs.keeps_suspended {a : Nat} {g : LVGenerator} (ok : e.vm.WF ∧ GeneratorsOk e.vm)
    (found : e.vm.generatorAt a = some g) (suspended : g.state = .eSuspended)
    (runs : Runs alive Program Allowed e e') (asleep : ∀ e ev, Allowed e ev → a ∉ ev.resumes) :
    e'.vm.generatorAt a = some g := by
  induction runs with
  | refl => exact found
  | tail runs allowed step ih =>
    have ok := runs.ok ok
    exact (step.moves ok.1).keeps_suspended ok.2 ih suspended (asleep _ _ allowed)

/-- A closed variable keeps its value until it is written. -/
theorem Runs.keeps_closed {a : Nat} {o : LVObject} (wf : e.vm.WF)
    (closed : e.vm.heap a = some (.outer (some o))) (runs : Runs alive Program Allowed e e')
    (unwritten : ∀ e ev, Allowed e ev → a ∉ ev.writes) :
    e'.vm.heap a = some (.outer (some o)) := by
  induction runs with
  | refl => exact closed
  | tail runs allowed step ih => exact (step.moves (runs.wf wf)).closed a o (unwritten _ _ allowed) ih

end Exec

end Lavril
