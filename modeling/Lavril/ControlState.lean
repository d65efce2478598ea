import Lavril.Execute

/-!
# Frames, traps and generators

What the operations of the machine do to the call stack, the trap stack and the
generators. `Calm` is a change of anything else.
-/

namespace Lavril

/-- What of a frame only particular instructions change. -/
def CallInfo.mark (ci : CallInfo) : Int × Bool × Option Nat := (ci.etraps, ci.root, ci.generator)

/-- A frame without traps that is neither a generator's nor the first of an
activation. -/
def CallInfo.Plain (ci : CallInfo) : Prop := ci.mark = (0, false, none)

namespace CallInfo.Plain

variable {ci : CallInfo} (h : ci.Plain)

include h

theorem etraps : ci.etraps = 0 := congrArg Prod.fst h
theorem root : ci.root = false := congrArg (·.2.1) h
theorem generator : ci.generator = none := congrArg (·.2.2) h

end CallInfo.Plain

/-- The running frame has the same marks, the others are the same. -/
def Touched (frames frames' : List CallInfo) : Prop :=
  ∃ f : CallInfo → CallInfo, (∀ ci, (f ci).mark = ci.mark) ∧ frames' = frames.modifyHead f

theorem Touched.refl (frames : List CallInfo) : Touched frames frames :=
  ⟨id, fun _ => rfl, by cases frames <;> rfl⟩

theorem Touched.modify (frames : List CallInfo) (f : CallInfo → CallInfo)
    (keeps : ∀ ci, (f ci).mark = ci.mark) : Touched frames (frames.modifyHead f) :=
  ⟨f, keeps, rfl⟩

theorem Touched.trans {l₁ l₂ l₃ : List CallInfo} (h₁ : Touched l₁ l₂) (h₂ : Touched l₂ l₃) :
    Touched l₁ l₃ := by
  obtain ⟨f, keepsF, rfl⟩ := h₁
  obtain ⟨g, keepsG, rfl⟩ := h₂
  refine ⟨g ∘ f, fun ci => (keepsG _).trans (keepsF ci), ?_⟩
  cases l₁ <;> rfl

namespace LVVM

variable {W : Set Nat} {v v₁ v₂ : LVVM}

/-- A closed variable that is not in `W` keeps its value. -/
def KeepsClosed (W : Set Nat) (v v' : LVVM) : Prop :=
  ∀ a o, a ∉ W → v.heap a = some (.outer (some o)) → v'.heap a = some (.outer (some o))

/-- The traps and the generators are the same; of the closed variables those in
`W` may have changed. -/
structure Calm (W : Set Nat) (v v' : LVVM) : Prop where
  etraps : v'.etraps = v.etraps
  generators : ∀ a, v'.generatorAt a = v.generatorAt a
  closed : KeepsClosed W v v'
  wf : v'.WF

theorem KeepsClosed.trans (h₁ : KeepsClosed W v v₁) (h₂ : KeepsClosed W v₁ v₂) :
    KeepsClosed W v v₂ := fun a o notMem is => h₂ a o notMem (h₁ a o notMem is)

theorem WF.calm (wf : v.WF) : Calm W v v := ⟨rfl, fun _ => rfl, fun _ _ _ => id, wf⟩

theorem Calm.trans (h₁ : Calm W v v₁) (h₂ : Calm W v₁ v₂) : Calm W v v₂ where
  etraps := h₂.etraps.trans h₁.etraps
  generators a := (h₂.generators a).trans (h₁.generators a)
  closed := h₁.closed.trans h₂.closed
  wf := h₂.wf

/-- The heap and the outers are the same. -/
theorem WF.calm_of (wf : v.WF) (heap : v₁.heap = v.heap) (next : v₁.next = v.next)
    (outers : v₁.openouters = v.openouters) (etraps : v₁.etraps = v.etraps) : Calm W v v₁ where
  etraps := etraps
  generators a := by simp only [generatorAt, heap]
  closed a o _ is := heap ▸ is
  wf := wf.of_eq heap next outers

theorem WF.calm_setSlot (wf : v.WF) (slot : Int) (o : LVObject) : Calm W v (v.setSlot slot o) :=
  wf.calm_of rfl rfl rfl rfl

theorem WF.calm_setEnv (wf : v.WF) (env : Option LVObject) (slot : Int) :
    Calm W v (v.setEnv env slot) := by
  cases env with
  | none => exact wf.calm
  | some o => exact wf.calm_setSlot slot o

theorem KeepsClosed.update {b : Nat} {x : Option HeapObject}
    (other : b ∈ W ∨ ∀ o, v.heap b ≠ some (.outer (some o)))
    (eq : v₁.heap = Function.update v.heap b x) : KeepsClosed W v v₁ := by
  intro a o notMem is
  have ne : a ≠ b := by
    rintro rfl
    rcases other with mem | other
    · exact notMem mem
    · exact other o is
  rw [eq, Function.update_of_ne ne, is]

theorem generatorAt_of_ne {a b : Nat} {o : HeapObject}
    (eq : v₁.heap = Function.update v.heap b (some o)) (ne : a ≠ b) :
    v₁.generatorAt a = v.generatorAt a := by
  simp only [generatorAt, eq, Function.update_of_ne ne]

/-- An object that is no generator is put where none was. -/
theorem generatorAt_of_plain {b : Nat} {o : HeapObject} (was : v.generatorAt b = none)
    (plain : ∀ g, o ≠ .generator g) (eq : v₁.heap = Function.update v.heap b (some o)) (a : Nat) :
    v₁.generatorAt a = v.generatorAt a := by
  by_cases same : a = b
  · subst same
    rw [was]
    simp only [generatorAt, eq, Function.update_self]
    split
    · rename_i g found
      exact absurd (Option.some.inj found) (plain g)
    · rfl
  · simp only [generatorAt, eq, Function.update_of_ne same]

theorem WF.generatorAt_next (wf : v.WF) : v.generatorAt v.next = none := by
  simp [generatorAt, wf.fresh _ (le_refl _)]

theorem WF.calm_create (wf : v.WF) (type : LVObjectType) {o : HeapObject}
    (plain : ∀ g, o ≠ .generator g) : Calm W v (v.create type o).2 :=
  ⟨rfl, generatorAt_of_plain wf.generatorAt_next plain rfl,
    .update (.inr (by simp [wf.fresh _ (le_refl _)])) rfl, wf.create type o⟩

theorem generatorAt_outer {a : Nat} {x : Option LVObject} (found : v.heap a = some (.outer x)) :
    v.generatorAt a = none := by simp [generatorAt, found]

theorem WF.calm_closeOuters (wf : v.WF) (slot : Int) : Calm W v (v.closeOuters slot) := by
  refine ⟨rfl, fun a => ?_, fun a o _ is => ?_, wf.closeOuters slot⟩
  swap
  · rw [closeOuters_notMem (wf.notOpen (by simp [is])), is]
  by_cases mem : a ∈ v.openouters.map Prod.fst
  · obtain ⟨o, isOpen, rfl⟩ := List.mem_map.mp mem
    rw [generatorAt_outer (wf.outers o isOpen)]
    by_cases le : slot ≤ o.2
    · exact generatorAt_outer (wf.closeOuters_mem isOpen le)
    · exact generatorAt_outer ((wf.open_heap isOpen (by omega)).trans (wf.outers o isOpen))
  · simp only [generatorAt, closeOuters_notMem mem]

theorem WF.calm_setOuterValue (wf : v.WF) {address : Nat} {x : Option LVObject}
    (found : v.heap address = some (.outer x)) (written : address ∈ W) (o : LVObject) :
    Calm W v (v.setOuterValue address o) := by
  unfold setOuterValue
  split
  · exact wf.calm_setSlot _ o
  · rename_i closed
    refine ⟨rfl, generatorAt_of_plain (generatorAt_outer found) (by simp) rfl,
      .update (.inl written) rfl, ?_⟩
    exact wf.replace (by simp [found]) (outerSlot_none closed) _

theorem WF.calm_findOuter (wf : v.WF) (slot : Int) : Calm W v (v.findOuter slot).2 := by
  have after := wf.findOuter slot
  simp only [LVVM.findOuter] at after ⊢
  split at after
  · exact wf.calm
  · exact ⟨rfl, generatorAt_of_plain wf.generatorAt_next (by simp) rfl,
      .update (.inr (by simp [wf.fresh _ (le_refl _)])) rfl, after⟩

theorem WF.calm_captureOuters (wf : v.WF) (k : LVClosure) (outers : List LVOuterVar) :
    Calm W v (captureOuters k v outers).2 := by
  induction outers generalizing v with
  | nil => exact wf.calm
  | cons outer rest ih =>
    simp only [captureOuters]
    cases outer.type with
    | otLOCAL =>
      have found : Calm W _ _ := wf.calm_findOuter (v.stackbase + outer.src)
      exact found.trans (ih found.wf)
    | otOUTER => exact ih wf

theorem captureOuters_callsstack (k : LVClosure) (v : LVVM) (outers : List LVOuterVar) :
    (captureOuters k v outers).2.callsstack = v.callsstack := by
  induction outers generalizing v with
  | nil => rfl
  | cons outer rest ih =>
    simp only [captureOuters]
    cases outer.type with
    | otLOCAL =>
      rw [ih]
      simp only [findOuter]
      split <;> rfl
    | otOUTER => exact ih v

theorem WF.calm_closureOp (wf : v.WF) {k : LVClosure} {i : LVInstruction}
    {func : FunctionPrototype} (run : v.closureOp k i func = some v₁) :
    Calm W v v₁ ∧ v₁.callsstack = v.callsstack := by
  unfold closureOp at run
  split at run
  · rename_i params
    simp only [Option.some.injEq] at run
    subst run
    have created : Calm W _ _ := wf.calm_create .OT_CLOSURE
      (o := .closure ⟨func, params, none, [], []⟩) (fun _ => nofun)
    have captured : Calm W _ _ := created.wf.calm_captureOuters k func.outervalues
    obtain ⟨wf₂, heap⟩ := created.wf.capture k func.outervalues
    have placed := heap v.next (by rw [create_heap_next]; exact nofun)
    rw [create_heap_next] at placed
    refine ⟨created.trans (captured.trans ?_), ?_⟩
    · refine ⟨rfl, generatorAt_of_plain (by simp only [generatorAt, placed]) (by simp) rfl,
        .update (.inr (by simp [placed])) rfl, ?_⟩
      exact (wf₂.replace (by simp [placed]) (wf₂.notOpen (by simp [placed])) _).of_eq rfl rfl rfl
    · exact captureOuters_callsstack _ _ _
  · cases run

theorem WF.calm_pushFrame (wf : v.WF) (newbase newtop : Int) :
    Calm W v (v.pushFrame newbase newtop) := wf.calm_of rfl rfl rfl rfl

theorem pushFrame_frames (v : LVVM) (newbase newtop : Int) : ∃ ci : CallInfo,
    ci.Plain ∧ ci.closure = .null ∧
      (v.pushFrame newbase newtop).callsstack = ci :: v.callsstack := by
  refine ⟨_, ?_, ?_, rfl⟩
  · exact (rfl : CallInfo.mark _ = _)
  · rfl

theorem WF.calm_enterFrame (wf : v.WF) {newbase newtop : Int} {tailcall : Bool}
    (run : v.enterFrame newbase newtop tailcall = some v₁) :
    Calm W v v₁ ∧
      if tailcall then v.callsstack ≠ [] ∧ Touched v.callsstack v₁.callsstack
      else v₁.callsstack = (v.pushFrame newbase newtop).callsstack := by
  have grown : ∀ w w' : LVVM, (if newtop + MIN_STACK_OVERHEAD > w.stacksize then
      if w.nmetamethodscall ≠ 0 then none
      else some { w.nullSlots w.stacksize (newtop + MIN_STACK_OVERHEAD * 4) with
        stacksize := newtop + MIN_STACK_OVERHEAD * 4 }
      else some w) = some w' → w.WF → Calm W w w' ∧ w'.callsstack = w.callsstack := by
    intro w w' eq wf
    split at eq
    · split at eq
      · cases eq
      · cases eq
        exact ⟨wf.calm_of rfl rfl rfl rfl, rfl⟩
    · cases eq
      exact ⟨wf.calm, rfl⟩
  simp only [enterFrame] at run
  cases tailcall with
  | false =>
    have pushed : Calm W _ _ := wf.calm_pushFrame newbase newtop
    obtain ⟨calm, frames⟩ := grown _ _ run pushed.wf
    exact ⟨pushed.trans calm, frames⟩
  | true =>
    cases frames : v.callsstack with
    | nil => simp [frames] at run
    | cons ci rest =>
      simp only [frames, if_true, Option.bind_some] at run
      have entered : Calm W v { v with
          callsstack := { ci with ncalls := ci.ncalls + 1 } :: rest
          stackbase := newbase, top := newtop } := wf.calm_of rfl rfl rfl rfl
      obtain ⟨calm, same⟩ := grown _ _ run entered.wf
      refine ⟨entered.trans calm, List.cons_ne_nil _ _, fun ci => { ci with ncalls := ci.ncalls + 1 }, ?_, same⟩
      exact fun _ => rfl

theorem WF.calm_bindParameters (wf : v.WF) {k : LVClosure} {args : Nat} {stackbase : Int}
    (run : v.bindParameters k args stackbase = some v₁) :
    Calm W v v₁ ∧ v₁.callsstack = v.callsstack := by
  simp only [bindParameters] at run
  split at run
  · split at run
    · cases run
    · cases run
      have nulled : Calm W v (v.nullSlots (stackbase + ((k.function.parameters.length : Int) - 1))
          (stackbase + ((k.function.parameters.length : Int) - 1) +
            (args - ((k.function.parameters.length : Int) - 1)))) :=
        wf.calm_of rfl rfl rfl rfl
      exact ⟨nulled.trans ((nulled.wf.calm_create _ (by simp)).trans
        ((nulled.wf.create _ _).calm_setSlot _ _)), rfl⟩
  · split at run
    · split at run
      · cases run
        exact ⟨wf.calm_of rfl rfl rfl rfl, rfl⟩
      · cases run
    · cases run
      exact ⟨wf.calm, rfl⟩

/-- `StartCall` pushes a plain frame, or a tail call reuses the running one. -/
theorem WF.calm_startFrame (wf : v.WF) {clo : LVObject} {k : LVClosure} {target stackbase : Int}
    {args : Nat} {tailcall : Bool}
    (run : v.startFrame clo k target args stackbase tailcall = some v₁) :
    Calm W v v₁ ∧
      if tailcall then Touched v.callsstack v₁.callsstack
      else ∃ ci : CallInfo, ci.Plain ∧ v₁.callsstack = ci :: v.callsstack := by
  simp only [startFrame, Option.bind_eq_bind, Option.bind_eq_some_iff, Option.pure_def,
    Option.some.injEq] at run
  obtain ⟨bound, bind, entered, enter, rfl⟩ := run
  obtain ⟨calmBind, framesBind⟩ : Calm W _ _ ∧ _ := wf.calm_bindParameters bind
  have calmEnv : Calm W _ _ := calmBind.wf.calm_setEnv k.env stackbase
  obtain ⟨calmEnter, framesEnter⟩ : Calm W _ _ ∧ _ := calmEnv.wf.calm_enterFrame enter
  refine ⟨calmBind.trans (calmEnv.trans (calmEnter.trans ?_)), ?_⟩
  · exact calmEnter.wf.calm_of rfl rfl rfl rfl
  · rw [setEnv_callsstack, framesBind] at framesEnter
    cases tailcall with
    | true =>
      refine framesEnter.2.trans ⟨_, fun ci => ?_, rfl⟩
      rfl
    | false =>
      rw [if_neg Bool.false_ne_true] at framesEnter ⊢
      simp only [framesEnter, pushFrame, List.modifyHead_cons, setEnv_callsstack, framesBind]
      refine ⟨_, ?_, rfl⟩
      exact (rfl : CallInfo.mark _ = _)

theorem WF.calm_leaveFrame (wf : v.WF) (run : v.leaveFrame = some v₁) :
    Calm W v v₁ ∧ ∃ ci, v.callsstack = ci :: v₁.callsstack := by
  cases frames : v.callsstack with
  | nil => simp [leaveFrame, frames] at run
  | cons ci rest =>
    simp only [leaveFrame, frames, Option.some.injEq] at run
    subst run
    have closed : Calm W _ _ := wf.calm_closeOuters v.stackbase
    exact ⟨closed.trans (closed.wf.calm_of rfl rfl rfl rfl), ci, rfl⟩

theorem WF.calm_return (wf : v.WF) {arg0 : Nat} {arg1 : Int}
    (run : v.return_ arg0 arg1 = some v₁) :
    Calm W v v₁ ∧ ∃ ci, v.callsstack = ci :: v₁.callsstack := by
  unfold return_ at run
  split at run
  · cases run
  · split at run
    · exact wf.calm_leaveFrame run
    · obtain ⟨calm, ci, frames⟩ : Calm W _ _ ∧ _ :=
        (wf.calm_setSlot (W := W) _ _).wf.calm_leaveFrame run
      exact ⟨(wf.calm_setSlot _ _).trans calm, ci, frames⟩

theorem generatorAt_heap {a : Nat} {g : LVGenerator} (found : v.generatorAt a = some g) :
    v.heap a = some (.generator g) := by
  unfold generatorAt at found
  split at found
  · rename_i g' eq
    rw [eq, Option.some.inj found]
  · cases found

/-- The generator at one address changes. -/
structure Changed (W : Set Nat) (a : Nat) (g : LVGenerator) (v v' : LVVM) : Prop where
  generators : ∀ b, v'.generatorAt b = if b = a then some g else v.generatorAt b
  closed : KeepsClosed W v v'
  wf : v'.WF

theorem WF.setGenerator (wf : v.WF) {a : Nat} {g : LVGenerator} (found : v.generatorAt a = some g)
    (g' : LVGenerator) : Changed W a g' v (v.setGenerator a g') where
  generators b := by
    by_cases eq : b = a
    · subst eq
      simp [generatorAt, LVVM.setGenerator]
    · rw [if_neg eq]
      exact generatorAt_of_ne rfl eq
  closed := .update (.inr (by simp [generatorAt_heap found])) rfl
  wf := by
    have old := generatorAt_heap found
    exact wf.replace (by simp [old]) (wf.notOpen (by simp [old])) _

theorem Changed.then {a : Nat} {g : LVGenerator} (h : Changed W a g v v₁) (calm : Calm W v₁ v₂) :
    Changed W a g v v₂ :=
  ⟨fun b => (calm.generators b).trans (h.generators b), h.closed.trans calm.closed, calm.wf⟩

theorem Changed.after {a : Nat} {g : LVGenerator} (calm : Calm W v v₁) (h : Changed W a g v₁ v₂) :
    Changed W a g v v₂ :=
  ⟨fun b => by rw [h.generators, calm.generators], calm.closed.trans h.closed, h.wf⟩

theorem Changed.trans {a : Nat} {g g' : LVGenerator} (h₁ : Changed W a g v v₁)
    (h₂ : Changed W a g' v₁ v₂) : Changed W a g' v v₂ where
  generators b := by
    rw [h₂.generators, h₁.generators]
    split <;> rfl
  closed := h₁.closed.trans h₂.closed
  wf := h₂.wf

theorem WF.changed_create (wf : v.WF) (g : LVGenerator) :
    Changed W v.next g v (v.create .OT_GENERATOR (.generator g)).2 where
  generators b := by
    by_cases eq : b = v.next
    · subst eq
      simp [generatorAt, LVVM.create]
    · rw [if_neg eq]
      exact generatorAt_of_ne rfl eq
  closed := .update (.inr (by simp [wf.fresh _ (le_refl _)])) rfl
  wf := wf.create ..

end LVVM

/-- What `LVGenerator::Create` makes of a closure. -/
def LVGenerator.new (clo : LVObject) : LVGenerator := ⟨clo, .eRunning, [], false, none, []⟩

/-- A trap whose slots are counted from another base. -/
def LVExceptionTrap.shift (et : LVExceptionTrap) (n : Int) : LVExceptionTrap :=
  { et with stackbase := et.stackbase + n, stacksize := et.stacksize + n }

theorem LVExceptionTrap.shift_shift (et : LVExceptionTrap) (m n : Int) :
    (et.shift m).shift n = et.shift (n + m) := by
  simp only [shift, Int.add_assoc, Int.add_comm m n]

namespace LVVM

variable {W : Set Nat} {v v₁ v₂ : LVVM}

/-- The generator `g'` holds what `Yield(target)` saves of the frame `ci`. -/
structure Saved (v : LVVM) (ci : CallInfo) (g : LVGenerator) (target : Nat) (g' : LVGenerator) :
    Prop where
  state : g'.state = .eSuspended
  closure : g'.closure = g.closure
  frame : g'.ci = some { ci with generator := none }
  etraps : g'.etraps =
    g.etraps ++ (v.etraps.take ci.etraps.toNat).map (·.shift (-v.stackbase))
  size : g'.stack.length = (v.top - v.stackbase).toNat
  this : 0 < g'.stack.length → g'.stack.headD .null = v.stack v.stackbase
  weak : g'.weakThis = (v.stack v.stackbase).type.refCounted
  registers : ∀ n, 0 < n → n < g'.stack.length → g'.stack.getD n .null =
    if n < target then v.stack (v.stackbase + n) else g.stack.getD n .null

/-- `g` with what `Yield(target)` saves of the frame `ci`. -/
def save (v : LVVM) (ci : CallInfo) (g : LVGenerator) (target : Nat) : LVGenerator :=
  { g with
    stack := (List.range (v.top - v.stackbase).toNat).map fun n =>
      if n = 0 then v.stack v.stackbase else if n < target then v.stack (v.stackbase + n)
      else g.stack.getD n .null
    weakThis := (v.stack v.stackbase).type.refCounted
    ci := some { ci with generator := none }
    etraps := g.etraps ++ (v.etraps.take ci.etraps.toNat).map (·.shift (-v.stackbase))
    state := .eSuspended }

theorem save_saved (v : LVVM) (ci : CallInfo) (g : LVGenerator) (target : Nat) :
    Saved v ci g target (v.save ci g target) where
  state := rfl
  closure := rfl
  frame := rfl
  etraps := rfl
  size := by simp [save]
  this pos := by
    simp only [save, List.length_map, List.length_range] at pos ⊢
    cases size : (v.top - v.stackbase).toNat with
    | zero => omega
    | succ n => simp [List.range_succ_eq_map]
  weak := rfl
  registers n pos lt := by
    simp only [save, List.length_map, List.length_range] at lt ⊢
    have ne : n ≠ 0 := by omega
    simp [List.getD_eq_getElem?_getD, lt, ne]

theorem yield_eq {a target : Nat} {g : LVGenerator} (run : v.yield_ a g target = some v₁) :
    ∃ ci rest, v.callsstack = ci :: rest ∧ g.state = .eRunning ∧
      v₁ = { v.setGenerator a (v.save ci g target) with
        stack := (v.nullSlots v.stackbase v.top).stack
        etraps := v.etraps.drop ci.etraps.toNat } := by
  unfold yield_ at run
  split at run
  · rename_i ci rest running frames
    cases run
    refine ⟨ci, rest, frames, running, ?_⟩
    simp only [setGenerator, save, LVExceptionTrap.shift, Int.sub_eq_add_neg, nullSlots]
  · cases run

theorem WF.yield_control (wf : v.WF) {a target : Nat} {g : LVGenerator}
    (found : v.generatorAt a = some g) (run : v.yield_ a g target = some v₁) :
    ∃ ci g', v.callsstack.head? = some ci ∧ g.state = .eRunning ∧
      v₁.callsstack = v.callsstack ∧ v₁.etraps = v.etraps.drop ci.etraps.toNat ∧
      Changed W a g' v v₁ ∧ Saved v ci g target g' := by
  obtain ⟨ci, rest, frames, running, rfl⟩ := yield_eq run
  refine ⟨ci, _, by rw [frames]; rfl, running, rfl, rfl, ?_, v.save_saved ci g target⟩
  have set : Changed W _ _ v _ := wf.setGenerator found (v.save ci g target)
  exact ⟨set.generators, set.closed, set.wf.of_eq rfl rfl rfl⟩

/-- The frame that `Resume` has restored from `g`, whose own stack and traps it
has taken. -/
structure Resumed (alive : LVObject → Bool) (v : LVVM) (a : Nat) (g : LVGenerator) (target : Int)
    (saved ci : CallInfo) (g' : LVGenerator) (v' : LVVM) : Prop where
  frames : v'.callsstack = ci :: v.callsstack
  frame : ci = { saved with
    generator := some a, target := target, prevstkbase := v.top - v.stackbase
    prevtop := v.top - v.stackbase }
  stackbase : v'.stackbase = v.top
  top : v'.top = v.top + g.stack.length
  etraps : v'.etraps =
    (g.etraps.drop (g.etraps.length - saved.etraps.toNat)).map (·.shift v.top) ++ v.etraps
  this : v'.stack v.top = g.this alive
  registers : ∀ n, 0 < n → n < g.stack.length → v'.stack (v.top + n) = g.stack.getD n .null
  running : g' = { g with
    stack := g.stack.take 1 ++ List.replicate (g.stack.length - 1) .null
    etraps := g.etraps.take (g.etraps.length - saved.etraps.toNat), state := .eRunning }

theorem WF.resume_control (wf : v.WF) {alive : LVObject → Bool} {a : Nat} {g : LVGenerator}
    {target : Int} (found : v.generatorAt a = some g)
    (run : v.resume_ alive a g target = some v₁) :
    g.state = .eSuspended ∧ ∃ saved ci g', g.ci = some saved ∧
      Resumed alive v a g target saved ci g' v₁ ∧ Changed W a g' v v₁ := by
  unfold resume_ at run
  split at run
  · rename_i saved suspended is
    simp only [Option.bind_eq_bind, Option.bind_eq_some_iff, Option.pure_def,
      Option.some.injEq] at run
    obtain ⟨entered, enter, rfl⟩ := run
    obtain ⟨calm, frames⟩ : Calm W _ _ ∧ _ := wf.calm_enterFrame enter
    have spec := enterFrame_spec enter
    rw [if_neg Bool.false_ne_true] at frames
    have set : ∀ g', Changed W a g' v (entered.setGenerator a g') := fun g' =>
      .after calm (calm.wf.setGenerator ((calm.generators a).trans found) g')
    refine ⟨suspended, saved, _, _, is, ⟨?_, rfl, ?_, ?_, ?_, ?_, ?_, rfl⟩,
      ⟨(set _).generators, (set _).closed, (set _).wf.of_eq rfl rfl rfl⟩⟩
    · simp only [frames, pushFrame, List.modifyHead_cons]
    · exact spec.stackbase
    · exact spec.top
    · simp only [LVExceptionTrap.shift, calm.etraps]
    · simp
    · intro n pos lt
      simp only
      rw [if_neg (by omega), if_pos (by omega)]
      congr 1
      omega
  · cases run

/-- A new generator that is suspended at its first instruction. -/
structure Created (W : Set Nat) (v v' : LVVM) : Prop where
  callsstack : v'.callsstack = v.callsstack
  etraps : v'.etraps = v.etraps
  generator : ∃ a g ci, v.generatorAt a = none ∧ Changed W a g v v' ∧ g.state = .eSuspended ∧
    g.ci = some ci ∧ ci.Plain ∧ g.etraps = []

theorem WF.startGenerator (wf : v.WF) {ci : CallInfo} {rest : List CallInfo} {clo : LVObject}
    {k : LVClosure} {target : Int} (frames : v.callsstack = ci :: rest) (plain : ci.Plain)
    (run : v.startGenerator clo k target = some v₁) :
    v₁.callsstack = rest ∧ v₁.etraps = v.etraps ∧
      ∃ g, Changed W v.next g v v₁ ∧ Saved v ci (.new clo) k.function.stacksize g := by
  simp only [LVVM.startGenerator, Option.bind_eq_bind, Option.bind_eq_some_iff, Option.pure_def,
    Option.some.injEq] at run
  obtain ⟨yielded, yield, returned, ret, rfl⟩ := run
  have created : Changed W _ _ v _ := wf.changed_create (.new clo)
  have found := created.generators v.next
  rw [if_pos rfl] at found
  obtain ⟨ci', g, head, -, same, traps, changed, saved⟩ :=
    created.wf.yield_control (W := W) found yield
  obtain ⟨calm, ci₁, frames₁⟩ : Calm W _ _ ∧ _ := changed.wf.calm_return ret
  have stored : Calm W _ _ := calm.wf.calm_setSlot (returned.stackbase + target)
    (v.create .OT_GENERATOR (.generator (.new clo))).1
  have eq : ci = ci' := by
    simp only [LVVM.create, frames, List.head?_cons, Option.some.injEq] at head
    exact head
  subst eq
  refine ⟨?_, ?_, g, (created.trans changed).then (calm.trans stored), ?_⟩
  · rw [same] at frames₁
    exact (List.cons.inj (frames.symm.trans frames₁)).2.symm
  · refine (stored.etraps.trans calm.etraps).trans (traps.trans ?_)
    rw [plain.etraps]
    rfl
  · exact ⟨saved.state, saved.closure, saved.frame, saved.etraps, saved.size, saved.this,
      saved.weak, saved.registers⟩

theorem Created.after (calm : Calm W v v₁) (frames : v₁.callsstack = v.callsstack)
    (created : Created W v₁ v₂) : Created W v v₂ := by
  obtain ⟨same, traps, a, g, ci, fresh, changed, rest⟩ := created
  refine ⟨same.trans frames, traps.trans calm.etraps, a, g, ci, ?_, .after calm changed, rest⟩
  rw [← calm.generators, fresh]

theorem WF.startCall (wf : v.WF) {clo : LVObject} {k : LVClosure} {target stackbase : Int}
    {args : Nat} (run : v.startCall clo k target args stackbase false = some v₁) :
    if k.function.bgenerator then Created W v v₁
    else Calm W v v₁ ∧ ∃ ci : CallInfo, ci.Plain ∧ v₁.callsstack = ci :: v.callsstack := by
  simp only [LVVM.startCall, Option.bind_eq_bind, Option.bind_eq_some_iff] at run
  obtain ⟨started, start, run⟩ := run
  obtain ⟨calm, ci, plain, frames⟩ : Calm W _ _ ∧ _ := wf.calm_startFrame start
  split
  · rename_i generator
    rw [if_pos generator] at run
    obtain ⟨same, traps, g, changed, saved⟩ :=
      calm.wf.startGenerator (W := W) frames plain run
    refine ⟨same, traps.trans calm.etraps, started.next, g, _, ?_, .after calm changed,
      saved.state, saved.frame, ?_, ?_⟩
    · rw [← calm.generators, calm.wf.generatorAt_next]
    · simp [CallInfo.Plain, CallInfo.mark, plain.etraps, plain.root]
    · rw [saved.etraps, plain.etraps]
      rfl
  · rename_i script
    rw [if_neg script] at run
    cases run
    exact ⟨calm, ci, plain, frames⟩

theorem WF.startTailCall (wf : v.WF) {clo : LVObject} {k : LVClosure} {target stackbase : Int}
    {args : Nat} (script : k.function.bgenerator = false)
    (run : v.startCall clo k target args stackbase true = some v₁) :
    Calm W v v₁ ∧ Touched v.callsstack v₁.callsstack := by
  simp only [LVVM.startCall, script, Option.bind_eq_bind, Option.bind_eq_some_iff] at run
  obtain ⟨started, start, run⟩ := run
  rw [if_neg Bool.false_ne_true] at run
  cases run
  exact wf.calm_startFrame start

/-- The frame `ci` has been left and its generator, if any, is dead. -/
structure Left (W : Set Nat) (ci : CallInfo) (v v' : LVVM) : Prop where
  callsstack : v.callsstack = ci :: v'.callsstack
  etraps : v'.etraps = v.etraps
  generators : ∀ b, v'.generatorAt b =
    if ci.generator = some b then (v.generatorAt b).map LVGenerator.kill else v.generatorAt b
  closed : KeepsClosed W v v'
  wf : v'.WF

theorem Left.of_calm {ci : CallInfo} (calm : Calm W v v₁) (frames : v.callsstack = ci :: v₁.callsstack)
    (none : ci.generator = none) : Left W ci v v₁ :=
  ⟨frames, calm.etraps, fun b => by rw [calm.generators, none, if_neg (by simp)], calm.closed, calm.wf⟩

/-- A frame is left after its generator has been killed. -/
theorem WF.left (wf : v.WF) {ci : CallInfo} {rest : List CallInfo} (frames : v.callsstack = ci :: rest)
    (leave : ∀ w : LVVM, w.WF → w.callsstack = v.callsstack →
      w = v.killGenerator ci → Calm W w v₁ ∧ ∃ ci, w.callsstack = ci :: v₁.callsstack) :
    Left W ci v v₁ := by
  have tail : ∀ w : LVVM, w.callsstack = v.callsstack →
      (∃ ci, w.callsstack = ci :: v₁.callsstack) → v.callsstack = ci :: v₁.callsstack := by
    rintro w same ⟨ci', eq⟩
    rw [same, frames] at eq
    rw [frames, (List.cons.inj eq).2]
  cases generator : ci.generator with
  | none =>
    obtain ⟨calm, popped⟩ := leave v wf rfl (by simp [killGenerator, generator])
    exact .of_calm calm (tail v rfl popped) generator
  | some a =>
    cases found : v.generatorAt a with
    | none =>
      obtain ⟨calm, popped⟩ := leave v wf rfl (by simp [killGenerator, generator, found])
      refine ⟨tail v rfl popped, calm.etraps, fun b => ?_, calm.closed, calm.wf⟩
      rw [calm.generators]
      split
      · rename_i eq
        rw [generator, Option.some.injEq] at eq
        simp [← eq, found]
      · rfl
    | some g =>
      have set : Changed W a g.kill v _ := wf.setGenerator found g.kill
      obtain ⟨calm, popped⟩ := leave (v.setGenerator a g.kill) set.wf rfl
        (by simp [killGenerator, generator, found])
      have changed := set.then calm
      refine ⟨tail _ rfl popped, calm.etraps, fun b => ?_, changed.closed, changed.wf⟩
      rw [changed.generators]
      by_cases eq : b = a
      · rw [if_pos eq, generator, if_pos (by rw [eq]), eq, found, Option.map_some]
      · rw [if_neg eq, generator, if_neg (by simpa [eq_comm] using eq)]

theorem WF.enterNative (wf : v.WF) {clo : LVObject} {k : LVNativeClosure} {nargs : Nat}
    {newbase : Int} (run : v.enterNative clo k nargs newbase = some v₁) :
    Calm W v v₁ ∧ ∃ ci : CallInfo, ci.Plain ∧ ci.closure = clo ∧
      v₁.callsstack = ci :: v.callsstack := by
  unfold LVVM.enterNative at run
  split at run
  · cases run
  split at run
  · cases run
  simp only [Option.bind_eq_bind, Option.bind_eq_some_iff, Option.pure_def,
    Option.some.injEq] at run
  obtain ⟨entered, enter, rfl⟩ := run
  obtain ⟨calm, frames⟩ : Calm W _ _ ∧ _ := wf.calm_enterFrame enter
  rw [if_neg Bool.false_ne_true] at frames
  constructor
  · refine calm.trans ?_
    have placed : Calm W entered { entered with
        callsstack := entered.callsstack.modifyHead fun ci => { ci with closure := clo }
        stack := fun s =>
          if newbase + nargs ≤ s ∧ s < newbase + nargs + k.outervalues.length then
            k.outervalues.getD (s - (newbase + nargs)).toNat .null
          else entered.stack s } := calm.wf.calm_of rfl rfl rfl rfl
    exact placed.trans (placed.wf.calm_setEnv _ _)
  · simp only [setEnv_callsstack, frames, pushFrame, List.modifyHead_cons]
    refine ⟨_, ?_, rfl, rfl⟩
    rfl

theorem lookup_type {o : LVObject} {object : HeapObject} (found : v.lookup o = some object) :
    o.type ∈ object.types := by
  unfold lookup at found
  split at found
  · simpa using (Option.filter_eq_some_iff.mp found).2
  · cases found

end LVVM

end Lavril
