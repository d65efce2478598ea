import Lavril.Frames

/-!
# Where the result of a call goes

The target of a `CALL` travels to the store as the signed byte `sarg0` for a
script callee and as the unsigned `arg0` for every other one.
-/

namespace Lavril

open LVVM

/-- What a running frame keeps: its registers and the argument window end at
`top`, which is on the allocated stack, and every reference is to an address in
use. -/
structure CallFits (v : LVVM) (i : LVInstruction) : Prop where
  byte : i.arg0 < 256
  register : i.arg0 ≠ 255 → v.stackbase + i.arg0 < v.top
  window : v.stackbase + i.arg2 ≤ v.top
  allocated : v.top ≤ v.stacksize
  used : ∀ s bits, (v.stack s).type = .OT_GENERATOR ∨ (v.stack s).type = .OT_INSTANCE →
    (v.stack s).unVal = .raw bits → bits.toNat < v.next
  room : v.next + 2 < 2 ^ 64

/-- Every way in which the call can end normally leaves its value in the target
register; below the argument window the call itself writes nothing else. -/
structure StoresResult (v : LVVM) (i : LVInstruction) (w : Awaiting) (v₁ : LVVM) : Prop where
  entry : ∀ s, s < v.stackbase + i.arg2 → s ≠ v.stackbase + i.arg0 → v₁.stack s = v.stack s
  exit : ∀ v₂ value v₃, Body w v₁ v₂ → Completes i w v₂ value v₃ →
    v₃.stack (v.stackbase + i.arg0) = value ∧
    ∀ s, s < v.stackbase + i.arg2 → s ≠ v.stackbase + i.arg0 → v₃.stack s = v₂.stack s

/-- The target is neither an argument of the call nor a captured variable. -/
def TargetSheltered (v : LVVM) (i : LVInstruction) : Prop :=
  i.arg0 < i.arg2 ∧ v.stackbase + i.arg0 ∉ v.openouters.map Prod.snd

/-- The calls that store their result where they should. -/
def TargetAgrees (v : LVVM) (i : LVInstruction) : Prop :=
  match v.lookup (v.register i.arg1) with
  | some (.closure _) => i.arg0 < 128
  | some (.class c) =>
    match c.constructor.bind v.lookup with
    | some (.closure k) => k.function.bgenerator = false ∧ TargetSheltered v i
    | some (.nativeclosure _) => TargetSheltered v i
    | _ => True
  | _ => True

section

variable {v v₁ v₂ v₃ : LVVM} {i : LVInstruction} {w : Awaiting}

theorem sarg0_of_lt (lt : i.arg0 < 128) : i.sarg0 = i.arg0 := by simp [LVInstruction.sarg0, lt]

theorem sarg0_of_le (le : 128 ≤ i.arg0) : i.sarg0 = (i.arg0 : Int) - 256 := by
  simp [LVInstruction.sarg0]
  omega

theorem sarg0_ne (byte : i.arg0 < 256) (ne : i.arg0 ≠ 255) : i.sarg0 ≠ -1 := by
  unfold LVInstruction.sarg0
  split <;> omega

theorem Body.frame {ci : CallInfo} {rest : List CallInfo} (body : Body w v₁ v₂)
    (frame : v₁.callsstack = ci :: rest) :
    ∃ ci₂ rest₂, v₂.callsstack = ci₂ :: rest₂ ∧ ci₂.linkage = ci.linkage := by
  have frames := body.frames
  rw [frame, List.map_cons] at frames
  obtain ⟨ci₂, rest₂, eq, head, -⟩ := List.map_eq_cons_iff.mp frames
  exact ⟨ci₂, rest₂, eq, head⟩

/-- A body that returns at once, with one slot changed. -/
theorem Body.setSlot {slot : Int} {o : LVObject} (idle : ∀ o, w ≠ .done o)
    (free : w.limit v₁ ≤ slot ∨ slot ∈ v₁.openouters.map Prod.snd) :
    Body w v₁ (v₁.setSlot slot o) where
  stackbase := rfl
  frames := rfl
  below s lt notOuter := by
    refine setSlot_stack_of_ne fun eq => ?_
    rcases free with le | outer
    · omega
    · exact notOuter (eq ▸ outer)
  top _ _ := rfl
  idle o eq := absurd eq (idle o)

theorem script_exit {target newbase : Int} {arg0 : Nat} {arg1 : Int}
    (started : Started target newbase v v₁) (body : Body w v₁ v₂) (ne : target ≠ -1)
    (ret : v₂.return_ arg0 arg1 = some v₃) :
    ∀ s, s < v.top → v₃.stack s =
      if s = v.stackbase + target then v₂.resultValue arg0 arg1 else v₂.stack s := by
  obtain ⟨ci, frame, prevstkbase, prevtop, root, eq⟩ := started.frame
  obtain ⟨ci₂, rest₂, frame₂, linkage⟩ := body.frame frame
  simp only [CallInfo.linkage, Prod.mk.injEq] at linkage
  obtain ⟨eqBase, eqTop, eqTarget, eqRoot⟩ := linkage
  have base : v₂.stackbase - ci₂.prevstkbase = v.stackbase := by
    rw [body.stackbase, started.stackbase, eqBase, prevstkbase]
    omega
  obtain ⟨-, -, stack⟩ := return_with_target frame₂ (eqRoot.trans root)
    (by rwa [eqTarget, eq]) ret
  intro s lt
  rw [stack s (by rw [base, eqTop, prevtop]; omega), base, eqTarget, eq]

theorem constructor_exit {newbase : Int} {arg0 : Nat} {arg1 : Int}
    (started : Started (-1) newbase v v₁) (body : Body w v₁ v₂)
    (ret : v₂.return_ arg0 arg1 = some v₃) :
    ∀ s, s < v.top → v₃.stack s = v₂.stack s := by
  obtain ⟨ci, frame, prevstkbase, prevtop, root, eq⟩ := started.frame
  obtain ⟨ci₂, rest₂, frame₂, linkage⟩ := body.frame frame
  simp only [CallInfo.linkage, Prod.mk.injEq] at linkage
  obtain ⟨eqBase, eqTop, eqTarget, eqRoot⟩ := linkage
  have base : v₂.stackbase - ci₂.prevstkbase = v.stackbase := by
    rw [body.stackbase, started.stackbase, eqBase, prevstkbase]
    omega
  obtain ⟨-, -, stack⟩ := return_without_target frame₂ (eqTarget.trans eq) ret
  intro s lt
  exact stack s (by rw [base, eqTop, prevtop]; omega)

theorem native_exit {newbase : Int} {value : LVObject} {result : Int}
    (base : v₁.stackbase = newbase)
    (frame : ∃ ci, v₁.callsstack = ci :: v.callsstack ∧
      ci.prevstkbase = newbase - v.stackbase ∧ ci.prevtop = v.top - v.stackbase)
    (body : Body w v₁ v₂) (leave : v₂.leaveNative result = some (value, v₃)) :
    v₃.stackbase = v.stackbase ∧ ∀ s, s < v.top → v₃.stack s = v₂.stack s := by
  obtain ⟨ci, frame, prevstkbase, prevtop⟩ := frame
  obtain ⟨ci₂, rest₂, frame₂, linkage⟩ := body.frame frame
  simp only [CallInfo.linkage, Prod.mk.injEq] at linkage
  obtain ⟨eqBase, eqTop, -, -⟩ := linkage
  unfold leaveNative at leave
  split at leave
  · cases leave
  simp only [Option.map_eq_some_iff, Prod.mk.injEq] at leave
  obtain ⟨left, leave, -, rfl⟩ := leave
  obtain ⟨leftBase, leftTop, -, stack⟩ := leaveFrame_spec frame₂ leave
  have caller : v₂.stackbase - ci₂.prevstkbase = v.stackbase := by
    rw [body.stackbase, base, eqBase, prevstkbase]
    omega
  refine ⟨leftBase.trans caller, fun s lt => stack s ?_⟩
  rw [leftTop, caller, eqTop, prevtop]
  omega

theorem exists_other (o : LVObject) : ∃ x : LVObject, x ≠ o := by
  by_cases eq : o = .null
  · exact ⟨.bool true, by rw [eq]; decide⟩
  · exact ⟨.null, Ne.symm eq⟩

/-- A new object is in no slot yet. -/
theorem CallFits.fresh (fits : CallFits v i) {address : Nat} {type : LVObjectType}
    (kind : type = .OT_GENERATOR ∨ type = .OT_INSTANCE) (least : v.next ≤ address)
    (most : address ≤ v.next + 2) (s : Int) : v.stack s ≠ .ofAddress type address := by
  intro eq
  have bound := fits.used s (BitVec.ofNat 64 address) (by rw [eq]; exact kind) (by rw [eq]; rfl)
  have room := fits.room
  rw [BitVec.toNat_ofNat, Nat.mod_eq_of_lt (by omega)] at bound
  omega

theorem storeTarget_eq (byte : i.arg0 < 256) (ne : i.arg0 ≠ 255) (o : LVObject) :
    v.storeTarget i o = v.setSlot (v.stackbase + i.arg0) o := by
  simp [storeTarget, sarg0_ne byte ne]

/-- A script function stores its result in the target exactly when the number of
the register has the same value as a signed byte. -/
theorem closure_stores_iff {k : LVClosure} (fits : CallFits v i) (target : i.arg0 ≠ 255)
    (callee : v.lookup (v.register i.arg1) = some (.closure k))
    (call : v.callOp i = some (w, v₁)) : StoresResult v i w v₁ ↔ i.arg0 < 128 := by
  have register := fits.register target
  have window := fits.window
  have signed := sarg0_ne fits.byte target
  simp only [callOp, callee, startCall, Option.bind_eq_bind, Option.bind_eq_some_iff,
    Option.pure_def, Option.some.injEq, Prod.mk.injEq] at call
  obtain ⟨called, ⟨frame, start, finish⟩, rfl, rfl⟩ := call
  have started := startFrame_spec (by have := fits.allocated; omega) start
  by_cases generator : k.function.bgenerator = true
  · rw [if_pos generator] at finish ⊢
    obtain ⟨-, next, stored, others⟩ := startGenerator_spec started finish
    rw [next, Nat.add_sub_cancel]
    constructor
    · intro stores
      by_contra high
      have low : i.sarg0 = (i.arg0 : Int) - 256 := sarg0_of_le (by omega)
      rw [low] at stored
      have old := stores.entry (v.stackbase + ((i.arg0 : Int) - 256))
        (by have := fits.byte; omega) (by omega)
      exact fits.fresh (.inl rfl) started.next.1 (by have := started.next.2; omega) _
        (old.symm.trans stored)
    · intro low
      rw [sarg0_of_lt low] at stored others
      refine ⟨fun s lt ne => others s lt (by omega) ne, fun v₂ value v₃ body complete => ?_⟩
      cases complete
      obtain rfl := body.idle _ rfl
      exact ⟨stored, fun _ _ _ => rfl⟩
  · rw [if_neg generator, Option.some.injEq] at finish
    subst finish
    rw [if_neg generator]
    constructor
    · intro stores
      by_contra high
      have low : i.sarg0 = (i.arg0 : Int) - 256 := sarg0_of_le (by omega)
      obtain ⟨ci, frames, -⟩ := started.frame
      obtain ⟨x, other⟩ := exists_other (frame.stack (v.stackbase + i.arg0))
      -- the callee returns `x` from a register above the target
      have body : Body .script frame (frame.setSlot (frame.stackbase + (i.arg0 + 1 : Nat)) x) :=
        Body.setSlot (by simp) (.inl (by simp [Awaiting.limit]; omega))
      obtain ⟨v₃, ret⟩ := return_isSome 0 ((i.arg0 + 1 : Nat) : Int)
        (v := frame.setSlot (frame.stackbase + (i.arg0 + 1 : Nat)) x) frames
      obtain ⟨value, -⟩ := stores.exit _ _ v₃ body (.script 0 _ ret)
      rw [script_exit started body signed ret _ register, if_neg (by omega),
        setSlot_stack_of_ne (by rw [started.stackbase]; omega)] at value
      refine other ?_
      rw [value]
      simp [resultValue]
    · intro low
      refine ⟨fun s lt _ => started.stack s lt, fun v₂ value v₃ body complete => ?_⟩
      cases complete with
      | script arg0 arg1 ret =>
        have exit := script_exit started body signed ret
        rw [sarg0_of_lt low] at exit
        refine ⟨by rw [exit _ register, if_pos rfl], fun s lt ne => ?_⟩
        rw [exit s (by omega), if_neg ne]

theorem native_stores {k : LVNativeClosure} (fits : CallFits v i) (target : i.arg0 ≠ 255)
    (callee : v.lookup (v.register i.arg1) = some (.nativeclosure k))
    (call : v.callOp i = some (w, v₁)) : StoresResult v i w v₁ := by
  have window := fits.window
  simp only [callOp, callee, Option.bind_eq_bind, Option.bind_eq_some_iff, Option.pure_def,
    Option.some.injEq, Prod.mk.injEq] at call
  obtain ⟨entered, enter, rfl, rfl⟩ := call
  obtain ⟨base, frame, -, below⟩ := enterNative_spec (by have := fits.allocated; omega) enter
  refine ⟨fun s lt _ => below s lt, fun v₂ value v₃ body complete => ?_⟩
  cases complete with
  | native result leave =>
    obtain ⟨caller, stack⟩ := native_exit base frame body leave
    rw [storeTarget_eq fits.byte target, caller]
    refine ⟨setSlot_stack_self _ _, fun s lt ne => ?_⟩
    rw [setSlot_stack_of_ne ne, stack s (by omega)]

theorem foldl_push (values : List Nat) (value : LVVM → Nat → LVObject) (v : LVVM) :
    let pushed := values.foldl (fun v n => v.push (value v n)) v
    pushed.stackbase = v.stackbase ∧ pushed.top = v.top + values.length ∧
    ∀ s, s < v.top → pushed.stack s = v.stack s := by
  induction values generalizing v with
  | nil => simp
  | cons n values ih =>
    obtain ⟨base, top, stack⟩ := ih (v.push (value v n))
    refine ⟨base, ?_, fun s lt => ?_⟩
    · rw [List.foldl_cons, top]
      simp [push]
      omega
    · rw [List.foldl_cons, stack s (by simp [push]; omega)]
      exact setSlot_stack_of_ne (by omega)

/-- `_call` of a delegate leaves its value in the target. -/
theorem delegate_stores (fits : CallFits v i) (target : i.arg0 ≠ 255) (clo : LVObject) :
    StoresResult v i (v.callDelegate i clo).1 (v.callDelegate i clo).2 := by
  have window := fits.window
  obtain ⟨base, top, stack⟩ := foldl_push (List.range i.arg3)
    (fun v n => v.register (i.arg2 + n)) (v.push clo)
  rw [List.length_range] at top
  have below : ∀ s, s < v.top → (v.callDelegate i clo).2.stack s = v.stack s := by
    intro s lt
    refine (stack s (by simp [push]; omega)).trans ?_
    exact setSlot_stack_of_ne (by omega)
  refine ⟨fun s lt _ => below s (by omega), fun v₂ value v₃ body complete => ?_⟩
  have topBody : v₂.top = v.top + 1 + i.arg3 := (body.top _ rfl).trans top
  have baseBody : v₂.stackbase = v.stackbase := body.stackbase.trans base
  cases complete
  rw [storeTarget_eq fits.byte target]
  refine ⟨?_, fun s lt ne => ?_⟩
  · simp [pop, nullSlots, baseBody, setSlot]
  · rw [setSlot_stack_of_ne (by simpa [pop, nullSlots, baseBody] using ne)]
    refine nullSlots_stack_of_lt ?_
    rw [topBody]
    push_cast
    omega

/-- A constructor runs after the instance is in the target, and its own result is
dropped. -/
theorem constructor_stores_iff {inst : LVObject} {native : Bool} (fits : CallFits v i)
    (target : i.arg0 ≠ 255) (kind : inst.type = .OT_INSTANCE)
    (base : v₁.stackbase = v.stackbase + i.arg2) (outers : v₁.openouters = v.openouters)
    (entry : ∀ s, s < v.stackbase + i.arg2 →
      v₁.stack s = if s = v.stackbase + i.arg0 then inst else v.stack s)
    (ends : ∀ v₂, Body (.constructor inst native) v₁ v₂ →
      ∃ value v₃, Completes i (.constructor inst native) v₂ value v₃)
    (exit : ∀ v₂ value v₃, Body (.constructor inst native) v₁ v₂ →
      Completes i (.constructor inst native) v₂ value v₃ →
      value = inst ∧ ∀ s, s < v.top → v₃.stack s = v₂.stack s) :
    StoresResult v i (.constructor inst native) v₁ ↔ TargetSheltered v i := by
  have register := fits.register target
  have window := fits.window
  constructor
  · intro stores
    by_contra exposed
    have free : v₁.stackbase ≤ v.stackbase + i.arg0 ∨
        v.stackbase + i.arg0 ∈ v₁.openouters.map Prod.snd := by
      rw [base, outers]
      rw [TargetSheltered, not_and_or, not_not] at exposed
      exact exposed.imp_left (by omega)
    -- the constructor puts null where the instance is
    have body : Body (.constructor inst native) v₁ (v₁.setSlot (v.stackbase + i.arg0) .null) :=
      Body.setSlot (by simp) free
    obtain ⟨value, v₃, complete⟩ := ends _ body
    obtain ⟨result, -⟩ := stores.exit _ _ _ body complete
    obtain ⟨rfl, same⟩ := exit _ _ _ body complete
    rw [same _ register, setSlot_stack_self] at result
    rw [← result] at kind
    cases kind
  · rintro ⟨below, notOuter⟩
    refine ⟨fun s lt ne => by rw [entry s lt, if_neg ne], fun v₂ value v₃ body complete => ?_⟩
    obtain ⟨rfl, same⟩ := exit _ _ _ body complete
    refine ⟨?_, fun s lt _ => same s (by omega)⟩
    rw [same _ register, body.below _ (by simp [Awaiting.limit, base]; omega) (by rwa [outers]),
      entry _ (by omega), if_pos rfl]

/-- The state in which a constructor is looked at: the instance is in the target. -/
structure Instantiated (i : LVInstruction) (inst : LVObject) (v v₀ : LVVM) : Prop where
  kind : inst.type = .OT_INSTANCE
  stackbase : v₀.stackbase = v.stackbase
  top : v₀.top = v.top
  stacksize : v₀.stacksize = v.stacksize
  openouters : v₀.openouters = v.openouters
  next : v₀.next = v.next + 1
  stack : ∀ s, v₀.stack s = if s = v.stackbase + i.arg0 then inst else v.stack s

theorem instantiate_spec (clo : LVObject) (c : LVClass) (byte : i.arg0 < 256)
    (target : i.arg0 ≠ 255) :
    Instantiated i (v.instantiate i clo c).1 v (v.instantiate i clo c).2 := by
  simp only [instantiate, storeTarget_eq byte target]
  refine ⟨rfl, rfl, rfl, rfl, rfl, rfl, fun s => ?_⟩
  simp [create, LVVM.setSlot, Function.update_apply]

theorem Instantiated.stores {v₀ : LVVM} {inst : LVObject} (created : Instantiated i inst v v₀) :
    StoresResult v i (.done inst) v₀ where
  entry s _ ne := by rw [created.stack, if_neg ne]
  exit v₂ value v₃ body complete := by
    cases complete
    obtain rfl := body.idle _ rfl
    exact ⟨by rw [created.stack, if_pos rfl], fun _ _ _ => rfl⟩

theorem Instantiated.entry {v₀ : LVVM} {inst : LVObject} (created : Instantiated i inst v v₀)
    (s : Int) (lt : s < v.stackbase + i.arg2) :
    (v₀.setSlot (v.stackbase + i.arg2) inst).stack s =
      if s = v.stackbase + i.arg0 then inst else v.stack s := by
  rw [setSlot_stack_of_ne (by omega), created.stack]

theorem scriptConstructor_stores_iff {v₀ : LVVM} {inst o : LVObject} {k : LVClosure}
    (fits : CallFits v i) (target : i.arg0 ≠ 255) (created : Instantiated i inst v v₀)
    (call : v₀.callConstructor i inst o (some (.closure k)) = some (w, v₁)) :
    StoresResult v i w v₁ ↔ k.function.bgenerator = false ∧ TargetSheltered v i := by
  have window := fits.window
  have allocated := fits.allocated
  have eqBase := created.stackbase
  have eqTop := created.top
  have eqSize := created.stacksize
  simp only [callConstructor, startCall, Option.bind_eq_bind, Option.bind_eq_some_iff,
    Option.pure_def, Option.some.injEq, Prod.mk.injEq, eqBase] at call
  obtain ⟨called, ⟨frame, start, finish⟩, rfl, rfl⟩ := call
  have started := startFrame_spec (by simp only [LVVM.setSlot]; omega) start
  by_cases generator : k.function.bgenerator = true
  · -- the generator is stored in the slot below the base of the caller
    rw [if_pos generator] at finish ⊢
    obtain ⟨-, next, stored, others⟩ := startGenerator_spec started finish
    refine ⟨fun stores => ?_, fun agrees => absurd generator (by simp [agrees.1])⟩
    rw [setSlot_stackbase, eqBase] at stored
    have old := stores.entry (v.stackbase + -1) (by omega) (by omega)
    have least := started.next.1
    have most := started.next.2
    simp only [LVVM.setSlot, created.next] at least most
    exact absurd (old.symm.trans stored) (fits.fresh (.inl rfl) (by omega) (by omega) _)
  · rw [if_neg generator, Option.some.injEq] at finish
    subst finish
    rw [if_neg generator]
    simp only [Bool.not_eq_true] at generator
    simp only [generator, true_and]
    refine constructor_stores_iff fits target created.kind started.stackbase
      (started.openouters.trans created.openouters)
      (fun s lt => (started.stack s lt).trans (created.entry s lt)) (fun v₂ body => ?_)
      (fun v₂ value v₃ body complete => ?_)
    · obtain ⟨ci, frames, -⟩ := started.frame
      obtain ⟨ci₂, rest₂, frame₂, -⟩ := body.frame frames
      obtain ⟨v₃, ret⟩ := return_isSome 0 0 frame₂
      exact ⟨_, v₃, .constructor 0 0 ret⟩
    · cases complete with
      | constructor arg0 arg1 ret =>
        exact ⟨rfl, fun s lt => constructor_exit started body ret s (by simpa [eqTop] using lt)⟩

theorem nativeConstructor_stores_iff {v₀ : LVVM} {inst o : LVObject} {k : LVNativeClosure}
    (fits : CallFits v i) (target : i.arg0 ≠ 255) (created : Instantiated i inst v v₀)
    (call : v₀.callConstructor i inst o (some (.nativeclosure k)) = some (w, v₁)) :
    StoresResult v i w v₁ ↔ TargetSheltered v i := by
  have window := fits.window
  have allocated := fits.allocated
  have eqBase := created.stackbase
  have eqTop := created.top
  have eqSize := created.stacksize
  simp only [callConstructor, Option.bind_eq_bind, Option.bind_eq_some_iff,
    Option.pure_def, Option.some.injEq, Prod.mk.injEq, eqBase] at call
  obtain ⟨entered, enter, rfl, rfl⟩ := call
  obtain ⟨base, frame, outers, below⟩ :=
    enterNative_spec (by simp only [LVVM.setSlot]; omega) enter
  refine constructor_stores_iff fits target created.kind base (outers.trans created.openouters)
    (fun s lt => (below s lt).trans (created.entry s lt)) (fun v₂ body => ?_)
    (fun v₂ value v₃ body complete => ?_)
  · obtain ⟨ci, frames, -⟩ := frame
    obtain ⟨ci₂, rest₂, frame₂, -⟩ := body.frame frames
    obtain ⟨v₃, leave⟩ := leaveFrame_isSome frame₂
    exact ⟨_, v₃, @Completes.nativeConstructor _ _ _ _ .null 0 (by simp [leaveNative, leave])⟩
  · cases complete with
    | nativeConstructor result leave =>
      obtain ⟨-, stack⟩ := native_exit base frame body leave
      exact ⟨rfl, fun s lt => stack s (by simpa [eqTop] using lt)⟩

theorem class_stores_iff {clo : LVObject} {c : LVClass} (fits : CallFits v i)
    (target : i.arg0 ≠ 255) (call : v.callClass i clo c = some (w, v₁)) :
    StoresResult v i w v₁ ↔
      match c.constructor.bind v.lookup with
      | some (.closure k) => k.function.bgenerator = false ∧ TargetSheltered v i
      | some (.nativeclosure _) => TargetSheltered v i
      | _ => True := by
  have created := instantiate_spec (v := v) clo c fits.byte target
  unfold callClass at call
  split at call
  · cases call
  generalize v.instantiate i clo c = instance_ at *
  cases constructor : c.constructor with
  | none =>
    simp only [constructor, Option.some.injEq, Prod.mk.injEq] at call
    obtain ⟨rfl, rfl⟩ := call
    simpa using created.stores
  | some o =>
    simp only [constructor] at call
    simp only [Option.bind_some]
    split
    · rename_i k found
      exact scriptConstructor_stores_iff fits target created (by rwa [found] at call)
    · rename_i k found
      exact nativeConstructor_stores_iff fits target created (by rwa [found] at call)
    · rename_i other noScript noNative
      have done : some (Awaiting.done instance_.1, instance_.2) = some (w, v₁) := by
        rw [← call]
        unfold callConstructor
        split
        · exact absurd ‹_› (noScript _)
        · exact absurd ‹_› (noNative _)
        · rfl
      simp only [Option.some.injEq, Prod.mk.injEq] at done
      obtain ⟨rfl, rfl⟩ := done
      simpa using created.stores

/-- Every slot outside the window that starts at `low` and ends before `high` is
the same after the step. -/
def WindowOnly (low high : Int) (v v₁ : LVVM) : Prop :=
  ∀ s, s < low ∨ high ≤ s → v₁.stack s = v.stack s

/-- A generator that nobody wants is stored one slot below the base of the caller. -/
theorem discarded_generator_slot {k : LVClosure} (fits : CallFits v i) (discarded : i.arg0 = 255)
    (callee : v.lookup (v.register i.arg1) = some (.closure k))
    (generator : k.function.bgenerator = true) (call : v.callOp i = some (w, v₁)) :
    v₁.stack (v.stackbase - 1) ≠ v.stack (v.stackbase - 1) := by
  have window := fits.window
  simp only [callOp, callee, startCall, Option.bind_eq_bind, Option.bind_eq_some_iff,
    Option.pure_def, Option.some.injEq, Prod.mk.injEq] at call
  obtain ⟨called, ⟨frame, start, finish⟩, rfl, rfl⟩ := call
  rw [if_pos generator] at finish
  have started := startFrame_spec (by have := fits.allocated; omega) start
  obtain ⟨-, -, stored, -⟩ := startGenerator_spec started finish
  have marker : i.sarg0 = -1 := by simp [LVInstruction.sarg0, discarded]
  rw [marker, ← sub_eq_add_neg] at stored
  rw [stored]
  exact (fits.fresh (.inl rfl) started.next.1 (by have := started.next.2; omega) _).symm

/-- No call of a generator function whose result is discarded leaves the rest of
the stack alone. -/
theorem discarded_generator_escapes {k : LVClosure} (fits : CallFits v i)
    (discarded : i.arg0 = 255) (callee : v.lookup (v.register i.arg1) = some (.closure k))
    (generator : k.function.bgenerator = true) (call : v.callOp i = some (w, v₁)) :
    ¬ WindowOnly (v.stackbase + i.arg2) (v.stackbase + i.arg2 + k.function.stacksize) v v₁ :=
  fun only => discarded_generator_slot fits discarded callee generator call
    (only (v.stackbase - 1) (.inl (by omega)))

end

/-- A function of no arguments, and whether it is a generator. -/
def plainFunction (bgenerator : Bool) : LVClosure where
  function := { (FunctionState.new false).addParameter "this" with bgenerator := bgenerator }.buildProto
  this := by cases bgenerator <;> decide
  env := none
  outervalues := []
  defaultparams := []

/-- A frame of 210 registers, with a function in register 201 and null in the
others. -/
def wideFrame (bgenerator : Bool) : LVVM where
  stack s := if s = 301 then .ofAddress .OT_CLOSURE 0 else .null
  stacksize := 1000
  stackbase := 100
  top := 310
  callsstack := []
  alloccallsstacksize := 4
  nmetamethodscall := 0
  nnativecalls := 0
  etraps := []
  openouters := []
  heap address := if address = 0 then some (.closure (plainFunction bgenerator)) else none
  next := 1

/-- `CALL` of register 201 with `this` in register 202. -/
def callOf201 (target : Int) : LVInstruction := instruction .OP_CALL target 201 202 1

theorem wideFrame_fits (bgenerator : Bool) (target : Int) (byte : uchar target < 210 ∨ target = -1) :
    CallFits (wideFrame bgenerator) (callOf201 target) where
  byte := uchar_lt target
  register ne := by
    rcases byte with lt | rfl
    · simp only [wideFrame, callOf201, instruction]
      omega
    · exact absurd rfl ne
  window := by
    have eq : uchar 202 = 202 := by decide
    simp only [wideFrame, callOf201, instruction, eq]
    omega
  allocated := by simp [wideFrame]
  used s bits kind := by
    simp only [wideFrame] at kind
    split at kind
    · simp [LVObject.ofAddress, LVObject.ref] at kind
    · simp [LVObject.null] at kind
  room := by simp [wideFrame]

/-- The slot below the base of that frame changes. -/
theorem discarded_generator_below_frame : ∃ w v₁,
    CallFits (wideFrame true) (callOf201 (-1)) ∧
    (wideFrame true).callOp (callOf201 (-1)) = some (w, v₁) ∧
    v₁.stack ((wideFrame true).stackbase - 1) ≠
      (wideFrame true).stack ((wideFrame true).stackbase - 1) := by
  have fits := wideFrame_fits true (-1) (.inr rfl)
  refine ⟨_, _, fits, rfl, ?_⟩
  exact discarded_generator_slot (k := plainFunction true) fits rfl rfl rfl rfl

theorem discarded_generator_escapes_wideFrame : ∃ w v₁,
    (wideFrame true).callOp (callOf201 (-1)) = some (w, v₁) ∧
    ¬ WindowOnly 302 303 (wideFrame true) v₁ := by
  have fits := wideFrame_fits true (-1) (.inr rfl)
  refine ⟨_, _, rfl, ?_⟩
  exact discarded_generator_escapes (k := plainFunction true) fits rfl rfl rfl rfl

end Lavril
