import Lavril.FailedCalls

/-!
# Where frames and the generators that run in them are kept

A frame that runs a generator has a plain pointer to it. What keeps the
generator is a slot below the frame, the register it was resumed from. `Seats`
says so of every frame, along with where the frame starts and its traps.
-/

namespace Lavril

/-- The value refers to the generator at an address. -/
def LVObject.RefersTo (o : LVObject) (a : Nat) : Prop :=
  o.type = .OT_GENERATOR ∧ ∃ bits, o.unVal = .raw bits ∧ bits.toNat = a

/-- What `Seats` reads of a frame. -/
def CallInfo.seat (ci : CallInfo) : Int × Int × Int × Option Nat × Int :=
  (ci.prevstkbase, ci.prevtop, ci.etraps, ci.generator, ci.target)

/-- What the trap stores is at or above the base of its frame. -/
structure LVExceptionTrap.Above (et : LVExceptionTrap) : Prop where
  extarget : 0 ≤ et.extarget
  stacksize : et.stackbase ≤ et.stacksize

section

variable (stack : Int → LVObject) (size : Int)

/-- A slot of the stack below `base` refers to the generator. -/
def KeptBelow (base : Int) (a : Nat) : Prop :=
  ∃ s, 0 ≤ s ∧ s < base ∧ s < size ∧ (stack s).RefersTo a

/-- The frame `ci` starts at `base` and the traps `own` are those it has. -/
structure Seat (base : Int) (ci : CallInfo) (own : List LVExceptionTrap) : Prop where
  prevstkbase : 0 ≤ ci.prevstkbase
  prevtop : 0 ≤ ci.prevtop
  traps : ci.Traps base own
  above : ∀ t ∈ own, t.Above
  generator : ∀ a, ci.generator = some a → 0 ≤ ci.target ∧ KeptBelow stack size base a

/-- The frames, the first of which starts at `base`, and all their traps. -/
inductive Seats : Int → List CallInfo → List LVExceptionTrap → Prop
  | nil {base ts} (start : 0 ≤ base) : Seats base [] ts
  | cons {base ci rest own ts} (seat : Seat stack size base ci own)
      (below : Seats (base - ci.prevstkbase) rest ts) : Seats base (ci :: rest) (own ++ ts)

/-- To store `o` in the slot takes no generator its last slot below the frame it runs in. -/
def Spares (slot : Int) (o : LVObject) : Int → List CallInfo → Prop
  | _, [] => True
  | base, ci :: rest =>
    (∀ a, ci.generator = some a → slot < base → (stack slot).RefersTo a →
      o.RefersTo a ∨ ∃ s, s ≠ slot ∧ 0 ≤ s ∧ s < base ∧ s < size ∧ (stack s).RefersTo a) ∧
    Spares slot o (base - ci.prevstkbase) rest

end

variable {stack stack' : Int → LVObject} {size size' base slot : Int} {frames frames' : List CallInfo}
  {ts own : List LVExceptionTrap} {ci ci' : CallInfo} {o : LVObject}

theorem Seats.base_nonneg (seats : Seats stack size base frames ts) : 0 ≤ base := by
  induction seats with
  | nil start => exact start
  | cons seat below ih =>
    have := seat.prevstkbase
    omega

theorem KeptBelow.congr {a : Nat} (kept : KeptBelow stack size base a) (le : size ≤ size')
    (same : ∀ s, s < base → s < size → stack' s = stack s) : KeptBelow stack' size' base a := by
  obtain ⟨s, nonneg, lt, inside, refers⟩ := kept
  exact ⟨s, nonneg, lt, by omega, (same s lt inside).symm ▸ refers⟩

theorem Seat.congr (seat : Seat stack size base ci own) (same : ci'.seat = ci.seat)
    (le : size ≤ size') (below : ∀ s, s < base → s < size → stack' s = stack s) :
    Seat stack' size' base ci' own := by
  simp only [CallInfo.seat, Prod.mk.injEq] at same
  obtain ⟨prevstkbase, prevtop, etraps, generator, target⟩ := same
  refine ⟨prevstkbase ▸ seat.prevstkbase, prevtop ▸ seat.prevtop, seat.traps.congr etraps,
    seat.above, fun a is => ?_⟩
  obtain ⟨nonneg, kept⟩ := seat.generator a (generator ▸ is)
  exact ⟨target ▸ nonneg, kept.congr le below⟩

/-- Nothing changes below the running frame. -/
theorem Seats.congr (seats : Seats stack size base frames ts)
    (same : frames'.map CallInfo.seat = frames.map CallInfo.seat) (le : size ≤ size')
    (below : ∀ s, s < base → s < size → stack' s = stack s) :
    Seats stack' size' base frames' ts := by
  induction seats generalizing frames' with
  | nil start =>
    obtain rfl := List.map_eq_nil_iff.mp same
    exact .nil start
  | @cons base ci rest own ts seat seats ih =>
    obtain ⟨ci', rest', rfl, eq, same⟩ := List.map_eq_cons_iff.mp same
    have lower : ci'.prevstkbase = ci.prevstkbase := congrArg Prod.fst eq
    have := seat.prevstkbase
    refine .cons (seat.congr eq le below) ?_
    rw [lower]
    exact ih same fun s lt => below s (by omega)

/-- A slot at or above the running frame keeps no generator. -/
theorem Seats.spares (seats : Seats stack size base frames ts) (le : base ≤ slot) (o : LVObject) :
    Spares stack size slot o base frames := by
  induction seats with
  | nil => trivial
  | cons seat below ih =>
    have := seat.prevstkbase
    refine ⟨fun a is lt => ?_, ih (by omega)⟩
    omega

theorem Seats.store (seats : Seats stack size base frames ts)
    (spares : Spares stack size slot o base frames) :
    Seats (Function.update stack slot o) size base frames ts := by
  induction seats with
  | nil start => exact .nil start
  | @cons base ci rest own ts seat below ih =>
    refine .cons ⟨seat.prevstkbase, seat.prevtop, seat.traps, seat.above, fun a is => ?_⟩
      (ih spares.2)
    obtain ⟨target, s, nonneg, lt, inside, refers⟩ := seat.generator a is
    refine ⟨target, ?_⟩
    by_cases eq : s = slot
    · subst eq
      rcases spares.1 a is lt refers with same | ⟨s', ne, nonneg', lt', inside', refers'⟩
      · exact ⟨s, nonneg, lt, inside, by rwa [Function.update_self]⟩
      · exact ⟨s', nonneg', lt', inside', by rwa [Function.update_of_ne ne]⟩
    · exact ⟨s, nonneg, lt, inside, by rwa [Function.update_of_ne eq]⟩

theorem Seats.cons_inv (seats : Seats stack size base (ci :: frames) ts) : ∃ own rest,
    ts = own ++ rest ∧ Seat stack size base ci own ∧
      Seats stack size (base - ci.prevstkbase) frames rest := by
  cases seats with
  | cons seat below => exact ⟨_, _, rfl, seat, below⟩

namespace LVVM

variable {v v' w : LVVM} {i : LVInstruction} {rest : List CallInfo}

def Seated (v : LVVM) : Prop := Seats v.stack v.stacksize v.stackbase v.callsstack v.etraps

/-- The running frame has worked on its own slots. -/
structure Stays (v v' : LVVM) : Prop where
  frames : v'.callsstack.map CallInfo.seat = v.callsstack.map CallInfo.seat
  stackbase : v'.stackbase = v.stackbase
  etraps : v'.etraps = v.etraps
  stacksize : v.stacksize ≤ v'.stacksize
  below : ∀ s, s < v.stackbase → s < v.stacksize → v'.stack s = v.stack s

theorem Seated.stays (seated : v.Seated) (stays : Stays v v') : v'.Seated := by
  have moved := Seats.congr seated stays.frames stays.stacksize stays.below
  rwa [← stays.stackbase, ← stays.etraps] at moved

theorem Stays.refl (v : LVVM) : Stays v v := ⟨rfl, rfl, rfl, le_refl _, fun _ _ _ => rfl⟩

theorem Stays.trans (h : Stays v w) (h' : Stays w v') : Stays v v' where
  frames := h'.frames.trans h.frames
  stackbase := h'.stackbase.trans h.stackbase
  etraps := h'.etraps.trans h.etraps
  stacksize := h.stacksize.trans h'.stacksize
  below s lt inside := by
    rw [h'.below s (h.stackbase ▸ lt) (inside.trans_le h.stacksize), h.below s lt inside]

/-- The stack and its size have not changed. -/
theorem Stays.of_frames (frames : v'.callsstack.map CallInfo.seat = v.callsstack.map CallInfo.seat)
    (stackbase : v'.stackbase = v.stackbase) (etraps : v'.etraps = v.etraps)
    (stacksize : v'.stacksize = v.stacksize) (stack : v'.stack = v.stack) : Stays v v' :=
  ⟨frames, stackbase, etraps, stacksize.ge, fun s _ _ => by rw [stack]⟩

theorem map_seat_modifyHead {f : CallInfo → CallInfo} (keeps : ∀ ci, (f ci).seat = ci.seat)
    (frames : List CallInfo) :
    (frames.modifyHead f).map CallInfo.seat = frames.map CallInfo.seat := by
  cases frames with
  | nil => rfl
  | cons ci rest => simp only [List.modifyHead_cons, List.map_cons, keeps]

theorem stays_setSlot (v : LVVM) {slot : Int} (le : v.stackbase ≤ slot) (o : LVObject) :
    Stays v (v.setSlot slot o) :=
  ⟨rfl, rfl, rfl, le_refl _, fun _ lt _ => setSlot_stack_of_ne (by omega)⟩

/-- The same value is stored before and after. -/
theorem Stays.setSlot (stays : Stays v v') (slot : Int) (o : LVObject) :
    Stays (v.setSlot slot o) (v'.setSlot slot o) := by
  refine ⟨stays.frames, stays.stackbase, stays.etraps, stays.stacksize, fun s lt inside => ?_⟩
  by_cases eq : s = slot
  · rw [eq, setSlot_stack_self, setSlot_stack_self]
  · rw [setSlot_stack_of_ne eq, setSlot_stack_of_ne eq, stays.below s lt inside]

theorem stays_nullSlots (v : LVVM) {low : Int} (le : v.stackbase ≤ low) (high : Int) :
    Stays v (v.nullSlots low high) :=
  ⟨rfl, rfl, rfl, le_refl _, fun _ lt _ => nullSlots_stack_of_lt (by omega)⟩

theorem stays_setEnv (v : LVVM) (env : Option LVObject) {slot : Int} (le : v.stackbase ≤ slot) :
    Stays v (v.setEnv env slot) := by
  cases env with
  | none => exact .refl v
  | some o => exact v.stays_setSlot le o

theorem Seated.setSlot (seated : v.Seated)
    (spares : Spares v.stack v.stacksize slot o v.stackbase v.callsstack) :
    (v.setSlot slot o).Seated :=
  Seats.store seated spares

/-! ## Frames are entered -/

/-- A frame has been entered, at or above the base of the running one. -/
structure Rises (v v' : LVVM) : Prop where
  frames : ∃ target, v'.callsstack.map CallInfo.seat =
    (v'.stackbase - v.stackbase, v.top - v.stackbase, 0, none, target) ::
      v.callsstack.map CallInfo.seat
  start : v.stackbase ≤ v'.stackbase
  etraps : v'.etraps = v.etraps
  stacksize : v.stacksize ≤ v'.stacksize
  below : ∀ s, s < v.stackbase → s < v.stacksize → v'.stack s = v.stack s

theorem Seated.rises (seated : v.Seated) (top : v.stackbase ≤ v.top) (rises : Rises v v') :
    v'.Seated := by
  obtain ⟨target, frames⟩ := rises.frames
  obtain ⟨ci, rest, pushed, seat, same⟩ := List.map_eq_cons_iff.mp frames
  simp only [CallInfo.seat, Prod.mk.injEq] at seat
  obtain ⟨prevstkbase, prevtop, none, generator, -⟩ := seat
  have start := rises.start
  have below : Seats v'.stack v'.stacksize (v'.stackbase - ci.prevstkbase) rest v'.etraps := by
    have moved := Seats.congr seated same rises.stacksize rises.below
    rwa [← rises.etraps, show v.stackbase = v'.stackbase - ci.prevstkbase by omega] at moved
  have first : Seat v'.stack v'.stacksize v'.stackbase ci [] := by
    refine ⟨by omega, by omega, ⟨none.symm, List.forall_mem_nil _⟩, List.forall_mem_nil _,
      fun a is => ?_⟩
    rw [generator] at is
    cases is
  unfold Seated
  rw [pushed]
  exact .cons first below

theorem Rises.after (stays : Stays v w) (top : w.top = v.top) (rises : Rises w v') :
    Rises v v' where
  frames := by
    obtain ⟨target, frames⟩ := rises.frames
    rw [stays.stackbase, top, stays.frames] at frames
    exact ⟨target, frames⟩
  start := stays.stackbase ▸ rises.start
  etraps := rises.etraps.trans stays.etraps
  stacksize := stays.stacksize.trans rises.stacksize
  below s lt inside := by
    rw [rises.below s (stays.stackbase ▸ lt) (inside.trans_le stays.stacksize),
      stays.below s lt inside]

theorem Rises.then (rises : Rises v w) (stays : Stays w v') : Rises v v' where
  frames := by
    rw [stays.frames, stays.stackbase]
    exact rises.frames
  start := stays.stackbase ▸ rises.start
  etraps := stays.etraps.trans rises.etraps
  stacksize := rises.stacksize.trans stays.stacksize
  below s lt inside := by
    rw [stays.below s (lt.trans_le rises.start) (inside.trans_le rises.stacksize),
      rises.below s lt inside]

theorem rises_pushFrame (v : LVVM) {newbase : Int} (le : v.stackbase ≤ newbase) (newtop : Int) :
    Rises v (v.pushFrame newbase newtop) :=
  ⟨⟨0, rfl⟩, le, rfl, le_refl _, fun _ _ _ => rfl⟩

/-- The stack grows. -/
theorem stays_grown (v : LVVM) {size : Int} (le : v.stacksize ≤ size) :
    Stays v { v.nullSlots v.stacksize size with stacksize := size } :=
  ⟨rfl, rfl, rfl, le, fun _ _ inside => nullSlots_stack_of_lt inside⟩

theorem enterFrame_rises {newbase newtop : Int} (le : v.stackbase ≤ newbase)
    (run : v.enterFrame newbase newtop false = some v') : Rises v v' := by
  have rises := v.rises_pushFrame le newtop
  simp only [enterFrame, Bool.false_eq_true, if_false, Option.bind_some] at run
  split at run
  · rename_i small
    split at run
    · cases run
    · cases run
      refine rises.then ((v.pushFrame newbase newtop).stays_grown ?_)
      simp only [MIN_STACK_OVERHEAD] at small ⊢
      omega
  · cases run
    exact rises

/-- A tail call reuses the frame. -/
theorem enterFrame_stays {newbase newtop : Int} (same : v.stackbase = newbase)
    (run : v.enterFrame newbase newtop true = some v') : Stays v v' := by
  subst same
  cases frames : v.callsstack with
  | nil => simp [enterFrame, frames] at run
  | cons ci rest =>
    simp only [enterFrame, frames, if_true, Option.bind_some] at run
    have reused : Stays v { v with
        callsstack := { ci with ncalls := ci.ncalls + 1 } :: rest, top := newtop } := by
      refine .of_frames ?_ rfl rfl rfl rfl
      rw [frames]
      rfl
    split at run
    · rename_i small
      split at run
      · cases run
      · cases run
        refine reused.trans (stays_grown _ ?_)
        simp only [MIN_STACK_OVERHEAD] at small ⊢
        omega
    · cases run
      exact reused

theorem bindParameters_stays {k : LVClosure} {args : Nat} {stackbase : Int}
    (le : v.stackbase ≤ stackbase) (run : v.bindParameters k args stackbase = some v') :
    Stays v v' ∧ v'.top = v.top ∧ v.next ≤ v'.next := by
  obtain ⟨same, next, -⟩ := bindParameters_spec run
  have book := bindParameters_bookkeeping run
  refine ⟨⟨by rw [same.callsstack], same.stackbase, congrArg Bookkeeping.etraps book,
    same.stacksize.ge, fun s lt _ => same.stack s (by omega)⟩, same.top, next⟩

theorem startFrame_rises {clo : LVObject} {k : LVClosure} {target stackbase : Int} {args : Nat}
    (le : v.stackbase ≤ stackbase)
    (run : v.startFrame clo k target args stackbase false = some v') :
    Rises v v' ∧ v'.stackbase = stackbase ∧ v.next ≤ v'.next ∧
      ∃ ci rest, v'.callsstack = ci :: rest ∧ ci.root = false ∧ ci.target = target := by
  simp only [startFrame, Option.bind_eq_bind, Option.bind_eq_some_iff, Option.pure_def,
    Option.some.injEq] at run
  obtain ⟨bound, bind, entered, enter, rfl⟩ := run
  obtain ⟨stays, top, next⟩ := bindParameters_stays le bind
  have set := bound.stays_setEnv k.env (stays.stackbase ▸ le)
  have same := bound.setEnv_bookkeeping k.env stackbase
  have setTop : (bound.setEnv k.env stackbase).top = bound.top := congrArg Bookkeeping.top same
  have rises : Rises v entered := .after (stays.trans set) (setTop.trans top)
    (enterFrame_rises (by rw [set.stackbase, stays.stackbase]; exact le) enter)
  have spec := enterFrame_spec enter
  obtain ⟨ci, pushed, -, -, root⟩ := spec.frame
  obtain ⟨target', frames⟩ := rises.frames
  refine ⟨⟨⟨target, ?_⟩, rises.start, rises.etraps, rises.stacksize, rises.below⟩,
    spec.stackbase, ?_, { ci with closure := clo, literals := k.function.literals, ip := 0, target },
      _, by rw [pushed]; rfl, root, rfl⟩
  · rw [pushed, List.map_cons, List.cons.injEq] at frames
    obtain ⟨seat, tail⟩ := frames
    simp only [CallInfo.seat, Prod.mk.injEq] at seat
    simp only [pushed, List.modifyHead_cons, List.map_cons, tail, CallInfo.seat, seat]
  · have setNext : (bound.setEnv k.env stackbase).next = bound.next := by
      cases k.env <;> rfl
    have enterNext := enterFrame_next enter
    simp only at enterNext ⊢
    omega

theorem startFrame_stays {ci : CallInfo} {clo : LVObject} {k : LVClosure} {args : Nat}
    (frames : v.callsstack = ci :: rest)
    (run : v.startFrame clo k ci.target args v.stackbase true = some v') : Stays v v' := by
  simp only [startFrame, Option.bind_eq_bind, Option.bind_eq_some_iff, Option.pure_def,
    Option.some.injEq] at run
  obtain ⟨bound, bind, entered, enter, rfl⟩ := run
  obtain ⟨stays, -, -⟩ := bindParameters_stays (le_refl _) bind
  have set : Stays v (bound.setEnv k.env v.stackbase) :=
    stays.trans (bound.stays_setEnv k.env stays.stackbase.le)
  have reused := set.trans (enterFrame_stays set.stackbase enter)
  refine reused.trans (.of_frames ?_ rfl rfl rfl rfl)
  have same := reused.frames
  rw [frames] at same
  obtain ⟨ci', rest', entered', seat, -⟩ := List.map_eq_cons_iff.mp same
  simp only [CallInfo.seat, Prod.mk.injEq] at seat
  simp only [entered', List.modifyHead_cons, List.map_cons, CallInfo.seat, seat]

/-! ## Frames are left -/

/-- The frames below the running one are as they were, and `LeaveFrame` goes back to them. -/
theorem leaveFrame_seated {ci : CallInfo} (frames : v.callsstack = ci :: rest)
    (prevtop : 0 ≤ ci.prevtop)
    (below : Seats v.stack v.stacksize (v.stackbase - ci.prevstkbase) rest v.etraps)
    (leave : v.leaveFrame = some v') : v'.Seated := by
  simp only [leaveFrame, frames, Option.some.injEq] at leave
  subst leave
  exact below.congr rfl (le_refl _) fun s lt _ => nullSlots_stack_of_lt (by omega)

theorem return_seated {ci : CallInfo} {arg0 : Nat} {arg1 : Int} (frames : v.callsstack = ci :: rest)
    (prevtop : 0 ≤ ci.prevtop)
    (below : Seats v.stack v.stacksize (v.stackbase - ci.prevstkbase) rest v.etraps)
    (spares : ci.root = false → ci.target ≠ -1 →
      Spares v.stack v.stacksize (v.stackbase - ci.prevstkbase + ci.target)
        (v.resultValue arg0 arg1) (v.stackbase - ci.prevstkbase) rest)
    (ret : v.return_ arg0 arg1 = some v') : v'.Seated := by
  simp only [return_, frames] at ret
  split at ret
  · exact leaveFrame_seated frames prevtop below ret
  · rename_i stores
    obtain ⟨notRoot, target⟩ := not_or.mp stores
    exact leaveFrame_seated (v := v.setSlot _ _) frames prevtop
      (below.store (spares (by simpa using notRoot) target)) ret

theorem killGenerator_stack (v : LVVM) (ci : CallInfo) :
    (v.killGenerator ci).stack = v.stack ∧ (v.killGenerator ci).stacksize = v.stacksize := by
  unfold killGenerator
  split
  · exact ⟨rfl, rfl⟩
  · split <;> exact ⟨rfl, rfl⟩

theorem yield_stack {a target : Nat} {g : LVGenerator} (run : v.yield_ a g target = some v') :
    v'.stacksize = v.stacksize ∧ v'.next = v.next ∧
      ∀ s, s < v.stackbase → v'.stack s = v.stack s := by
  obtain ⟨ci, rest, -, -, rfl⟩ := yield_eq run
  exact ⟨rfl, rfl, fun s lt => nullSlots_stack_of_lt lt⟩

/-- A generator is created in a frame of its own. That frame is left, and the generator goes to
the target, even when that is none of the registers. -/
theorem startGenerator_stays {clo : LVObject} {k : LVClosure} {target : Int} {ci : CallInfo}
    (rises : Rises v w) (top : v.stackbase ≤ v.top) (frames : w.callsstack = ci :: rest)
    (notRoot : ci.root = false) (is : ci.target = target)
    (run : w.startGenerator clo k target = some v') :
    Stays (v.setSlot (v.stackbase + target) (.ofAddress .OT_GENERATOR w.next)) v' := by
  simp only [startGenerator, create, Option.bind_eq_bind, Option.bind_eq_some_iff, Option.pure_def,
    Option.some.injEq] at run
  obtain ⟨yielded, yield, returned, ret, rfl⟩ := run
  obtain ⟨target', entered⟩ := rises.frames
  rw [frames, List.map_cons, List.cons.injEq] at entered
  obtain ⟨seat, same⟩ := entered
  simp only [CallInfo.seat, Prod.mk.injEq] at seat
  obtain ⟨prevstkbase, prevtop, none, -, -⟩ := seat
  have saved := yield_bookkeeping (by exact frames) yield
  obtain ⟨size, -, stack⟩ := yield_stack yield
  simp only [bookkeeping, Bookkeeping.mk.injEq] at saved
  simp only at size stack
  have back := return_bookkeeping saved.1 ret
  simp only [bookkeeping, Bookkeeping.mk.injEq] at back
  have start := rises.start
  have callerbase : yielded.stackbase - ci.prevstkbase = v.stackbase := by
    rw [saved.2.1, prevstkbase]
    omega
  have stored : returned.stacksize = yielded.stacksize ∧ ∀ s, s < v.stackbase →
      s ≠ v.stackbase + target → returned.stack s = yielded.stack s := by
    simp only [return_, saved.1, notRoot, is, callerbase, Bool.false_eq_true, false_or] at ret
    split at ret
    · simp only [leaveFrame, saved.1, Option.some.injEq] at ret
      subst ret
      exact ⟨rfl, fun s lt _ => nullSlots_stack_of_lt (by omega)⟩
    · simp only [leaveFrame, setSlot_callsstack, saved.1, Option.some.injEq] at ret
      subst ret
      refine ⟨rfl, fun s lt ne => (nullSlots_stack_of_lt ?_).trans (setSlot_stack_of_ne ne)⟩
      simp only [setSlot_stackbase]
      omega
  have base : returned.stackbase = v.stackbase := back.2.1.trans callerbase
  refine ⟨?_, base, ?_, ?_, fun s lt inside => ?_⟩
  · rw [setSlot_callsstack, back.1]
    exact same
  · change returned.etraps = v.etraps
    rw [back.2.2.2, saved.2.2.2, none]
    exact rises.etraps
  · change v.stacksize ≤ returned.stacksize
    rw [stored.1, size]
    exact rises.stacksize
  · rw [base]
    by_cases eq : s = v.stackbase + target
    · rw [eq, setSlot_stack_self, setSlot_stack_self]
    · simp only [setSlot_stackbase] at lt
      rw [setSlot_stack_of_ne eq, setSlot_stack_of_ne eq, stored.2 s lt eq, stack s (by omega)]
      exact rises.below s lt inside

theorem startCall_generator {clo : LVObject} {k : LVClosure} {target stackbase : Int} {args : Nat}
    (generator : k.function.bgenerator = true) (le : v.stackbase ≤ stackbase)
    (top : v.stackbase ≤ v.top) (run : v.startCall clo k target args stackbase false = some v') :
    ∃ a, v.next ≤ a ∧
      Stays (v.setSlot (v.stackbase + target) (.ofAddress .OT_GENERATOR a)) v' := by
  simp only [startCall, Option.bind_eq_bind, Option.bind_eq_some_iff] at run
  obtain ⟨started, start, run⟩ := run
  obtain ⟨rises, -, next, ci, rest, frames, notRoot, is⟩ := startFrame_rises le start
  rw [if_pos generator] at run
  exact ⟨started.next, next, startGenerator_stays rises top frames notRoot is run⟩

theorem startCall_rises {clo : LVObject} {k : LVClosure} {target stackbase : Int} {args : Nat}
    (script : ¬ k.function.bgenerator = true) (le : v.stackbase ≤ stackbase)
    (run : v.startCall clo k target args stackbase false = some v') : Rises v v' := by
  simp only [startCall, Option.bind_eq_bind, Option.bind_eq_some_iff] at run
  obtain ⟨started, start, run⟩ := run
  rw [if_neg script] at run
  cases run
  exact (startFrame_rises le start).1

theorem enterNative_rises {clo : LVObject} {k : LVNativeClosure} {nargs : Nat} {newbase : Int}
    (le : v.stackbase ≤ newbase) (run : v.enterNative clo k nargs newbase = some v') :
    Rises v v' := by
  unfold enterNative at run
  split at run
  · cases run
  split at run
  · cases run
  simp only [Option.bind_eq_bind, Option.bind_eq_some_iff, Option.pure_def,
    Option.some.injEq] at run
  obtain ⟨entered, enter, rfl⟩ := run
  have base := (enterFrame_spec enter).stackbase
  refine ((enterFrame_rises le enter).then ?_).then (stays_setEnv _ _ base.le)
  refine ⟨map_seat_modifyHead (f := fun ci => { ci with closure := clo }) (fun _ => rfl) _, rfl, rfl,
    le_refl _, fun s lt _ => ?_⟩
  simp only
  rw [if_neg (by omega)]

/-- `Resume` enters the frame of a generator that one of the slots below keeps. -/
theorem resume_seated {alive : LVObject → Bool} {a : Nat} {g : LVGenerator} {target : Int}
    {saved : CallInfo} (wf : v.WF) (seated : v.Seated) (top : v.stackbase ≤ v.top)
    (found : v.generatorAt a = some g) (is : g.ci = some saved) (nonneg : 0 ≤ target)
    (kept : KeptBelow v.stack v.stacksize v.top a)
    (counted : (g.etraps.length : Int) = saved.etraps)
    (traps : ∀ t ∈ g.etraps, t.stackbase = 0 ∧ t.Above)
    (run : v.resume_ alive a g target = some v') : v'.Seated := by
  obtain ⟨-, saved', ci, g', is', resumed, -⟩ := wf.resume_control (W := ∅) found run
  obtain rfl := Option.some.inj (is.symm.trans is')
  have stack : v.stacksize ≤ v'.stacksize ∧
      ∀ s, s < v.top → s < v.stacksize → v'.stack s = v.stack s := by
    unfold resume_ at run
    split at run
    · simp only [Option.bind_eq_bind, Option.bind_eq_some_iff, Option.pure_def,
        Option.some.injEq] at run
      obtain ⟨entered, enter, rfl⟩ := run
      have spec := enterFrame_spec enter
      refine ⟨(enterFrame_rises top enter).stacksize, fun s lt inside => ?_⟩
      simp only
      rw [if_neg (by omega), if_neg (by omega), spec.stack s lt inside]
    · cases run
  have etraps := resumed.etraps
  rw [show g.etraps.length - saved.etraps.toNat = 0 by omega, List.drop_zero] at etraps
  have first : Seat v'.stack v'.stacksize v.top ci (g.etraps.map (·.shift v.top)) := by
    refine ⟨?_, ?_, ⟨?_, fun t mem => ?_⟩, fun t mem => ?_, fun b eq => ?_⟩
    · rw [resumed.frame]
      simp only
      omega
    · rw [resumed.frame]
      simp only
      omega
    · rw [List.length_map, resumed.frame]
      exact counted
    · obtain ⟨t', mem', rfl⟩ := List.mem_map.mp mem
      simp [LVExceptionTrap.shift, (traps t' mem').1]
    · obtain ⟨t', mem', rfl⟩ := List.mem_map.mp mem
      have above := (traps t' mem').2
      refine ⟨above.extarget, ?_⟩
      have := above.stacksize
      simp only [LVExceptionTrap.shift]
      omega
    · rw [resumed.frame] at eq ⊢
      obtain rfl := Option.some.inj eq
      exact ⟨nonneg, kept.congr stack.1 stack.2⟩
  have below : Seats v'.stack v'.stacksize (v.top - ci.prevstkbase) v.callsstack v.etraps := by
    have moved := Seats.congr seated rfl stack.1 fun s lt => stack.2 s (by omega)
    rwa [show v.stackbase = v.top - ci.prevstkbase by rw [resumed.frame]; simp only; omega]
      at moved
  unfold Seated
  rw [resumed.frames, resumed.stackbase, etraps]
  exact .cons first below

end LVVM

end Lavril
