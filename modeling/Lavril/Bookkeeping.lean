import Lavril.Runs

/-!
# The bookkeeping of the frames

A frame remembers the base and the top of its caller relative to that base.
`Over` says that frames have been entered above a point, and that leaving them
all leads back to it; every trap is at the base of the frame it is counted for.
-/

namespace Lavril

/-- `_callsstack`, `_stackbase`, `_top` and `_etraps`. -/
structure Bookkeeping where
  callsstack : List CallInfo
  stackbase : Int
  top : Int
  etraps : List LVExceptionTrap

def LVVM.bookkeeping (v : LVVM) : Bookkeeping := ⟨v.callsstack, v.stackbase, v.top, v.etraps⟩

/-- What leaving the frame reads of it. -/
def CallInfo.ties (ci : CallInfo) : Int × Int × Bool := (ci.prevstkbase, ci.prevtop, ci.root)

/-- The traps of a frame that starts at `base`. -/
structure CallInfo.Traps (ci : CallInfo) (base : Int) (ts : List LVExceptionTrap) : Prop where
  length : (ts.length : Int) = ci.etraps
  base : ∀ t ∈ ts, t.stackbase = base

/-- `c` is what a run of `Execute` that was entered at `b` has made of it. -/
inductive Over (b : Bookkeeping) : Bookkeeping → Prop
  | root {ci : CallInfo} {ts base top} (root : ci.root = true)
      (start : base = b.stackbase + ci.prevstkbase) (caller : b.top = b.stackbase + ci.prevtop)
      (traps : ci.Traps base ts) : Over b ⟨ci :: b.callsstack, base, top, ts ++ b.etraps⟩
  | push {c} {ci : CallInfo} {ts base top} (rest : Over b c) (root : ci.root = false)
      (start : base = c.stackbase + ci.prevstkbase) (traps : ci.Traps base ts) :
      Over b ⟨ci :: c.callsstack, base, top, ts ++ c.etraps⟩

/-- The running frame has the same ties and traps; the top may be another. -/
structure Similar (b c : Bookkeeping) : Prop where
  callsstack : ∃ f : CallInfo → CallInfo, (∀ ci, (f ci).ties = ci.ties ∧ (f ci).etraps = ci.etraps) ∧
    c.callsstack = b.callsstack.modifyHead f
  stackbase : c.stackbase = b.stackbase
  etraps : c.etraps = b.etraps

/-- What is below the running frame `ci`. -/
inductive Under (b : Bookkeeping) (ci : CallInfo) (rest : List CallInfo) (base : Int)
    (etraps : List LVExceptionTrap) : Prop
  | root (root : ci.root = true) (callsstack : rest = b.callsstack) (etraps : etraps = b.etraps)
      (start : base = b.stackbase + ci.prevstkbase) (caller : b.top = b.stackbase + ci.prevtop)
  | frame (root : ci.root = false)
      (onTop : ∀ top, Over b ⟨rest, base - ci.prevstkbase, top, etraps⟩)

variable {b c c' : Bookkeeping} {ci ci' : CallInfo} {rest : List CallInfo} {base top : Int}
  {ts etraps : List LVExceptionTrap}

theorem Similar.refl (frames : c.callsstack = b.callsstack) (stackbase : c.stackbase = b.stackbase)
    (etraps : c.etraps = b.etraps) : Similar b c := by
  refine ⟨⟨id, fun _ => ⟨rfl, rfl⟩, ?_⟩, stackbase, etraps⟩
  rw [frames]
  cases b.callsstack <;> rfl

theorem Similar.trans (h₁ : Similar b c) (h₂ : Similar c c') : Similar b c' := by
  obtain ⟨f, keepsF, framesF⟩ := h₁.callsstack
  obtain ⟨g, keepsG, framesG⟩ := h₂.callsstack
  refine ⟨⟨g ∘ f, fun ci => ?_, ?_⟩, h₂.stackbase.trans h₁.stackbase, h₂.etraps.trans h₁.etraps⟩
  · exact ⟨(keepsG _).1.trans (keepsF ci).1, (keepsG _).2.trans (keepsF ci).2⟩
  · rw [framesG, framesF]
    cases b.callsstack <;> rfl

/-- The top does not matter. -/
theorem Over.free (onTop : Over b c) (top : Int) : Over b { c with top } := by
  cases onTop with
  | root root start caller traps => exact .root root start caller traps
  | push rest root start traps => exact .push rest root start traps

theorem Over.head (onTop : Over b c) : ∃ ci rest ts etraps, c.callsstack = ci :: rest ∧
    c.etraps = ts ++ etraps ∧ ci.Traps c.stackbase ts ∧ Under b ci rest c.stackbase etraps := by
  cases onTop with
  | root root start caller traps =>
    exact ⟨_, _, _, _, rfl, rfl, traps, .root root rfl rfl start caller⟩
  | @push c ci ts base top rest root start traps =>
    refine ⟨_, _, _, _, rfl, rfl, traps, .frame root fun top => ?_⟩
    have below : base - ci.prevstkbase = c.stackbase := by omega
    simp only [below]
    exact rest.free top

theorem Under.onTop (under : Under b ci rest base etraps) (traps : ci.Traps base ts) (top : Int) :
    Over b ⟨ci :: rest, base, top, ts ++ etraps⟩ := by
  cases under with
  | root root callsstack etraps start caller =>
    subst callsstack etraps
    exact .root root start caller traps
  | frame root onTop => exact .push (onTop top) root (by simp only; omega) traps

theorem Under.congr (under : Under b ci rest base etraps) (ties : ci'.ties = ci.ties) :
    Under b ci' rest base etraps := by
  simp only [CallInfo.ties, Prod.mk.injEq] at ties
  obtain ⟨prevstkbase, prevtop, root'⟩ := ties
  cases under with
  | root root callsstack etraps start caller =>
    exact .root (root'.trans root) callsstack etraps (by rw [prevstkbase]; exact start)
      (by rw [prevtop]; exact caller)
  | frame root onTop =>
    refine .frame (root'.trans root) ?_
    rw [prevstkbase]
    exact onTop

theorem CallInfo.Traps.congr (traps : ci.Traps base ts) (same : ci'.etraps = ci.etraps) :
    ci'.Traps base ts := ⟨by rw [same]; exact traps.length, traps.base⟩

theorem Over.similar (onTop : Over b c) (similar : Similar c c') : Over b c' := by
  obtain ⟨ci, rest, ts, etraps, frames, eq, traps, under⟩ := onTop.head
  obtain ⟨f, keeps, frames'⟩ := similar.callsstack
  rw [frames, List.modifyHead_cons] at frames'
  obtain ⟨callsstack, stackbase, top, etraps'⟩ := c'
  obtain rfl := frames'
  obtain rfl : stackbase = c.stackbase := similar.stackbase
  obtain rfl : etraps' = ts ++ etraps := similar.etraps.trans eq
  exact (under.congr (keeps ci).1).onTop (traps.congr (keeps ci).2) top

namespace LVVM

variable {v v' w : LVVM} {i : LVInstruction}

/-- A frame without traps has been entered. -/
structure Enters (v v' : LVVM) : Prop where
  frame : ∃ ci : CallInfo, v'.callsstack = ci :: v.callsstack ∧ ci.root = false ∧ ci.etraps = 0 ∧
    v'.stackbase = v.stackbase + ci.prevstkbase ∧ v.top = v.stackbase + ci.prevtop
  etraps : v'.etraps = v.etraps

theorem Enters.onTop (enters : Enters v v') (onTop : Over b v.bookkeeping) :
    Over b v'.bookkeeping := by
  obtain ⟨ci, frames, root, none, start, -⟩ := enters.frame
  have traps : ci.Traps v'.stackbase [] := ⟨none.symm, List.forall_mem_nil _⟩
  have pushed : Over b ⟨ci :: v.callsstack, v'.stackbase, v'.top, [] ++ v.etraps⟩ :=
    .push onTop root start traps
  rwa [List.nil_append, ← frames, ← enters.etraps] at pushed

/-- The frame becomes the first of a run of `Execute`. -/
theorem Enters.setRoot (enters : Enters v v') : Over v.bookkeeping v'.setRoot.bookkeeping := by
  obtain ⟨ci, frames, -, none, start, caller⟩ := enters.frame
  have traps : ({ ci with root := true } : CallInfo).Traps v'.stackbase [] :=
    ⟨none.symm, List.forall_mem_nil _⟩
  have rooted : Over v.bookkeeping ⟨{ ci with root := true } :: v.callsstack, v'.stackbase, v'.top,
      [] ++ v.etraps⟩ := .root rfl start caller traps
  simpa only [bookkeeping, LVVM.setRoot, frames, List.modifyHead_cons, enters.etraps,
    List.nil_append] using rooted

/-- The caller has been changed where that does not show. -/
theorem Enters.after (enters : Enters w v') (same : w.bookkeeping = v.bookkeeping) : Enters v v' := by
  simp only [bookkeeping, Bookkeeping.mk.injEq] at same
  obtain ⟨callsstack, stackbase, top, etraps⟩ := same
  obtain ⟨ci, frames, root, none, start, caller⟩ := enters.frame
  rw [callsstack] at frames
  rw [stackbase] at start caller
  rw [top] at caller
  exact ⟨⟨ci, frames, root, none, start, caller⟩, enters.etraps.trans etraps⟩

theorem Enters.modifyHead {f : CallInfo → CallInfo} (enters : Enters v w)
    (keeps : ∀ ci, (f ci).ties = ci.ties ∧ (f ci).etraps = ci.etraps)
    (frames : v'.callsstack = w.callsstack.modifyHead f) (stackbase : v'.stackbase = w.stackbase)
    (etraps : v'.etraps = w.etraps) : Enters v v' := by
  obtain ⟨ci, pushed, root, none, start, caller⟩ := enters.frame
  have ties := (keeps ci).1
  simp only [CallInfo.ties, Prod.mk.injEq] at ties
  refine ⟨⟨f ci, ?_, ties.2.2.trans root, (keeps ci).2.trans none, ?_, ?_⟩, etraps.trans enters.etraps⟩
  · rw [frames, pushed, List.modifyHead_cons]
  · rw [stackbase, ties.1, start]
  · rw [ties.2.1, caller]

theorem enters_pushFrame (v : LVVM) (newbase newtop : Int) :
    Enters v (v.pushFrame newbase newtop) where
  frame := by
    refine ⟨_, rfl, rfl, rfl, ?_, ?_⟩
    · simp only [pushFrame]
      omega
    · simp only
      omega
  etraps := rfl

/-- `EnterFrame`: a frame that is entered, or the running one that a tail call reuses. -/
theorem enterFrame_bookkeeping {newbase newtop : Int} {tailcall : Bool}
    (run : v.enterFrame newbase newtop tailcall = some v') :
    if tailcall then v.stackbase = newbase → Similar v.bookkeeping v'.bookkeeping
    else Enters v v' := by
  have grown : ∀ w w' : LVVM, (if newtop + MIN_STACK_OVERHEAD > w.stacksize then
      if w.nmetamethodscall ≠ 0 then none
      else some { w.nullSlots w.stacksize (newtop + MIN_STACK_OVERHEAD * 4) with
        stacksize := newtop + MIN_STACK_OVERHEAD * 4 }
      else some w) = some w' → w'.bookkeeping = w.bookkeeping := by
    intro w w' eq
    split at eq
    · split at eq
      · cases eq
      · cases eq
        rfl
    · cases eq
      rfl
  simp only [enterFrame] at run
  cases tailcall with
  | false =>
    have same := grown _ _ run
    simp only [bookkeeping, Bookkeeping.mk.injEq] at same
    obtain ⟨ci, frames, root, none, start, caller⟩ := (v.enters_pushFrame newbase newtop).frame
    refine ⟨⟨ci, same.1.trans frames, root, none, same.2.1.trans start, caller⟩, same.2.2.2⟩
  | true =>
    cases frames : v.callsstack with
    | nil => simp [frames] at run
    | cons ci rest =>
      simp only [frames, if_true, Option.bind_some] at run
      have same := grown { v with
        callsstack := { ci with ncalls := ci.ncalls + 1 } :: rest
        stackbase := newbase, top := newtop } v' run
      simp only [bookkeeping, Bookkeeping.mk.injEq] at same
      intro start
      refine ⟨⟨fun ci => { ci with ncalls := ci.ncalls + 1 }, fun _ => ⟨rfl, rfl⟩, ?_⟩,
        same.2.1.trans start.symm, same.2.2.2⟩
      simp only [bookkeeping, same.1, frames, List.modifyHead_cons]

theorem bindParameters_bookkeeping {k : LVClosure} {args : Nat} {stackbase : Int}
    (run : v.bindParameters k args stackbase = some v') : v'.bookkeeping = v.bookkeeping := by
  simp only [bindParameters] at run
  split at run
  · split at run <;> cases run
    rfl
  · split at run
    · split at run <;> cases run
      rfl
    · cases run
      rfl

theorem setEnv_bookkeeping (v : LVVM) (env : Option LVObject) (slot : Int) :
    (v.setEnv env slot).bookkeeping = v.bookkeeping := by
  cases env <;> rfl

theorem startFrame_bookkeeping {clo : LVObject} {k : LVClosure} {target stackbase : Int} {args : Nat}
    {tailcall : Bool} (run : v.startFrame clo k target args stackbase tailcall = some v') :
    if tailcall then v.stackbase = stackbase → Similar v.bookkeeping v'.bookkeeping
    else Enters v v' := by
  simp only [startFrame, Option.bind_eq_bind, Option.bind_eq_some_iff, Option.pure_def,
    Option.some.injEq] at run
  obtain ⟨bound, bind, entered, enter, rfl⟩ := run
  have same := (bound.setEnv_bookkeeping k.env stackbase).trans (bindParameters_bookkeeping bind)
  have enters := enterFrame_bookkeeping enter
  cases tailcall with
  | false =>
    refine (enters.after same).modifyHead ?_ rfl rfl rfl
    exact fun _ => ⟨rfl, rfl⟩
  | true =>
    intro start
    have stackbase' : (bound.setEnv k.env stackbase).stackbase = stackbase :=
      (congrArg Bookkeeping.stackbase same).trans start
    have similar := enters stackbase'
    rw [same] at similar
    refine similar.trans ⟨⟨_, fun _ => ⟨?_, ?_⟩, rfl⟩, rfl, rfl⟩
    · rfl
    · rfl

theorem leaveFrame_bookkeeping (frames : v.callsstack = ci :: rest) (run : v.leaveFrame = some v') :
    v'.bookkeeping = ⟨rest, v.stackbase - ci.prevstkbase,
      v.stackbase - ci.prevstkbase + ci.prevtop, v.etraps⟩ := by
  simp only [leaveFrame, frames, Option.some.injEq] at run
  subst run
  rfl

theorem return_bookkeeping {arg0 : Nat} {arg1 : Int} (frames : v.callsstack = ci :: rest)
    (run : v.return_ arg0 arg1 = some v') :
    v'.bookkeeping = ⟨rest, v.stackbase - ci.prevstkbase,
      v.stackbase - ci.prevstkbase + ci.prevtop, v.etraps⟩ := by
  simp only [return_, frames] at run
  split at run
  · exact leaveFrame_bookkeeping frames run
  · exact leaveFrame_bookkeeping (v := v.setSlot _ _) frames run

end LVVM

end Lavril
