import Lavril.ControlStack

/-!
# Who a generator returns to, and the counting of traps

A step keeps the machine `Stacked`, as long as script code resumes no generator
that the host has resumed before, and the counts as well, as long as the traps
of the frames are balanced.
-/

namespace Lavril

/-- The event mixes no resumption by the host with one by script code, and
neither does it reach what `Execute` does when it has not noticed that there is
nothing to run. -/
def Event.Unmixed : Event → Prop
  | .instruction i v => ∀ a g ci, v.resumes i = some (a, g) → g.ci = some ci → ci.root = false
  | .call k moved => k.function.bgenerator = true → moved = false
  | .resume _ g => g.state = .eSuspended
  | _ => True

/-- An instruction takes no more traps than its frame has, leaves none behind,
and `FOREACH` finds none in a generator. -/
def Event.Balanced : Event → Prop
  | .instruction i v =>
    (i.op = .OP_FOREACH → ∀ a g ci, v.resumes i = some (a, g) → g.ci = some ci → ci.etraps = 0) ∧
    (i.op = .OP_POPTRAP → i.arg0 ≤ v.frameTraps) ∧ (i.op = .OP_RETURN → v.frameTraps = 0)
  | _ => True

namespace LVVM

/-- A suspended generator has as many traps as its frame had. -/
def GeneratorTraps (v : LVVM) : Prop :=
  ∀ a g ci, v.generatorAt a = some g → g.state = .eSuspended → g.ci = some ci →
    0 ≤ ci.etraps ∧ (g.etraps.length : Int) = ci.etraps

variable {W : Set Nat} {v v' : LVVM}

theorem GeneratorTraps.same (traps : GeneratorTraps v)
    (generators : ∀ a, v'.generatorAt a = v.generatorAt a) : GeneratorTraps v' := by
  intro a g ci found
  rw [generators] at found
  exact traps a g ci found

theorem GeneratorTraps.created (traps : GeneratorTraps v) (created : Created W v v') :
    GeneratorTraps v' := by
  obtain ⟨-, -, b, g', ci', -, changed, state, is', plain, none⟩ := created
  intro a g ci found suspended is
  rw [changed.generators] at found
  split at found
  · cases found
    rw [is', Option.some.injEq] at is
    subst is
    simp [plain.etraps, none]
  · exact traps a g ci found suspended is

theorem GeneratorTraps.left {ci : CallInfo} (traps : GeneratorTraps v) (left : Left W ci v v') :
    GeneratorTraps v' := by
  intro a g ci' found suspended is
  rw [left.generators] at found
  split at found
  · obtain ⟨g', -, rfl⟩ := Option.map_eq_some_iff.mp found
    cases suspended
  · exact traps a g ci' found suspended is

theorem GeneratorTraps.changed {a : Nat} {g : LVGenerator} (traps : GeneratorTraps v)
    (changed : Changed W a g v v')
    (own : g.state = .eSuspended → ∀ ci, g.ci = some ci →
      0 ≤ ci.etraps ∧ (g.etraps.length : Int) = ci.etraps) : GeneratorTraps v' := by
  intro b g' ci found suspended is
  rw [changed.generators] at found
  split at found
  · cases found
    exact own suspended ci is
  · exact traps b g' ci found suspended is

end LVVM

open LVVM

variable {Strict : Prop} {ρ : Nat → Option Resumer} {s : Option Activation} {a : Activation}
  {cs : List Control} {own lower rest : List CallInfo} {etraps etraps' : List LVExceptionTrap}
  {ci : CallInfo} {W : Set Nat} {v v' : LVVM} {i : LVInstruction}

/-- What is under a run of `Execute`, when that is over. -/
theorem Running.leave {idles : List CallInfo} (run : Running Strict ρ s a cs idles own lower etraps)
    (counted : Strict → etraps' = a.entry) : Stacked Strict ρ s cs lower etraps' := by
  by_cases strict : Strict
  · rw [counted strict]
    exact run.below
  · exact run.below.free strict

/-- The running frame is the first of its run of `Execute`, or it has another one
below it. -/
theorem Own.pop (owned : Own ρ cs lower own) (frames : own ++ lower = ci :: rest) :
    (ci.root = true ∧ own = [ci] ∧ rest = lower) ∨
    ci.root = false ∧ ∃ own', own = ci :: own' ∧ rest = own' ++ lower ∧ Own ρ cs lower own' := by
  cases owned with
  | root isRoot host =>
    obtain ⟨rfl, rfl⟩ := List.cons.inj frames
    exact .inl ⟨isRoot, rfl, rfl⟩
  | push below notRoot script =>
    obtain ⟨rfl, rfl⟩ := List.cons.inj frames
    exact .inr ⟨notRoot, _, rfl, rfl, below⟩

theorem Own.head (owned : Own ρ cs lower own) (frames : own ++ lower = ci :: rest) :
    ∃ own', own = ci :: own' ∧ rest = own' ++ lower := by
  rcases owned.pop frames with ⟨-, rfl, rfl⟩ | ⟨-, own', rfl, rfl, -⟩
  · exact ⟨[], rfl, rfl⟩
  · exact ⟨own', rfl, rfl⟩

/-- The running frame of the run of `Execute` on top of the C++ stack is left with
`n` traps fewer. -/
theorem Running.popped {n : Int} (run : Running Strict ρ s a cs [] own lower etraps)
    (frames : own ++ lower = ci :: rest) (same : Strict → n = ci.etraps)
    (dropped : Strict → etraps' = etraps.drop n.toNat) :
    Stacked Strict ρ s (if ci.root then cs else .execute { a with traps := a.traps - n } :: cs)
      rest etraps' := by
  rcases run.owned.pop frames with ⟨root, rfl, rfl⟩ | ⟨root, own', rfl, rfl, owned⟩
  · rw [if_pos root]
    refine run.leave fun strict => ?_
    obtain ⟨ts, rest, rfl, length, counted⟩ := Counted.cons_iff.mp (run.counted strict)
    obtain ⟨-, rfl⟩ := Counted.nil_iff.mp counted
    rw [dropped strict, same strict, ← length, Int.toNat_natCast, List.drop_left]
  · rw [if_neg (by simp [root])]
    refine @Stacked.execute Strict ρ s _ cs [] own' lower _ run.below run.idle run.depth owned fun strict => ?_
    obtain ⟨ts, rest, rfl, length, counted⟩ := Counted.cons_iff.mp (run.counted strict)
    rw [dropped strict, same strict, ← length, Int.toNat_natCast, List.drop_left, length]
    exact counted

theorem Running.update {idles : List CallInfo} {x : Nat} {r : Option Resumer}
    (run : Running Strict ρ s a cs idles own lower etraps)
    (notMem : ∀ ci ∈ own ++ lower, ci.generator ≠ some x) :
    Running Strict (Function.update ρ x r) s a cs idles own lower etraps where
  below := run.below.update fun ci mem => notMem ci (List.mem_append_right _ mem)
  idle := run.idle
  depth := run.depth
  owned := run.owned.update fun ci mem => notMem ci (List.mem_append_left _ mem)
  counted := run.counted

/-- A frame on top that cannot be run. -/
theorem Running.stuck (run : Running Strict ρ s a cs [] own lower etraps) (idle : ci.Idle) :
    Running Strict ρ s a cs [ci] own lower etraps :=
  ⟨run.below, by simpa using idle, run.depth, run.owned, run.counted⟩

/-- The frame of a generator that script code resumes. -/
theorem Running.resume {x : Nat} {n : Int} (run : Running Strict ρ s a cs [] own lower etraps)
    (is : ci.generator = some x) (root : ci.root = false)
    (record : ρ x = some (.script (cs.length + 1) (own ++ lower)))
    (counts : Strict → ∃ ts, etraps' = ts ++ etraps ∧ (ts.length : Int) = ci.etraps ∧ n = ci.etraps) :
    Running Strict ρ s { a with traps := a.traps + n } cs [] (ci :: own) lower etraps' where
  below := run.below
  idle := run.idle
  depth := run.depth
  owned := by
    refine .push run.owned root fun y is' => ?_
    rw [is, Option.some.injEq] at is'
    rw [← is', record]
  counted strict := by
    obtain ⟨ts, eq, length, rfl⟩ := counts strict
    refine Counted.cons_iff.mpr ⟨ts, etraps, eq, length, ?_⟩
    simpa only [Int.add_sub_cancel] using run.counted strict

theorem Running.touched {frames : List CallInfo}
    (run : Running Strict ρ s a cs [] own lower etraps) (touched : Touched (own ++ lower) frames) :
    ∃ own', frames = own' ++ lower ∧ Running Strict ρ s a cs [] own' lower etraps := by
  obtain ⟨f, keeps, rfl⟩ := touched
  refine ⟨own.modifyHead f, ?_, run.below, run.idle, run.depth, run.owned.modifyHead keeps,
    fun strict => (run.counted strict).modifyHead keeps⟩
  cases own with
  | nil => exact absurd rfl run.owned.ne_nil
  | cons c own => rfl

/-- A frame that is called. -/
theorem Running.push (run : Running Strict ρ s a cs [] own lower etraps) (plain : ci.Plain) :
    Running Strict ρ s a cs [] (ci :: own) lower etraps where
  below := run.below
  idle := run.idle
  depth := run.depth
  owned := .push run.owned plain.root (by simp [plain.generator])
  counted strict := by
    refine Counted.cons_iff.mpr ⟨[], etraps, rfl, by simp [plain.etraps], ?_⟩
    simpa [plain.etraps] using run.counted strict

/-- The traps of the running frame change, and the counter with them. -/
theorem Running.recount {n : Int} (run : Running Strict ρ s a cs [] (ci :: own) lower etraps)
    (counts : Strict → ∀ ts, (ts.length : Int) = ci.etraps → ∀ rest, etraps = ts ++ rest →
      ∃ ts', etraps' = ts' ++ rest ∧ (ts'.length : Int) = ci.etraps + n) :
    Running Strict ρ s { a with traps := a.traps + n } cs []
      ({ ci with etraps := ci.etraps + n } :: own) lower etraps' where
  below := run.below
  idle := run.idle
  depth := run.depth
  owned := by
    have owned := run.owned
    cases owned with
    | root isRoot host => exact .root isRoot host
    | push rest notRoot script => exact .push rest notRoot script
  counted strict := by
    obtain ⟨ts, rest, eq, length, counted⟩ := Counted.cons_iff.mp (run.counted strict)
    obtain ⟨ts', eq', length'⟩ := counts strict ts length rest eq
    refine Counted.cons_iff.mpr ⟨ts', rest, eq', length', ?_⟩
    have same : a.traps + n - (ci.etraps + n) = a.traps - ci.etraps := by omega
    simpa only [same] using counted

/-- What a generator saves, when the traps have been counted. -/
theorem Running.saved {g g' : LVGenerator} {target : Nat}
    (run : Running Strict ρ s a cs [] (ci :: own) lower v.etraps) (strict : Strict)
    (resting : g.Resting) (saved : Saved v ci g target g') :
    0 ≤ ci.etraps ∧ (g'.etraps.length : Int) = ci.etraps := by
  obtain ⟨ts, rest, eq, length, -⟩ := Counted.cons_iff.mp (run.counted strict)
  refine ⟨by omega, ?_⟩
  rw [saved.etraps, resting.etraps, eq, List.nil_append, List.length_map, ← length,
    Int.toNat_natCast, List.take_left]

/-- A frame that has no traps is left. -/
theorem Running.drop {idles : List CallInfo} (run : Running Strict ρ s a cs idles (ci :: own) lower etraps)
    (owned : Own ρ cs lower own) (none : Strict → ci.etraps = 0) :
    Running Strict ρ s a cs idles own lower etraps where
  below := run.below
  idle := run.idle
  depth := run.depth
  owned := owned
  counted strict := by
    obtain ⟨ts, rest, rfl, length, counted⟩ := Counted.cons_iff.mp (run.counted strict)
    rw [none strict, Int.natCast_eq_zero, List.length_eq_zero_iff] at length
    simpa only [none strict, Int.sub_zero, length, List.nil_append] using counted

/-- What the loop of `exception_trap` leaves of a run of `Execute`. -/
inductive Unwound (Strict : Prop) (ρ : Nat → Option Resumer) (s : Option Activation) (a : Activation)
    (cs : List Control) (lower : List CallInfo) : Bool → LVVM → Prop
  | caught {own : List CallInfo} {v : LVVM} (frames : v.callsstack = own ++ lower)
      (run : Running Strict ρ s { a with traps := a.traps - 1 } cs [] own lower v.etraps) :
      Unwound Strict ρ s a cs lower true v
  | uncaught {v : LVVM} (frames : v.callsstack = lower) (stacked : Stacked Strict ρ s cs lower v.etraps) :
      Unwound Strict ρ s a cs lower false v

/-- The running frame takes an exception. -/
theorem Running.catch {error : LVObject} {last_top : Int} (wf : v.WF)
    (run : Running Strict ρ s a cs [] (ci :: own) lower v.etraps)
    (frames : v.callsstack = ci :: (own ++ lower)) (positive : ci.etraps > 0)
    (caught : v.catch_ error last_top = some v') : Unwound Strict ρ s a cs lower true v' := by
  obtain ⟨et, etraps, -, after⟩ := wf.catch (W := ∅) caught
  rw [frames, List.modifyHead_cons] at after
  have counts : Strict → ∀ ts, (ts.length : Int) = ci.etraps → ∀ rest, v.etraps = ts ++ rest →
      ∃ ts', v'.etraps = ts' ++ rest ∧ (ts'.length : Int) = ci.etraps + -1 := by
    intro strict ts length rest eq
    cases ts with
    | nil =>
      simp only [List.length_nil, Nat.cast_zero] at length
      omega
    | cons t ts =>
      rw [etraps, List.cons_append] at eq
      refine ⟨ts, (List.cons.inj eq).2, ?_⟩
      rw [List.length_cons] at length
      omega
  obtain ⟨own', eq, run'⟩ := (run.recount counts).touched (.modify _ (fun ci => { ci with ip := et.ip }) fun _ => rfl)
  exact .caught (after.trans eq) run'

/-- The exception reaches the first frame that has a trap. -/
theorem Running.unwind {error : LVObject} {last_top : Int} {caught : Bool} (wf : v.WF)
    (run : Running Strict ρ s a cs [] own lower v.etraps) (frames : v.callsstack = own ++ lower)
    (unwound : LVVM.unwind error last_top (own ++ lower) v = some (caught, v')) :
    Unwound Strict ρ s a cs lower caught v' := by
  induction own generalizing v with
  | nil => exact absurd rfl run.owned.ne_nil
  | cons ci own ih =>
    simp only [List.cons_append, LVVM.unwind] at frames unwound
    split at unwound
    · rename_i positive
      simp only [Option.map_eq_some_iff, Prod.mk.injEq] at unwound
      obtain ⟨v₁, taken, rfl, rfl⟩ := unwound
      exact run.catch wf frames positive taken
    · rename_i notPositive
      simp only [Option.bind_eq_bind, Option.bind_eq_some_iff] at unwound
      obtain ⟨v₁, leave, unwound⟩ := unwound
      have left : Left ∅ ci v v₁ := wf.unwind_left frames leave
      have after := (List.cons.inj (frames.symm.trans left.callsstack)).2
      have none : Strict → ci.etraps = 0 := fun strict => by
        have := (run.counted strict).nonneg ci List.mem_cons_self
        omega
      rw [← left.etraps] at run
      rcases run.owned.pop rfl with ⟨root, alone, -⟩ | ⟨root, own', eq, -, owned⟩
      · rw [if_pos root] at unwound
        cases unwound
        rw [(List.cons.inj alone).2] at after
        refine .uncaught after.symm (run.leave fun strict => ?_)
        obtain ⟨ts, rest, eq, length, counted⟩ := Counted.cons_iff.mp (run.counted strict)
        rw [none strict, Int.natCast_eq_zero, List.length_eq_zero_iff] at length
        rw [(List.cons.inj alone).2] at counted
        rw [eq, length, (Counted.nil_iff.mp counted).2, List.nil_append]
      · obtain rfl := (List.cons.inj eq).2
        rw [root, if_neg Bool.false_ne_true] at unwound
        exact ih left.wf (run.drop owned none) after.symm unwound

/-- The frames that failed calls have left are left first. -/
theorem Running.unwind_idle {error : LVObject} {last_top : Int} {caught : Bool} {idles : List CallInfo}
    (wf : v.WF) (run : Running Strict ρ s a cs [] own lower v.etraps) (plain : ∀ ci ∈ idles, ci.Plain)
    (frames : v.callsstack = idles ++ (own ++ lower))
    (unwound : LVVM.unwind error last_top (idles ++ (own ++ lower)) v = some (caught, v')) :
    Unwound Strict ρ s a cs lower caught v' := by
  induction idles generalizing v with
  | nil => exact run.unwind wf frames unwound
  | cons ci idles ih =>
    obtain ⟨first, plain⟩ := List.forall_mem_cons.mp plain
    simp only [List.cons_append, LVVM.unwind, first.etraps, first.root] at frames unwound
    rw [if_neg (by simp)] at unwound
    simp only [Option.bind_eq_bind, Option.bind_eq_some_iff] at unwound
    obtain ⟨v₁, leave, unwound⟩ := unwound
    have left : Left ∅ ci v v₁ := wf.unwind_left frames leave
    have after := (List.cons.inj (frames.symm.trans left.callsstack)).2
    exact ih left.wf (left.etraps ▸ run) plain after.symm (by simpa using unwound)

theorem LVVM.GeneratorTraps.unwind {error : LVObject} {last_top : Int} {caught : Bool}
    {frames : List CallInfo} (traps : v.GeneratorTraps) (wf : v.WF) (eq : v.callsstack = frames)
    (unwound : LVVM.unwind error last_top frames v = some (caught, v')) : v'.GeneratorTraps := by
  induction frames generalizing v with
  | nil =>
    cases unwound
    exact traps
  | cons ci rest ih =>
    simp only [LVVM.unwind] at unwound
    split at unwound
    · simp only [Option.map_eq_some_iff, Prod.mk.injEq] at unwound
      obtain ⟨v₁, taken, -, rfl⟩ := unwound
      obtain ⟨et, -, calm, -⟩ := wf.catch (W := ∅) taken
      exact traps.same calm.generators
    · simp only [Option.bind_eq_bind, Option.bind_eq_some_iff] at unwound
      obtain ⟨v₁, leave, unwound⟩ := unwound
      have left : Left ∅ ci v v₁ := wf.unwind_left eq leave
      have tail := (List.cons.inj (left.callsstack.symm.trans eq)).2
      split at unwound
      · cases unwound
        exact traps.left left
      · exact ih (traps.left left) left.wf tail unwound

namespace Exec

structure Held (Strict : Prop) (e : Exec) : Prop where
  stacked : Stacked Strict e.resumers e.suspended e.controls e.vm.callsstack e.vm.etraps
  saved : Strict → e.vm.GeneratorTraps

variable {e : Exec}

/-- The run of `Execute` goes on with `own`. -/
theorem Held.next {traps : Int}
    (run : Running Strict e.resumers e.suspended { a with traps := a.traps + traps } cs [] own lower
      v'.etraps)
    (frames : v'.callsstack = own ++ lower) (saved : Strict → v'.GeneratorTraps) :
    Held Strict (e.advance a cs (.next v' traps)) := by
  have stacked := run.stacked
  rw [List.nil_append, ← frames] at stacked
  exact ⟨stacked, saved⟩

/-- A call has been made. -/
theorem Held.call {w : Awaiting}
    (stacked : Stacked Strict e.resumers e.suspended (w.controls ++ .execute a :: cs)
      v'.callsstack v'.etraps)
    (saved : Strict → v'.GeneratorTraps) : Held Strict (e.advance a cs (.call w v')) :=
  ⟨stacked, saved⟩

/-- The running frame has been left with `n` traps fewer. -/
theorem Held.popped {r : Ran} {n : Int}
    (run : Running Strict e.resumers e.suspended a cs [] own lower etraps)
    (frames : own ++ lower = ci :: v'.callsstack) (same : Strict → n = ci.etraps)
    (dropped : Strict → v'.etraps = etraps.drop n.toNat) (saved : Strict → v'.GeneratorTraps)
    (ran : r = if ci.root then .finish v' (-n) else .next v' (-n)) :
    Held Strict (e.advance a cs r) := by
  have stacked := run.popped frames same dropped
  cases root : ci.root with
  | true =>
    rw [root, if_pos rfl] at stacked ran
    subst ran
    exact ⟨stacked, saved⟩
  | false =>
    rw [root, if_neg Bool.false_ne_true] at stacked ran
    subst ran
    exact ⟨stacked, saved⟩

theorem Held.did {r : Ran} (run : Running Strict e.resumers e.suspended a cs [] own lower v.etraps)
    (frames : v.callsstack = own ++ lower) (traps : Strict → v.GeneratorTraps)
    (ok : v.GeneratorsOk) (balanced : Strict → (Event.instruction i v).Balanced)
    (did : Did W v i r) : Held Strict (e.advance a cs r) := by
  have kept : ∀ {v' : LVVM}, (∀ a, v'.generatorAt a = v.generatorAt a) →
      Strict → v'.GeneratorTraps := fun generators strict => (traps strict).same generators
  have zero : { a with traps := a.traps + 0 } = a := by rw [Int.add_zero]
  cases did with
  | touch calm touched =>
    rw [frames] at touched
    obtain ⟨own', frames', run'⟩ := run.touched touched
    exact .next (by rw [zero, calm.etraps]; exact run') frames' (kept calm.generators)
  | script calm plain pushed controls =>
    refine .call ?_ (kept calm.generators)
    rw [controls, pushed, calm.etraps, frames]
    exact (run.push plain).stacked
  | @native w v' ci calm plain pushed closure controls =>
    refine .call ?_ (kept calm.generators)
    rw [controls, pushed, calm.etraps, frames]
    exact @Stacked.native Strict _ _ _ [ci] _ _ run.stacked (by simpa using ⟨plain, closure⟩) (by simp)
  | tail calm touched =>
    rw [frames] at touched
    obtain ⟨own', frames', run'⟩ := run.touched touched
    refine .call ?_ (kept calm.generators)
    rw [frames', calm.etraps]
    exact run'.stacked
  | done calm same =>
    refine .call ?_ (kept calm.generators)
    rw [same, calm.etraps, frames]
    exact run.stacked
  | @metamethod n v' calm same =>
    refine .call ?_ (kept calm.generators)
    rw [same, calm.etraps, frames]
    exact @Stacked.metamethod Strict _ _ n _ [] _ _ run.stacked (by simp)
  | generator created =>
    refine .call ?_ fun strict => (traps strict).created created
    rw [created.callsstack, created.etraps, frames]
    exact run.stacked
  | @«return» ci v' r op left ran =>
    have popped := left.callsstack
    have none : Strict → 0 = ci.etraps := fun strict => by
      have none := (balanced strict).2.2 op
      simp only [frameTraps, popped, List.head?_cons, Option.map_some, Option.getD_some] at none
      exact none.symm
    rw [frames] at popped
    exact .popped run popped none (fun _ => left.etraps) (fun strict => (traps strict).left left)
      (by simpa using ran)
  | @yield ci x g target g' v' r op popped generator found running dropped changed saved ran =>
    rw [frames] at popped
    obtain ⟨own', rfl, -⟩ := run.owned.head popped
    refine .popped run popped (fun _ => rfl) (fun _ => dropped) (fun strict => ?_) ran
    refine (traps strict).changed changed fun _ ci' is => ?_
    rw [saved.frame, Option.some.injEq] at is
    subst is
    exact run.saved strict (ok.resting x g found running) saved
  | @pushTrap ci rest et v' before after etraps calm =>
    rw [frames] at before
    obtain ⟨own', rfl, rfl⟩ := run.owned.head before
    refine .next (run.recount fun _ ts length rest eq => ⟨et :: ts, ?_, ?_⟩) after (kept calm.generators)
    · rw [etraps, eq, List.cons_append]
    · rw [List.length_cons]
      omega
  | @popTrap v' op after etraps calm =>
    obtain ⟨ci, rest, before⟩ := List.exists_cons_of_ne_nil
      (List.append_ne_nil_of_left_ne_nil run.owned.ne_nil lower)
    obtain ⟨own', rfl, rfl⟩ := run.owned.head before
    rw [frames, List.cons_append, List.modifyHead_cons, ← List.cons_append] at after
    refine .next (run.recount fun strict ts length rest eq => ⟨ts.drop i.arg0, ?_, ?_⟩) after
      (kept calm.generators)
    all_goals
      have enough := (balanced strict).2.1 op
      simp only [frameTraps, frames, List.cons_append, List.head?_cons, Option.map_some,
        Option.getD_some] at enough
    · rw [etraps, eq, List.drop_append_of_le_length (by omega)]
    · rw [List.length_drop]
      omega

/-- An instruction that resumes the generator `x`. -/
theorem Held.resumption {alive : LVObject → Bool} {x : Nat} {g : LVGenerator} {r : Ran}
    (controls : e.controls = .execute a :: cs)
    (run : Running Strict e.resumers e.suspended a cs [] own lower v.etraps)
    (frames : v.callsstack = own ++ lower) (traps : Strict → v.GeneratorTraps)
    (ok : v.GeneratorsOk) (found : v.generatorAt x = some g) (resumes : v.resumes i = some (x, g))
    (unmixed : (Event.instruction i v).Unmixed)
    (foreach : Strict → i.op ≠ .OP_RESUME → ∀ ci, g.ci = some ci → ci.etraps = 0)
    (did : Resumption W alive v i x g r) : Held Strict ((e.note v i).advance a cs r) := by
  have noted : (e.note v i).resumers =
      Function.update e.resumers x (some (.script e.controls.length v.callsstack)) := by
    simp only [note, resumes]
  have noted' : (e.note v i).suspended = e.suspended := by
    unfold note
    split <;> rfl
  have absent : g.state = .eSuspended → ∀ ci ∈ own ++ lower, ci.generator ≠ some x := by
    intro suspended ci mem is
    obtain ⟨g', found', running⟩ := ok.running x (List.mem_filterMap.mpr ⟨ci, frames ▸ mem, is⟩)
    rw [found, Option.some.injEq] at found'
    rw [← found', suspended] at running
    cases running
  have update : g.state = .eSuspended →
      Running Strict (e.note v i).resumers (e.note v i).suspended a cs [] own lower v.etraps := by
    intro suspended
    rw [noted, noted']
    exact run.update (absent suspended)
  cases did with
  | @resumed w target saved ci g' v' calm same stackbase top suspended is resumed changed =>
    have root : saved.root = false := unmixed x g saved resumes is
    have pushed := resumed.frames
    rw [same, frames] at pushed
    refine .next ((update suspended).resume (x := x) (by simp [resumed.frame])
      (by simp [resumed.frame, root]) ?_ fun strict => ?_) pushed fun strict => ?_
    · rw [noted, Function.update_self, controls, frames]
      rfl
    · obtain ⟨nonneg, length⟩ := traps strict x g saved found suspended is
      refine ⟨_, resumed.etraps.trans (by rw [calm.etraps]), ?_, ?_⟩
      · have all : g.etraps.length - saved.etraps.toNat = 0 := by omega
        rw [all, List.drop_zero, List.length_map, resumed.frame, length]
      · rw [resumed.frame]
        by_cases op : i.op = .OP_RESUME
        · rw [if_pos op]
        · rw [if_neg op, foreach strict op saved is]
    · refine ((traps strict).same calm.generators).changed changed fun suspended' => ?_
      rw [resumed.running] at suspended'
      cases suspended'
  | @stuck ci v' suspended calm plain pushed closure =>
    have stacked := ((update suspended).stuck ⟨plain, closure⟩).stacked
    rw [List.singleton_append, ← frames, ← pushed, ← calm.etraps] at stacked
    refine ⟨?_, fun strict => (traps strict).same calm.generators⟩
    simpa only [advance, Int.add_zero] using stacked

end Exec

end Lavril
