import Lavril.Entry

/-!
# The frames and the C++ stack

`Stacked` says how the frames and the traps of a machine belong to the calls on
the C++ stack, and who each running generator has been resumed by. With
`Strict` it also counts the traps.
-/

namespace Lavril

/-- A frame that cannot be run: that of a native function, or one that a failed
call has left. -/
structure CallInfo.Idle (ci : CallInfo) : Prop where
  plain : ci.Plain
  closure : ci.closure.type ≠ .OT_CLOSURE

def sumTraps (frames : List CallInfo) : Int := (frames.map (·.etraps)).sum

section

variable (ρ : Nat → Option Resumer) (cs : List Control) (lower : List CallInfo)

/-- The frames of one run of `Execute`, on top of `lower`. Only the first of them
is a root; a generator in the first frame has been resumed by the C++ code under
this run, any other by the script frame below it. -/
inductive Own : List CallInfo → Prop
  | root {r} (root : r.root = true)
      (host : ∀ x, r.generator = some x → ρ x = some (.host cs)) : Own [r]
  | push {c own} (rest : Own own) (root : c.root = false)
      (script : ∀ x, c.generator = some x → ρ x = some (.script (cs.length + 1) (own ++ lower))) :
      Own (c :: own)

end

/-- `traps` counts the traps of these frames, and they are the ones on top of
those there were before. -/
structure Counted (a : Activation) (own : List CallInfo) (etraps : List LVExceptionTrap) :
    Prop where
  nonneg : ∀ c ∈ own, 0 ≤ c.etraps
  traps : a.traps = sumTraps own
  entry : ∃ ts, etraps = ts ++ a.entry ∧ (ts.length : Int) = sumTraps own

inductive Stacked (Strict : Prop) (ρ : Nat → Option Resumer) (s : Option Activation) :
    List Control → List CallInfo → List LVExceptionTrap → Prop
  | host {idles etraps} (awake : s = none) (idle : ∀ ci ∈ idles, ci.Idle)
      (counted : Strict → etraps = []) : Stacked Strict ρ s [.host] idles etraps
  | asleep {a idles own lower etraps} (asleep : s = some a) (idle : ∀ ci ∈ idles, ci.Idle)
      (depth : a.depth = lower.length) (owned : Own ρ [.host] lower own)
      (below : ∀ ci ∈ lower, ci.Idle) (counted : Strict → Counted a own etraps ∧ a.entry = []) :
      Stacked Strict ρ s [.host] (idles ++ (own ++ lower)) etraps
  | native {cs idles lower etraps} (below : Stacked Strict ρ s cs lower etraps)
      (idle : ∀ ci ∈ idles, ci.Idle) (frame : idles ≠ []) :
      Stacked Strict ρ s (.native :: cs) (idles ++ lower) etraps
  | metamethod {nparams cs idles lower etraps} (below : Stacked Strict ρ s cs lower etraps)
      (idle : ∀ ci ∈ idles, ci.Idle) :
      Stacked Strict ρ s (.metamethod nparams :: cs) (idles ++ lower) etraps
  | execute {a cs idles own lower etraps} (below : Stacked Strict ρ s cs lower a.entry)
      (idle : ∀ ci ∈ idles, ci.Idle) (depth : a.depth = lower.length) (owned : Own ρ cs lower own)
      (counted : Strict → Counted a own etraps) :
      Stacked Strict ρ s (.execute a :: cs) (idles ++ (own ++ lower)) etraps

variable {Strict : Prop} {ρ : Nat → Option Resumer} {s : Option Activation}
  {cs : List Control} {frames own lower idles : List CallInfo}
  {etraps etraps' : List LVExceptionTrap} {a : Activation} {c ci : CallInfo}

theorem Own.ne_nil (h : Own ρ cs lower own) : own ≠ [] := by
  cases h <;> simp

/-- The running frame may change in everything but its marks. -/
theorem Own.modifyHead {f : CallInfo → CallInfo} (keeps : ∀ ci, (f ci).mark = ci.mark)
    (h : Own ρ cs lower own) : Own ρ cs lower (own.modifyHead f) := by
  have root : ∀ ci, (f ci).root = ci.root := fun ci => congrArg (·.2.1) (keeps ci)
  have generator : ∀ ci, (f ci).generator = ci.generator := fun ci => congrArg (·.2.2) (keeps ci)
  cases h with
  | root isRoot host => exact .root (by rw [root, isRoot]) (by simpa only [generator] using host)
  | push rest notRoot script =>
    exact .push rest (by rw [root, notRoot]) (by simpa only [generator] using script)

theorem Own.update {x : Nat} {r : Option Resumer} (h : Own ρ cs lower own)
    (notMem : ∀ ci ∈ own, ci.generator ≠ some x) : Own (Function.update ρ x r) cs lower own := by
  induction h with
  | root isRoot host =>
    refine .root isRoot fun y is => ?_
    rw [Function.update_of_ne]
    · exact host y is
    · rintro rfl
      exact notMem _ List.mem_cons_self is
  | push rest notRoot script ih =>
    refine .push (ih fun ci mem => notMem ci (List.mem_cons_of_mem _ mem)) notRoot fun y is => ?_
    rw [Function.update_of_ne]
    · exact script y is
    · rintro rfl
      exact notMem _ List.mem_cons_self is

theorem Counted.modifyHead {f : CallInfo → CallInfo} (keeps : ∀ ci, (f ci).mark = ci.mark)
    (h : Counted a own etraps) : Counted a (own.modifyHead f) etraps := by
  have etraps_ : ∀ ci, (f ci).etraps = ci.etraps := fun ci => congrArg Prod.fst (keeps ci)
  have sum : sumTraps (own.modifyHead f) = sumTraps own := by
    cases own <;> simp [sumTraps, etraps_]
  refine ⟨?_, by rw [sum, h.traps], by rw [sum]; exact h.entry⟩
  have nonneg := h.nonneg
  cases own with
  | nil => exact nonneg
  | cons c own => simpa [etraps_] using nonneg

theorem Stacked.absorb (stacked : Stacked Strict ρ s cs frames etraps)
    (idle : ∀ ci ∈ idles, ci.Idle) : Stacked Strict ρ s cs (idles ++ frames) etraps := by
  have append : ∀ {idles'}, (∀ ci ∈ idles', CallInfo.Idle ci) →
      ∀ ci ∈ idles ++ idles', CallInfo.Idle ci := by
    intro idles' idle' ci mem
    exact (List.mem_append.mp mem).elim (idle ci) (idle' ci)
  cases stacked with
  | host awake idle' counted => exact .host awake (append idle') counted
  | asleep asleep idle' depth own below counted =>
    rw [← List.append_assoc]
    exact .asleep asleep (append idle') depth own below counted
  | native below idle' frame =>
    rw [← List.append_assoc]
    exact .native below (append idle') (by simp [frame])
  | metamethod below idle' =>
    rw [← List.append_assoc]
    exact .metamethod below (append idle')
  | execute below idle' depth own counted =>
    rw [← List.append_assoc]
    exact .execute below (append idle') depth own counted

theorem Stacked.update {x : Nat} {r : Option Resumer}
    (stacked : Stacked Strict ρ s cs frames etraps)
    (notMem : ∀ ci ∈ frames, ci.generator ≠ some x) :
    Stacked Strict (Function.update ρ x r) s cs frames etraps := by
  induction stacked with
  | host awake idle counted => exact .host awake idle counted
  | asleep asleep idle depth own below counted =>
    exact .asleep asleep idle depth (own.update fun ci mem => notMem ci (by simp [mem])) below counted
  | native below idle frame ih =>
    exact .native (ih fun ci mem => notMem ci (by simp [mem])) idle frame
  | metamethod below idle ih => exact .metamethod (ih fun ci mem => notMem ci (by simp [mem])) idle
  | execute below idle depth own counted ih =>
    exact .execute (ih fun ci mem => notMem ci (by simp [mem])) idle depth
      (own.update fun ci mem => notMem ci (by simp [mem])) counted

/-- Without counting, the traps are free. -/
theorem Stacked.free (notStrict : ¬ Strict) (stacked : Stacked Strict ρ s cs frames etraps) :
    Stacked Strict ρ s cs frames etraps' := by
  induction stacked with
  | host awake idle counted => exact .host awake idle (absurd · notStrict)
  | asleep asleep idle depth own below counted =>
    exact .asleep asleep idle depth own below (absurd · notStrict)
  | native below idle frame ih => exact .native ih idle frame
  | metamethod below idle ih => exact .metamethod ih idle
  | execute below idle depth own counted ih =>
    exact .execute below idle depth own (absurd · notStrict)

theorem sumTraps_nonneg (nonneg : ∀ c ∈ own, 0 ≤ c.etraps) : 0 ≤ sumTraps own := by
  induction own with
  | nil => simp [sumTraps]
  | cons c own ih =>
    obtain ⟨head, tail⟩ := List.forall_mem_cons.mp nonneg
    have := ih tail
    simp only [sumTraps, List.map_cons, List.sum_cons] at this ⊢
    omega

theorem Counted.nil_iff : Counted a [] etraps ↔ a.traps = 0 ∧ etraps = a.entry := by
  constructor
  · rintro ⟨-, traps, ts, rfl, length⟩
    have empty : ts = [] := List.eq_nil_of_length_eq_zero (by simpa [sumTraps] using length)
    exact ⟨traps, by simp [empty]⟩
  · rintro ⟨traps, rfl⟩
    exact ⟨List.forall_mem_nil _, traps, [], rfl, by simp [sumTraps]⟩

/-- The traps of the running frame come first. -/
theorem Counted.cons_iff : Counted a (c :: own) etraps ↔
    ∃ ts rest, etraps = ts ++ rest ∧ (ts.length : Int) = c.etraps ∧
      Counted { a with traps := a.traps - c.etraps } own rest := by
  have sum : sumTraps (c :: own) = c.etraps + sumTraps own := by simp [sumTraps]
  constructor
  · rintro ⟨nonneg, traps, ts, rfl, length⟩
    have first := nonneg c List.mem_cons_self
    have others := sumTraps_nonneg fun ci mem => nonneg ci (List.mem_cons_of_mem c mem)
    rw [sum] at traps length
    refine ⟨ts.take c.etraps.toNat, ts.drop c.etraps.toNat ++ a.entry, ?_, ?_,
      fun ci mem => nonneg ci (List.mem_cons_of_mem _ mem), ?_, ts.drop c.etraps.toNat, rfl, ?_⟩
    · rw [← List.append_assoc, List.take_append_drop]
    · rw [List.length_take]
      omega
    · simp only
      omega
    · rw [List.length_drop]
      omega
  · rintro ⟨ts, rest, rfl, length, nonneg, traps, ts', rfl, length'⟩
    refine ⟨?_, ?_, ts ++ ts', by simp, ?_⟩
    · intro ci mem
      rcases List.mem_cons.mp mem with rfl | mem
      · omega
      · exact nonneg ci mem
    · rw [sum]
      simp only at traps
      omega
    · rw [List.length_append, sum]
      omega

/-- A run of `Execute` that is on top of the C++ stack. -/
structure Running (Strict : Prop) (ρ : Nat → Option Resumer) (s : Option Activation)
    (a : Activation) (cs : List Control) (idles own lower : List CallInfo)
    (etraps : List LVExceptionTrap) : Prop where
  below : Stacked Strict ρ s cs lower a.entry
  idle : ∀ ci ∈ idles, ci.Idle
  depth : a.depth = lower.length
  owned : Own ρ cs lower own
  counted : Strict → Counted a own etraps

theorem Running.stacked (h : Running Strict ρ s a cs idles own lower etraps) :
    Stacked Strict ρ s (.execute a :: cs) (idles ++ (own ++ lower)) etraps :=
  .execute h.below h.idle h.depth h.owned h.counted

theorem Stacked.running (stacked : Stacked Strict ρ s (.execute a :: cs) frames etraps) :
    ∃ idles own lower, frames = idles ++ (own ++ lower) ∧
      Running Strict ρ s a cs idles own lower etraps := by
  cases stacked with
  | execute below idle depth own counted => exact ⟨_, _, _, rfl, below, idle, depth, own, counted⟩

/-- A run of `Execute` begins with the frame `ci`. -/
theorem Stacked.enter (ci : CallInfo) (ts : List LVExceptionTrap)
    (below : Stacked Strict ρ s cs lower etraps) (root : ci.root = true) (host : ∀ x, ci.generator = some x → ρ x = some (.host cs))
    (counts : Strict → (ts.length : Int) = ci.etraps) :
    Stacked Strict ρ s (.execute ⟨ci.etraps, lower.length, etraps⟩ :: cs) (ci :: lower)
      (ts ++ etraps) := by
  refine @Stacked.execute Strict ρ s ⟨ci.etraps, lower.length, etraps⟩ cs [] [ci] lower _ below
    (List.forall_mem_nil _) rfl (.root root host) fun strict => ?_
  exact Counted.cons_iff.mpr ⟨ts, etraps, rfl, counts strict, Counted.nil_iff.mpr ⟨by simp, rfl⟩⟩

theorem idle_modifyHead {f : CallInfo → CallInfo}
    (keeps : ∀ ci, (f ci).mark = ci.mark ∧ (f ci).closure = ci.closure)
    (idle : ∀ ci ∈ idles, ci.Idle) : ∀ ci ∈ idles.modifyHead f, ci.Idle := by
  cases idles with
  | nil => exact idle
  | cons ci idles =>
    obtain ⟨head, tail⟩ := List.forall_mem_cons.mp idle
    rw [List.modifyHead_cons, List.forall_mem_cons]
    refine ⟨⟨(keeps ci).1.trans head.plain, ?_⟩, tail⟩
    rw [(keeps ci).2]
    exact head.closure

/-- C++ code at work moves `ip` of the running frame at most. -/
theorem Stacked.modifyHead {f : CallInfo → CallInfo}
    (keeps : ∀ ci, (f ci).mark = ci.mark ∧ (f ci).closure = ci.closure)
    (stacked : Stacked Strict ρ s cs frames etraps) :
    Stacked Strict ρ s cs (frames.modifyHead f) etraps := by
  induction stacked with
  | host awake idle counted => exact .host awake (idle_modifyHead keeps idle) counted
  | @asleep a idles own lower etraps asleep idle depth owned below counted =>
    cases idles with
    | cons ci idles =>
      exact .asleep asleep (idle_modifyHead keeps idle) depth owned below counted
    | nil =>
      have modified := @Stacked.asleep Strict ρ s a [] (own.modifyHead f) lower etraps asleep idle depth
        (owned.modifyHead fun ci => (keeps ci).1) below fun strict =>
          ⟨(counted strict).1.modifyHead fun ci => (keeps ci).1, (counted strict).2⟩
      cases own with
      | nil => exact absurd rfl owned.ne_nil
      | cons c own => exact modified
  | @native cs idles lower etraps below idle frame ih =>
    cases idles with
    | nil => exact absurd rfl frame
    | cons ci idles => exact .native below (idle_modifyHead keeps idle) (by simp)
  | @metamethod nparams cs idles lower etraps below idle ih =>
    cases idles with
    | nil => exact .metamethod ih idle
    | cons ci idles => exact .metamethod below (idle_modifyHead keeps idle)
  | @execute a cs idles own lower etraps below idle depth owned counted ih =>
    cases idles with
    | cons ci idles => exact .execute below (idle_modifyHead keeps idle) depth owned counted
    | nil =>
      have modified := @Stacked.execute Strict ρ s a cs [] (own.modifyHead f) lower etraps below idle depth
        (owned.modifyHead fun ci => (keeps ci).1) fun strict =>
          (counted strict).modifyHead fun ci => (keeps ci).1
      cases own with
      | nil => exact absurd rfl owned.ne_nil
      | cons c own => exact modified

/-- The machine is suspended, with the frames of the run of `Execute` that goes on
at `lv_wakeupvm`. -/
theorem Stacked.suspend (stacked : Stacked Strict ρ none [.execute a, .host] frames etraps) :
    Stacked Strict ρ (some a) [.host] frames etraps := by
  cases stacked with
  | execute below idle depth owned counted =>
    generalize entry : a.entry = traps at below
    cases below with
    | host awake below bottom =>
      exact .asleep rfl idle depth owned below fun strict =>
        ⟨counted strict, entry.trans (bottom strict)⟩
    | asleep asleep => cases asleep

theorem Stacked.wakeup (stacked : Stacked Strict ρ (some a) [.host] frames etraps) :
    Stacked Strict ρ none [.execute a, .host] frames etraps := by
  cases stacked with
  | host awake => cases awake
  | asleep asleep idle depth owned below counted =>
    cases asleep
    exact .execute (.host rfl below fun strict => (counted strict).2) idle depth owned
      fun strict => (counted strict).1

end Lavril
