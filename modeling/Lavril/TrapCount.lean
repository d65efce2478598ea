import Lavril.Returns

/-!
# The counter of traps

`Execute` counts the traps of the frames it has entered, in a variable of its
own, in the frames and on the trap stack.
-/

namespace Lavril

open LVVM

namespace Exec

variable {alive : LVVM → LVObject → Bool} {Program : FunctionPrototype → Prop} {e : Exec}
  {a : Activation} {cs : List Control} {v : LVVM} {i : LVInstruction} {own : List CallInfo}

/-- `a` counts the traps of the frames it has entered, and they are on top of those
there were when it was entered. The frames `above` and the traps `newer` belong
to later calls. -/
def Counts (a : Activation) (above frames : List CallInfo) (newer etraps : List LVExceptionTrap) :
    Prop :=
  ∃ own lower older, frames = above ++ (own ++ lower) ∧ a.depth = lower.length ∧
    etraps = newer ++ older ∧ Counted a own older

theorem sumTraps_idle {idles own : List CallInfo} (idle : ∀ ci ∈ idles, ci.Idle) :
    sumTraps (idles ++ own) = sumTraps own := by
  induction idles with
  | nil => rfl
  | cons ci idles ih =>
    obtain ⟨first, rest⟩ := List.forall_mem_cons.mp idle
    have := ih rest
    simp only [sumTraps, List.cons_append, List.map_cons, List.sum_cons, first.plain.etraps] at this ⊢
    omega

/-- The frames that failed calls have left have no traps. -/
theorem counted_idle {idles own : List CallInfo} {etraps : List LVExceptionTrap}
    (counted : Counted a own etraps) (idle : ∀ ci ∈ idles, ci.Idle) :
    Counted a (idles ++ own) etraps where
  nonneg ci mem := by
    rcases List.mem_append.mp mem with mem | mem
    · exact (idle ci mem).plain.etraps.ge
    · exact counted.nonneg ci mem
  traps := by rw [sumTraps_idle idle, counted.traps]
  entry := by rw [sumTraps_idle idle]; exact counted.entry

/-- Every run of `Execute` on the C++ stack counts. -/
theorem stacked_counts {ρ : Nat → Option Resumer} {s : Option Activation} {frames : List CallInfo}
    {etraps : List LVExceptionTrap} (stacked : Stacked True ρ s cs frames etraps)
    (mem : .execute a ∈ cs) : ∃ above newer, Counts a above frames newer etraps := by
  induction stacked with
  | host => simp at mem
  | asleep => simp at mem
  | @native cs idles lower etraps below idle frame ih =>
    obtain ⟨above, newer, own, lower', older, rfl, depth, rfl, counted⟩ := ih (by simpa using mem)
    exact ⟨idles ++ above, newer, own, lower', older, by simp, depth, rfl, counted⟩
  | @metamethod nparams cs idles lower etraps below idle ih =>
    obtain ⟨above, newer, own, lower', older, rfl, depth, rfl, counted⟩ := ih (by simpa using mem)
    exact ⟨idles ++ above, newer, own, lower', older, by simp, depth, rfl, counted⟩
  | @execute a' cs idles own lower etraps below idle depth owned counted ih =>
    rcases List.mem_cons.mp mem with eq | mem
    · obtain rfl := Control.execute.inj eq
      exact ⟨[], [], idles ++ own, lower, etraps, by simp, depth, rfl,
        counted_idle (counted trivial) idle⟩
    · obtain ⟨above, newer, own', lower', older, rfl, depth', entry, counted'⟩ := ih mem
      obtain ⟨ts, rfl, -⟩ := (counted trivial).entry
      exact ⟨idles ++ own ++ above, ts ++ newer, own', lower', older, by simp, depth',
        by rw [entry, List.append_assoc], counted'⟩

/-- `Execute` counts the traps of its frames, as long as each frame gives up
exactly its own traps and `foreach` resumes no generator that has some. -/
theorem traps_counted {e₀ : Exec} (initial : Initial e₀)
    (runs : Runs alive Program (fun _ ev => ev.Unmixed ∧ ev.Balanced) e₀ e) :
    (∀ a, .execute a ∈ e.controls → ∃ above newer,
      Counts a above e.vm.callsstack newer e.vm.etraps) ∧
    ∀ a cs, e.controls = .execute a :: cs → Counts a [] e.vm.callsstack [] e.vm.etraps ∧
      ∀ i v e', Step alive Program (.instruction i v) e e' → (Event.instruction i v).Balanced →
        v.frameRoot = true → (i.op = .OP_RETURN → a.traps = 0) ∧
          (i.op = .OP_YIELD → a.traps - v.frameTraps = 0) := by
  have held : Held True e := runs.held initial fun _ _ allowed => ⟨allowed.1, fun _ => allowed.2⟩
  refine ⟨fun a mem => stacked_counts held.stacked mem, fun a cs controls => ⟨?_, ?_⟩⟩
  · have stacked := held.stacked
    rw [controls] at stacked
    obtain ⟨idles, own, lower, frames, run⟩ := stacked.running
    exact ⟨idles ++ own, lower, _, by simp [frames], run.depth, rfl,
      counted_idle (run.counted trivial) run.idle⟩
  · intro i v e' step balanced root
    have wf := runs.wf initial.wf
    have counts : a.traps = v.frameTraps := by
      cases step with
      | @instruction _ a' cs' _ _ r controls' fetch run =>
        rw [controls] at controls'
        cases controls'
        obtain ⟨own, lower, frames, running⟩ := held.fetch wf controls fetch
        have owned := running.owned
        have counted := running.counted trivial
        cases owned with
        | root isRoot host =>
          obtain ⟨ts, rest, -, -, below⟩ := Counted.cons_iff.mp counted
          have := (Counted.nil_iff.mp below).1
          simp only [frameTraps, frames, List.cons_append, List.head?_cons, Option.map_some,
            Option.getD_some] at this ⊢
          omega
        | push owned notRoot script =>
          simp [frameRoot, frames, notRoot] at root
    refine ⟨fun op => ?_, fun _ => by omega⟩
    rw [counts, balanced.2.2 op]

theorem not_counts {frames : List CallInfo} {newer etraps : List LVExceptionTrap} (depth : a.depth = 0)
    (sum : a.traps ≠ sumTraps frames) : ¬ Counts a [] frames newer etraps := by
  rintro ⟨own, lower, older, rfl, lowest, -, counted⟩
  have empty : lower = [] := List.eq_nil_of_length_eq_zero (lowest.symm.trans depth)
  subst empty
  simp only [List.nil_append, List.append_nil] at sum
  exact sum counted.traps

/-- The second function resumes `this` and then has `foreach (x in this) ;`. The
generator yields in a `try` block. -/
def yieldsInTry : Exec :=
  { hostCall with
    vm := { hostCall.vm with
      heap := fun address =>
        match address with
        | 0 => some (.closure (functionOf true []
            [⟨.OP_PUSHTRAP, 1, 3, 0, 0⟩, ⟨.OP_YIELD, 0xFF, 0xFF, 4, 0⟩, ⟨.OP_POPTRAP, 1, 0, 0, 0⟩]))
        | 1 => some (.closure (functionOf false []
            [⟨.OP_RESUME, 1, 0, 0, 0⟩, ⟨.OP_FOREACH, 0, 2, 1, 0⟩, ⟨.OP_POSTFOREACH, 0, 1, 1, 0⟩,
             ⟨.OP_JMP, 0, -3, 0, 0⟩]))
        | _ => none
      next := 2 } }

theorem yieldsInTry_initial : Initial yieldsInTry where
  controls := rfl
  suspended := rfl
  callsstack := rfl
  etraps := rfl
  generators a := by
    simp only [generatorAt, yieldsInTry]
    split
    · rename_i g found
      split at found <;> cases found
    · rfl
  wf := by
    refine ⟨fun a le => ?_, List.forall_mem_nil _, .nil, .nil⟩
    obtain ⟨b, rfl⟩ := Nat.exists_eq_add_of_le' le
    rfl

theorem unmixed_of_op (resume : i.op ≠ .OP_RESUME) (foreach : i.op ≠ .OP_FOREACH) :
    (Event.instruction i v).Unmixed := by
  intro a g ci is
  rw [resumes_of_op resume foreach] at is
  cases is

/-- When the generator has entered the `try` block there is one trap. -/
theorem traps_counted_yieldsInTry : ∃ e a cs,
    Runs (fun _ _ => true) (fun _ => True) (fun _ ev => ev.Unmixed ∧ ev.Balanced) yieldsInTry e ∧
    e.controls = .execute a :: cs ∧ a.traps = 1 ∧ Counts a [] e.vm.callsstack [] e.vm.etraps := by
  have run₀ : Runs (fun _ _ => true) (fun _ => True) (fun _ ev => ev.Unmixed ∧ ev.Balanced)
      yieldsInTry yieldsInTry := .refl
  have run₁ := run₀.tail (by exact ⟨fun _ => rfl, trivial⟩) (@Step.generator _ _ _
    (.ofAddress .OT_CLOSURE 0) _ 1 false _ _ (by simp [Outside, yieldsInTry, hostCall]) rfl rfl)
  have run₂ := run₁.tail (by exact ⟨fun eq => (by cases eq), trivial⟩) (@Step.call _ _ _
    (.ofAddress .OT_CLOSURE 1) _ 1 false _ _ (by rintro a ⟨⟩) rfl rfl)
  have run₃ := run₂.tail (by
    refine ⟨?_, fun op => absurd op ?_, fun op => absurd op ?_, fun op => absurd op ?_⟩
    · rintro a g ci ⟨⟩ ⟨⟩
      rfl
    all_goals decide) (.instruction rfl rfl rfl)
  have run₄ := run₃.tail (by
    refine ⟨unmixed_of_op ?_ ?_, fun op => absurd op ?_, fun op => absurd op ?_,
      fun op => absurd op ?_⟩
    all_goals decide) (.instruction rfl rfl rfl)
  exact ⟨_, _, _, run₄, rfl, rfl, ((traps_counted yieldsInTry_initial run₄).2 _ _ rfl).1⟩

/-- When `foreach` resumes it the frames have a trap that `Execute` has not counted. -/
theorem yieldsInTry_uncounted : Initial yieldsInTry ∧ ∃ e a cs,
    Runs (fun _ _ => true) (fun _ => True) (fun _ _ => True) yieldsInTry e ∧
    e.controls = .execute a :: cs ∧ a.traps = 0 ∧ a.depth = 0 ∧ sumTraps e.vm.callsstack = 1 ∧
    ¬ Counts a [] e.vm.callsstack [] e.vm.etraps := by
  have run₀ : Runs (fun _ _ => true) (fun _ => True) (fun _ _ => True) yieldsInTry yieldsInTry :=
    .refl
  have run₁ := run₀.tail trivial (@Step.generator _ _ _ (.ofAddress .OT_CLOSURE 0) _ 1 false _ _
    (by simp [Outside, yieldsInTry, hostCall]) rfl rfl)
  have run₂ := run₁.tail trivial (@Step.call _ _ _ (.ofAddress .OT_CLOSURE 1) _ 1 false _ _
    (by rintro a ⟨⟩) rfl rfl)
  have run₃ := run₂.tail trivial (.instruction rfl rfl rfl)
  have run₄ := run₃.tail trivial (.instruction rfl rfl rfl)
  have run₅ := run₄.tail trivial (.instruction rfl rfl rfl)
  have run₆ := run₅.tail trivial (.instruction rfl rfl rfl)
  exact ⟨yieldsInTry_initial, _, _, _, run₆, rfl, rfl, rfl, rfl, not_counts rfl (by decide)⟩

end Exec

end Lavril
