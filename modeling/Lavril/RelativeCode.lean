import Mathlib.Algebra.Order.Ring.Int
import Mathlib.Data.List.Basic
import Mathlib.Logic.Relation
import Mathlib.Tactic.Lift

/-!
# Code with relative jumps

An instruction fails or moves on: past itself and further by an offset. A piece of code whose
jumps stay inside and lead forward computes a function of the state, wherever it stands in
the whole.
-/

namespace RelativeCode

variable {Instr State : Type} (exec : Instr → State → Option (Int × State))

/-- One step from a position and a state. -/
def step (code : List Instr) (c : Int × State) : Option (Int × State) :=
  if c.1 < 0 then none
  else code[c.1.toNat]?.bind fun i => (exec i c.2).map fun next => (c.1 + 1 + next.1, next.2)

abbrev Reaches (code : List Instr) : Int × State → Int × State → Prop :=
  Relation.ReflTransGen fun c c' => step exec code c = some c'

/-- What code computes when its jumps lead forward. -/
def flow : List Instr → State → Option State
  | [], s => some s
  | i :: rest, s =>
    (exec i s).bind fun next =>
      if 0 ≤ next.1 ∧ next.1.toNat ≤ rest.length then flow (rest.drop next.1.toNat) next.2 else none
  termination_by code => code.length
  decreasing_by
    simp only [List.length_drop, List.length_cons]
    omega

/-- An instruction jumps over at most `n` others. -/
def Jumps (n : Nat) (i : Instr) : Prop := ∀ s d s', exec i s = some (d, s') → 0 ≤ d ∧ d ≤ n

/-- No jump leads out of the code, or back. -/
inductive Closed : List Instr → Prop
  | nil : Closed []
  | cons {i : Instr} {rest : List Instr} (jumps : Jumps exec rest.length i) (closed : Closed rest) :
      Closed (i :: rest)

variable {exec} {code pre seg rest post : List Instr} {i : Instr} {s s' : State} {n : Nat}

theorem step_at (at_ : code[n]? = some i) :
    step exec code (n, s) = (exec i s).map fun next => ((n : Int) + 1 + next.1, next.2) := by
  rw [step, if_neg (by simp), Int.toNat_natCast, at_, Option.bind_some]

theorem step_seg : step exec (pre ++ (i :: rest) ++ post) (pre.length, s) =
    (exec i s).map fun next => ((pre.length : Int) + 1 + next.1, next.2) := by
  refine step_at ?_
  rw [List.append_assoc, List.getElem?_append_right (Nat.le_refl _), Nat.sub_self]
  rfl

@[simp] theorem flow_nil : flow exec [] s = some s := by rw [flow]

theorem flow_cons : flow exec (i :: rest) s = (exec i s).bind fun next =>
    if 0 ≤ next.1 ∧ next.1.toNat ≤ rest.length then flow exec (rest.drop next.1.toNat) next.2
    else none := by rw [flow]

/-- An instruction that does not jump. -/
theorem flow_straight {next : State} (runs : exec i s = some (0, next)) :
    flow exec (i :: rest) s = flow exec rest next := by
  rw [flow_cons, runs, Option.bind_some, if_pos ⟨le_refl _, Nat.zero_le _⟩]
  rfl

theorem flow_jump {d : Nat} {next : State} (runs : exec i s = some ((d : Int), next))
    (le : d ≤ rest.length) : flow exec (i :: rest) s = flow exec (rest.drop d) next := by
  rw [flow_cons, runs, Option.bind_some, if_pos ⟨Int.natCast_nonneg d, le⟩]
  rfl

/-- The jump to the end. -/
theorem flow_skip {next : State} (runs : exec i s = some ((rest.length : Int), next)) :
    flow exec (i :: rest) s = some next := by
  rw [flow_jump runs (le_refl _), List.drop_length, flow_nil]

theorem flow_fails (fails : exec i s = none) : flow exec (i :: rest) s = none := by
  rw [flow_cons, fails, Option.bind_none]

theorem bind_flow_fails {x : Option State} (fails : x.bind (exec i) = none) :
    x.bind (flow exec (i :: rest)) = none := by
  rw [Option.bind_eq_none_iff] at fails ⊢
  exact fun s known => flow_fails (fails s known)

theorem bind_flow_jump {x : Option State} {d : Nat} {next : State}
    (runs : x.bind (exec i) = some ((d : Int), next)) (le : d ≤ rest.length) :
    x.bind (flow exec (i :: rest)) = flow exec (rest.drop d) next := by
  obtain ⟨s, known, jumps⟩ := Option.bind_eq_some_iff.mp runs
  rw [known, Option.bind_some, flow_jump jumps le]

theorem flow_singleton (straight : Jumps exec 0 i) :
    flow exec [i] s = (exec i s).map Prod.snd := by
  cases runs : exec i s with
  | none => exact flow_fails runs
  | some next =>
    obtain ⟨d, next⟩ := next
    obtain ⟨nonneg, le⟩ := straight s d next runs
    obtain rfl : d = 0 := by omega
    rw [flow_straight runs, flow_nil, Option.map_some]

theorem Jumps.mono {m n : Nat} (jumps : Jumps exec m i) (le : m ≤ n) : Jumps exec n i := by
  intro s d s' runs
  have := jumps s d s' runs
  omega

theorem Closed.append {more : List Instr} (closed : Closed exec code) (closed' : Closed exec more) :
    Closed exec (code ++ more) := by
  induction closed with
  | nil => exact closed'
  | cons jumps _ ih => exact .cons (jumps.mono (by simp)) ih

theorem Closed.concat (closed : Closed exec code) (straight : Jumps exec 0 i) :
    Closed exec (code ++ [i]) := closed.append (.cons straight .nil)

theorem Closed.drop (closed : Closed exec code) (n : Nat) : Closed exec (code.drop n) := by
  induction closed generalizing n with
  | nil => simpa using Closed.nil
  | cons jumps closed ih =>
    cases n with
    | zero => exact .cons jumps closed
    | succ n => exact ih n

/-- Pieces of code one after the other. -/
theorem flow_append {more : List Instr} (closed : Closed exec code) :
    flow exec (code ++ more) s = (flow exec code s).bind (flow exec more) := by
  induction eq : code.length using Nat.strong_induction_on generalizing code s with
  | _ n ih =>
    cases closed with
    | nil => rw [List.nil_append, flow_nil, Option.bind_some]
    | @cons i rest jumps closed =>
      rw [List.length_cons] at eq
      rw [List.cons_append]
      cases runs : exec i s with
      | none => rw [flow_fails runs, flow_fails runs, Option.bind_none]
      | some next =>
        obtain ⟨d, next⟩ := next
        obtain ⟨nonneg, le⟩ := jumps s d next runs
        lift d to Nat using nonneg
        have inside : d ≤ rest.length := by omega
        rw [flow_jump runs inside, flow_jump runs (by simp only [List.length_append]; omega),
          List.drop_append_of_le_length inside]
        exact ih _ (by simp only [List.length_drop]; omega) (closed.drop d) rfl

theorem flow_concat (closed : Closed exec code) (straight : Jumps exec 0 i) :
    flow exec (code ++ [i]) s = (flow exec code s).bind fun s => (exec i s).map Prod.snd := by
  rw [flow_append closed]
  congr 1
  funext s
  exact flow_singleton straight

/-- The code computes the same in any place. -/
theorem reaches_flow (flows : flow exec seg s = some s') :
    Reaches exec (pre ++ seg ++ post) (pre.length, s) (pre.length + seg.length, s') := by
  induction eq : seg.length using Nat.strong_induction_on generalizing pre seg s with
  | _ n ih =>
    subst eq
    cases seg with
    | nil =>
      rw [flow_nil, Option.some.injEq] at flows
      rw [flows, List.length_nil, Nat.cast_zero, add_zero]
    | cons i rest =>
      rw [flow_cons, Option.bind_eq_some_iff] at flows
      obtain ⟨⟨d, next⟩, runs, flows⟩ := flows
      split at flows
      · rename_i forward
        obtain ⟨nonneg, le⟩ := forward
        dsimp only at nonneg le flows
        lift d to Nat using nonneg
        rw [Int.toNat_natCast] at le flows
        have first := @step_seg _ _ exec pre rest post i s
        rw [runs, Option.map_some] at first
        have split : pre ++ (i :: rest) ++ post =
            (pre ++ i :: rest.take d) ++ rest.drop d ++ post := by
          simp
        have there := @ih _ (by simp only [List.length_drop, List.length_cons]; omega)
          (pre ++ i :: rest.take d) _ _ flows rfl
        rw [← split] at there
        have start : ((pre ++ i :: rest.take d).length : Int) = pre.length + 1 + d := by
          simp only [List.length_append, List.length_cons, List.length_take]
          omega
        have stop : ((pre ++ i :: rest.take d).length : Int) + (rest.drop d).length =
            pre.length + (i :: rest).length := by
          simp only [List.length_append, List.length_cons, List.length_take, List.length_drop]
          omega
        rw [start] at there stop
        rw [stop] at there
        exact .head first there
      · cases flows

/-- Code that does not come to its end stops inside. -/
theorem reaches_stuck (closed : Closed exec seg) (flows : flow exec seg s = none) :
    ∃ (n : Nat) (i : Instr) (next : State), Reaches exec (pre ++ seg ++ post) (pre.length, s) (n, next) ∧
      (pre ++ seg ++ post)[n]? = some i ∧ i ∈ seg ∧ exec i next = none := by
  induction eq : seg.length using Nat.strong_induction_on generalizing pre seg s with
  | _ n ih =>
    subst eq
    cases closed with
    | nil => cases (@flow_nil _ _ exec s).symm.trans flows
    | @cons i rest jumps closed =>
      cases runs : exec i s with
      | none =>
        refine ⟨pre.length, i, s, .refl, ?_, List.mem_cons_self, runs⟩
        rw [List.append_assoc, List.getElem?_append_right (Nat.le_refl _), Nat.sub_self]
        rfl
      | some next =>
        obtain ⟨d, next⟩ := next
        obtain ⟨nonneg, le⟩ := jumps s d next runs
        lift d to Nat using nonneg
        have inside : d ≤ rest.length := by omega
        rw [flow_jump runs inside] at flows
        have first := @step_seg _ _ exec pre rest post i s
        rw [runs, Option.map_some] at first
        have split : pre ++ (i :: rest) ++ post =
            (pre ++ i :: rest.take d) ++ rest.drop d ++ post := by
          simp
        obtain ⟨n, j, last, there, at_, mem, fails⟩ := @ih _
          (by simp only [List.length_drop, List.length_cons]; omega) (pre ++ i :: rest.take d) _ _
          (closed.drop d) flows rfl
        have start : ((pre ++ i :: rest.take d).length : Int) = pre.length + 1 + d := by
          simp only [List.length_append, List.length_cons, List.length_take]
          omega
        rw [← split] at there at_
        rw [start] at there
        exact ⟨n, j, last, .head first there, at_, List.mem_cons_of_mem _ (List.mem_of_mem_drop mem),
          fails⟩

end RelativeCode
