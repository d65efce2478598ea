import Lavril.RelativeCode

/-!
# Code of structured programs

Commands are relations between an environment and what comes of it. A piece of code implements
a command when it does so wherever it stands: it arrives at its end, or at the target of a
`break` or a `continue`, or stops at an instruction that returns a value or fails; and a
command that comes to nothing is one whose code never stops.
-/

namespace RelativeCode

inductive Outcome (Env Value : Type) where
  | normal (env : Env)
  | broke (env : Env)
  | continued (env : Env)
  | returned (v : Value)
  | failed

abbrev Command (Env Value : Type) := Env → Outcome Env Value → Prop

variable {Env Value : Type}

namespace Outcome

/-- The environment of the next round, when a round of a loop ends so. -/
def goesOn : Outcome Env Value → Option Env
  | .normal env | .continued env => some env
  | _ => none

/-- What comes of a loop when a round ends so. -/
def leaves : Outcome Env Value → Option (Outcome Env Value)
  | .broke env => some (.normal env)
  | .returned v => some (.returned v)
  | .failed => some .failed
  | _ => none

def mapNormal (f : Env → Env) : Outcome Env Value → Outcome Env Value
  | .normal env => .normal (f env)
  | o => o

end Outcome

/-! ## Commands -/

namespace Command

def skip : Command Env Value := fun env o => o = .normal env

/-- Computes the next environment, or fails. -/
def compute (f : Env → Option Env) : Command Env Value := fun env o =>
  o = match f env with
    | some env => .normal env
    | none => .failed

inductive Seq (first second : Command Env Value) : Command Env Value
  | both {env env' : Env} {o : Outcome Env Value} (runs : first env (.normal env'))
      (runs' : second env' o) : Seq first second env o
  | leaves {env : Env} {o : Outcome Env Value} (runs : first env o)
      (leaves : ∀ env', o ≠ .normal env') : Seq first second env o

def branch (test : Env → Option Bool) (yes no : Command Env Value) : Command Env Value := fun env o =>
  match test env with
  | none => o = .failed
  | some true => yes env o
  | some false => no env o

/-- One round of a loop, and what follows it. -/
inductive Round (body next : Command Env Value) : Command Env Value
  | goesOn {env env' : Env} {o o' : Outcome Env Value} (runs : body env o)
      (goes : o.goesOn = some env') (rest : next env' o') : Round body next env o'
  | leaves {env : Env} {o o' : Outcome Env Value} (runs : body env o)
      (leaves : o.leaves = some o') : Round body next env o'

inductive Loop (test : Env → Option Bool) (body : Command Env Value) : Command Env Value
  | fails {env : Env} (fails : test env = none) : Loop test body env .failed
  | done {env : Env} (done : test env = some false) : Loop test body env (.normal env)
  | goesOn {env env' : Env} {o o' : Outcome Env Value} (holds : test env = some true)
      (runs : body env o) (goes : o.goesOn = some env') (rest : Loop test body env' o') :
      Loop test body env o'
  | leaves {env : Env} {o o' : Outcome Env Value} (holds : test env = some true) (runs : body env o)
      (leaves : o.leaves = some o') : Loop test body env o'

/-- What is declared inside is out of scope outside. -/
inductive Scoped (leave : Env → Env → Env) (body : Command Env Value) : Command Env Value
  | mk {env : Env} {o : Outcome Env Value} (runs : body env o) :
      Scoped leave body env (o.mapNormal (leave env))

end Command

open Command

variable {Instr State : Type} (exec : Instr → State → Option (Int × State))
  (returns : Instr → State → Option Value)

/-! ## Implementing a command -/

/-- The code stops at some time. -/
def Halts (code : List Instr) : Int × State → Prop := Acc fun c' c => step exec code c = some c'

def Arrives (code : List Instr) (c : Int × State) (p : Int) (abs : State → Env) (env : Env) : Prop :=
  ∃ s, Reaches exec code c (p, s) ∧ abs s = env

/-- The code stops at an instruction of which `P` holds. -/
def Stops (code : List Instr) (c : Int × State) (P : Instr → State → Prop) : Prop :=
  ∃ (n : Nat) (i : Instr) (s : State), Reaches exec code c (n, s) ∧ code[n]? = some i ∧ P i s

/-- Where a piece of code leads: its end, the targets of `break` and `continue`, and what the
states there mean. -/
structure Exits (State Env : Type) where
  stop : Int
  broke : Int
  continued : Int
  after : State → Env
  loop : State → Env

def Meets (code : List Instr) (c : Int × State) (exits : Exits State Env) : Outcome Env Value → Prop
  | .normal env => Arrives exec code c exits.stop exits.after env
  | .broke env => Arrives exec code c exits.broke exits.loop env
  | .continued env => Arrives exec code c exits.continued exits.loop env
  | .returned v => Stops exec code c fun i s => returns i s = some v
  | .failed => Stops exec code c fun i s => exec i s = none ∧ returns i s = none

/-- A piece of code with the targets of `break` and `continue` left open; they are counted
from its start. -/
abbrev Template (Instr : Type) := Int → Int → List Instr

/-- The piece of `n` instructions does what the command says. -/
structure Implements (n : Nat) (piece : Template Instr) (abs after loop : State → Env)
    (runs : Command Env Value) : Prop where
  length : ∀ b k, (piece b k).length = n
  meets : ∀ b k pre post s o, runs (abs s) o →
    Meets exec returns (pre ++ piece b k ++ post) (pre.length, s)
      ⟨pre.length + n, pre.length + b, pre.length + k, after, loop⟩ o
  total : ∀ b k pre post s, Halts exec (pre ++ piece b k ++ post) (pre.length, s) →
    ∃ o, runs (abs s) o

variable {exec returns}
variable {code pre post : List Instr} {c c' : Int × State} {s s' : State}
  {abs mid after loop : State → Env} {runs first second : Command Env Value}

theorem Halts.reaches (halts : Halts exec code c) (steps : Reaches exec code c c') :
    Halts exec code c' := by
  induction steps with
  | refl => exact halts
  | tail _ step ih => exact ih.inv step

theorem Arrives.of_reaches {p : Int} {env : Env} (steps : Reaches exec code c c')
    (h : Arrives exec code c' p abs env) : Arrives exec code c p abs env := by
  obtain ⟨s, there, eq⟩ := h
  exact ⟨s, steps.trans there, eq⟩

theorem Stops.of_reaches {P : Instr → State → Prop} (steps : Reaches exec code c c')
    (h : Stops exec code c' P) : Stops exec code c P := by
  obtain ⟨n, i, s, there, at_, holds⟩ := h
  exact ⟨n, i, s, steps.trans there, at_, holds⟩

theorem Meets.of_reaches {exits : Exits State Env} {o : Outcome Env Value}
    (steps : Reaches exec code c c') (h : Meets exec returns code c' exits o) :
    Meets exec returns code c exits o := by
  cases o with
  | normal | broke | continued => exact Arrives.of_reaches steps h
  | returned | failed => exact Stops.of_reaches steps h

/-- Only the exits an outcome leads to matter. -/
theorem Meets.leave {exits exits' : Exits State Env} {o : Outcome Env Value}
    (h : Meets exec returns code c exits o) (leaves : ∀ env, o ≠ .normal env)
    (broke : exits'.broke = exits.broke) (continued : exits'.continued = exits.continued)
    (loop : exits'.loop = exits.loop) : Meets exec returns code c exits' o := by
  cases o with
  | normal env => exact absurd rfl (leaves env)
  | broke | continued => simpa only [Meets, broke, continued, loop] using h
  | returned | failed => exact h

/-! ## Pieces that compute -/

/-- No instruction returns. -/
def Quiet (returns : Instr → State → Option Value) (code : List Instr) : Prop :=
  ∀ i ∈ code, ∀ s, returns i s = none

theorem Implements.ofFlow {seg : List Instr} {f : Env → Option Env} (closed : Closed exec seg)
    (quiet : Quiet returns seg) (computes : ∀ s, (flow exec seg s).map after = f (abs s)) :
    Implements exec returns seg.length (fun _ _ => seg) abs after loop (compute f) := by
  refine ⟨fun _ _ => rfl, ?_, fun _ _ _ _ s _ => ⟨_, rfl⟩⟩
  intro b k pre post s o runs
  cases flows : flow exec seg s with
  | some s' =>
    have result : f (abs s) = some (after s') := by rw [← computes, flows, Option.map_some]
    simp only [compute, result] at runs
    subst runs
    exact ⟨s', reaches_flow flows, rfl⟩
  | none =>
    have result : f (abs s) = none := by rw [← computes, flows, Option.map_none]
    simp only [compute, result] at runs
    subst runs
    obtain ⟨n, i, next, there, at_, mem, fails⟩ := reaches_stuck closed flows
    exact ⟨n, i, next, there, at_, fails, quiet i mem next⟩

theorem Implements.skip :
    Implements exec returns 0 (fun _ _ => []) abs abs loop Command.skip := by
  refine ⟨fun _ _ => rfl, ?_, fun _ _ _ _ s _ => ⟨_, rfl⟩⟩
  rintro b k pre post s o rfl
  refine ⟨s, ?_, rfl⟩
  rw [Nat.cast_zero, add_zero]

theorem Implements.congr {n : Nat} {piece piece' : Template Instr}
    (h : Implements exec returns n piece abs after loop runs) (eq : ∀ b k, piece' b k = piece b k) :
    Implements exec returns n piece' abs after loop runs := by
  obtain rfl : piece' = piece := by
    funext b k
    exact eq b k
  exact h

/-- Only what the command does to environments that stand for states matters. -/
theorem Implements.same {n : Nat} {piece : Template Instr} {runs' : Command Env Value}
    (h : Implements exec returns n piece abs after loop runs)
    (same : ∀ s o, runs' (abs s) o ↔ runs (abs s) o) :
    Implements exec returns n piece abs after loop runs' where
  length := h.length
  meets b k pre post s o run := h.meets b k pre post s o ((same s o).mp run)
  total b k pre post s halts := by
    obtain ⟨o, run⟩ := h.total b k pre post s halts
    exact ⟨o, (same s o).mpr run⟩

/-! ## One piece after the other -/

/-- The piece in a larger one, after `m` instructions. -/
def shift (m : Nat) (piece : Template Instr) : Template Instr := fun b k => piece (b - m) (k - m)

theorem Implements.meets_at {n : Nat} {piece : Template Instr} {b k p stop broke continued : Int}
    (h : Implements exec returns n piece abs after loop runs) (eq : code = pre ++ piece b k ++ post)
    (p_eq : p = pre.length) (stop_eq : stop = p + n) (broke_eq : broke = p + b)
    (continued_eq : continued = p + k) {o : Outcome Env Value} (run : runs (abs s) o) :
    Meets exec returns code (p, s) ⟨stop, broke, continued, after, loop⟩ o := by
  subst eq p_eq stop_eq broke_eq continued_eq
  exact h.meets b k pre post s o run

theorem Implements.total_at {n : Nat} {piece : Template Instr} {b k p : Int}
    (h : Implements exec returns n piece abs after loop runs) (eq : code = pre ++ piece b k ++ post)
    (p_eq : p = pre.length) (halts : Halts exec code (p, s)) : ∃ o, runs (abs s) o := by
  subst eq p_eq
  exact h.total b k pre post s halts

theorem Implements.seq {n m : Nat} {piece piece' : Template Instr}
    (h : Implements exec returns n piece abs mid loop first)
    (h' : Implements exec returns m piece' mid after loop second) :
    Implements exec returns (n + m) (fun b k => piece b k ++ shift n piece' b k) abs after loop
      (Seq first second) := by
  have left : ∀ (b k : Int) (pre post : List Instr), pre ++ (piece b k ++ shift n piece' b k) ++ post =
      pre ++ piece b k ++ (shift n piece' b k ++ post) := by simp
  have right : ∀ (b k : Int) (pre post : List Instr), pre ++ (piece b k ++ shift n piece' b k) ++ post =
      (pre ++ piece b k) ++ piece' (b - n) (k - n) ++ post := by simp [shift]
  have middle : ∀ (b k : Int) (pre : List Instr),
      (pre.length : Int) + n = (pre ++ piece b k).length := by simp [h.length]
  refine ⟨?_, ?_, ?_⟩
  · intro b k
    rw [List.length_append, h.length, shift, h'.length]
  · intro b k pre post s o run
    cases run with
    | both run run' =>
      obtain ⟨s', steps, rfl⟩ := h.meets_at (left b k pre post) rfl rfl rfl rfl run
      exact .of_reaches steps (h'.meets_at (right b k pre post) (middle b k pre)
        (by omega) (by omega) (by omega) run')
    | leaves run leaves =>
      exact (h.meets_at (left b k pre post) rfl rfl rfl rfl run).leave leaves rfl rfl rfl
  · intro b k pre post s halts
    obtain ⟨o, run⟩ := h.total_at (left b k pre post) rfl halts
    cases o with
    | normal env =>
      obtain ⟨s', steps, rfl⟩ := h.meets_at (left b k pre post) rfl rfl rfl rfl run
      obtain ⟨o, run'⟩ := h'.total_at (right b k pre post) (middle b k pre) (halts.reaches steps)
      exact ⟨o, .both run run'⟩
    | broke | continued | returned | failed => exact ⟨_, .leaves run (by simp)⟩

theorem Implements.scoped {n : Nat} {piece : Template Instr} {leave : Env → Env → Env}
    (h : Implements exec returns n piece abs after loop runs)
    (back : ∀ s s', leave (abs s) (after s') = abs s') :
    Implements exec returns n piece abs abs loop (Scoped leave runs) := by
  refine ⟨h.length, ?_, ?_⟩
  · rintro b k pre post s _ ⟨run⟩
    have there := h.meets b k pre post s _ run
    rename_i o
    cases o with
    | normal env =>
      obtain ⟨s', steps, rfl⟩ := there
      exact ⟨s', steps, (back s s').symm⟩
    | broke | continued | returned | failed => exact there
  · intro b k pre post s halts
    obtain ⟨o, run⟩ := h.total b k pre post s halts
    exact ⟨_, ⟨run⟩⟩

/-! ## Tests -/

variable {front : List Instr} {j jmp : Int → Instr} {test : Env → Option Bool}

variable (exec returns) in
/-- Code that ends in a conditional jump, taken when the test does not hold. -/
structure Tests (front : List Instr) (j : Int → Instr) (abs : State → Env)
    (test : Env → Option Bool) : Prop where
  closed : Closed exec front
  quiet : Quiet returns front
  silent : ∀ d s, returns (j d) s = none
  fails : ∀ d s, test (abs s) = none → (flow exec front s).bind (exec (j d)) = none
  decides : ∀ d s b, test (abs s) = some b → ∃ s',
    (flow exec front s).bind (exec (j d)) = some (if b then 0 else d, s') ∧ abs s' = abs s

theorem Tests.stops (h : Tests exec returns front j abs test) {d : Int} {rest : List Instr}
    (eq : code = pre ++ front ++ (j d :: rest)) (fails : test (abs s) = none) :
    Stops exec code (pre.length, s) fun i s => exec i s = none ∧ returns i s = none := by
  subst eq
  have stuck := h.fails d s fails
  cases flows : flow exec front s with
  | none =>
    obtain ⟨n, i, next, there, at_, mem, fails⟩ := reaches_stuck h.closed flows
    exact ⟨n, i, next, there, at_, fails, h.quiet i mem next⟩
  | some s' =>
    rw [flows, Option.bind_some] at stuck
    have there := @reaches_flow _ _ _ pre _ (j d :: rest) _ _ flows
    rw [← Nat.cast_add, ← List.length_append] at there
    exact ⟨(pre ++ front).length, j d, s', there, by simp, stuck, h.silent d s'⟩

theorem Tests.goes (h : Tests exec returns front j abs test) {d : Int} {rest : List Instr} {b : Bool}
    (eq : code = pre ++ front ++ (j d :: rest)) (decides : test (abs s) = some b) :
    ∃ s', Reaches exec code (pre.length, s)
      (pre.length + (front.length + 1 : Nat) + if b then 0 else d, s') ∧ abs s' = abs s := by
  subst eq
  obtain ⟨s', runs, same⟩ := h.decides d s b decides
  obtain ⟨mid, flows, jumps⟩ := Option.bind_eq_some_iff.mp runs
  have there := @reaches_flow _ _ _ pre _ (j d :: rest) _ _ flows
  have last : step exec (pre ++ front ++ (j d :: rest)) (pre.length + front.length, mid) =
      some (pre.length + (front.length + 1 : Nat) + if b then 0 else d, s') := by
    have at_ : (pre ++ front ++ (j d :: rest))[(pre ++ front).length]? = some (j d) := by simp
    have here := @step_at _ _ exec _ _ mid _ at_
    rw [jumps, Option.map_some, List.length_append, Nat.cast_add] at here
    rw [here, Nat.cast_add, Nat.cast_one, add_assoc (pre.length : Int)]
  exact ⟨s', there.tail last, same⟩

theorem Meets.forward {exits : Exits State Env} {o : Outcome Env Value} {p : Int}
    (h : Meets exec returns code c exits o)
    (steps : ∀ s, Reaches exec code (exits.stop, s) (p, s)) :
    Meets exec returns code c { exits with stop := p } o := by
  cases o with
  | normal env =>
    obtain ⟨s, there, eq⟩ := h
    exact ⟨s, there.trans (steps s), eq⟩
  | broke | continued | returned | failed => exact h

theorem reaches_jmp (jumps : ∀ d s, exec (jmp d) s = some (d, s)) {d : Int} {rest : List Instr}
    (eq : code = pre ++ (jmp d :: rest)) (s : State) :
    Reaches exec code (pre.length, s) (pre.length + 1 + d, s) := by
  subst eq
  refine .single ?_
  rw [step_at (i := jmp d) (by simp), jumps, Option.map_some]

/-! ## Branches -/

theorem Implements.ifThen {n : Nat} {piece : Template Instr}
    (tests : Tests exec returns front j abs test)
    (h : Implements exec returns n piece abs abs loop runs) :
    Implements exec returns (front.length + 1 + n)
      (fun b k => front ++ j n :: shift (front.length + 1) piece b k) abs abs loop
      (branch test runs Command.skip) := by
  have cond : ∀ (b k : Int) (pre post : List Instr),
      pre ++ (front ++ j n :: shift (front.length + 1) piece b k) ++ post =
        pre ++ front ++ j n :: (shift (front.length + 1) piece b k ++ post) := by simp
  have inner : ∀ (b k : Int) (pre post : List Instr),
      pre ++ (front ++ j n :: shift (front.length + 1) piece b k) ++ post =
        (pre ++ front ++ [j n]) ++ piece (b - (front.length + 1 : Nat)) (k - (front.length + 1 : Nat)) ++
          post := by simp [shift]
  have start : ∀ pre : List Instr, (pre.length : Int) + (front.length + 1 : Nat) + 0 =
      (pre ++ front ++ [j n]).length := by simp
  refine ⟨?_, ?_, ?_⟩
  · intro b k
    rw [List.length_append, List.length_cons, shift, h.length]
    omega
  · intro b k pre post s o run
    unfold branch at run
    split at run
    · rename_i fails
      subst run
      exact tests.stops (cond b k pre post) fails
    · rename_i holds
      obtain ⟨s', there, same⟩ := tests.goes (cond b k pre post) holds
      exact .of_reaches there (h.meets_at (inner b k pre post) (start pre)
        (by omega) (by omega) (by omega) (by rwa [same]))
    · rename_i holds
      obtain ⟨s', there, same⟩ := tests.goes (cond b k pre post) holds
      cases run
      refine ⟨s', ?_, same⟩
      rwa [if_neg Bool.false_ne_true, add_assoc, ← Nat.cast_add] at there
  · intro b k pre post s halts
    cases decides : test (abs s) with
    | none => exact ⟨.failed, by rw [branch, decides]⟩
    | some holds =>
      cases holds with
      | false => exact ⟨.normal (abs s), by rw [branch, decides]; rfl⟩
      | true =>
        obtain ⟨s', there, same⟩ := tests.goes (cond b k pre post) decides
        obtain ⟨o, run⟩ := h.total_at (inner b k pre post) (start pre) (halts.reaches there)
        rw [same] at run
        exact ⟨o, by rwa [branch, decides]⟩

/-- The code of the first branch jumps over that of the second. -/
theorem Implements.ifElse {n m : Nat} {piece piece' : Template Instr}
    (tests : Tests exec returns front j abs test)
    (jumps : ∀ d s, exec (jmp d) s = some (d, s))
    (h : Implements exec returns n piece abs abs loop first)
    (h' : Implements exec returns m piece' abs abs loop second) :
    Implements exec returns (front.length + 1 + n + (1 + m))
      (fun b k => front ++ j (n + 1 : Nat) :: shift (front.length + 1) piece b k ++
        jmp m :: shift (front.length + 1 + n + 1) piece' b k) abs abs loop
      (branch test first second) := by
  have cond : ∀ (b k : Int) (pre post : List Instr),
      pre ++ (front ++ j (n + 1 : Nat) :: shift (front.length + 1) piece b k ++
        jmp m :: shift (front.length + 1 + n + 1) piece' b k) ++ post =
      pre ++ front ++ j (n + 1 : Nat) :: (shift (front.length + 1) piece b k ++
        jmp m :: shift (front.length + 1 + n + 1) piece' b k ++ post) := by simp
  have yes : ∀ (b k : Int) (pre post : List Instr),
      pre ++ (front ++ j (n + 1 : Nat) :: shift (front.length + 1) piece b k ++
        jmp m :: shift (front.length + 1 + n + 1) piece' b k) ++ post =
      (pre ++ front ++ [j (n + 1 : Nat)]) ++
        piece (b - (front.length + 1 : Nat)) (k - (front.length + 1 : Nat)) ++
        (jmp m :: shift (front.length + 1 + n + 1) piece' b k ++ post) := by simp [shift]
  have no : ∀ (b k : Int) (pre post : List Instr),
      pre ++ (front ++ j (n + 1 : Nat) :: shift (front.length + 1) piece b k ++
        jmp m :: shift (front.length + 1 + n + 1) piece' b k) ++ post =
      (pre ++ front ++ j (n + 1 : Nat) :: shift (front.length + 1) piece b k ++ [jmp m]) ++
        piece' (b - (front.length + 1 + n + 1 : Nat)) (k - (front.length + 1 + n + 1 : Nat)) ++ post := by
    simp [shift]
  have skips : ∀ (b k : Int) (pre post : List Instr),
      pre ++ (front ++ j (n + 1 : Nat) :: shift (front.length + 1) piece b k ++
        jmp m :: shift (front.length + 1 + n + 1) piece' b k) ++ post =
      (pre ++ front ++ j (n + 1 : Nat) :: shift (front.length + 1) piece b k) ++
        jmp m :: (shift (front.length + 1 + n + 1) piece' b k ++ post) := by simp
  have startYes : ∀ pre : List Instr, (pre.length : Int) + (front.length + 1 : Nat) + 0 =
      (pre ++ front ++ [j (n + 1 : Nat)]).length := by simp
  have jump : ∀ (b k : Int) (pre : List Instr),
      (pre.length : Int) + (front.length + 1 : Nat) + n =
        (pre ++ front ++ j (n + 1 : Nat) :: shift (front.length + 1) piece b k).length := by
    intro b k pre
    simp only [List.length_append, List.length_cons, shift, h.length]
    omega
  have startNo : ∀ (b k : Int) (pre : List Instr),
      (pre.length : Int) + (front.length + 1 : Nat) + (n + 1 : Nat) =
        (pre ++ front ++ j (n + 1 : Nat) :: shift (front.length + 1) piece b k ++ [jmp m]).length := by
    intro b k pre
    simp only [List.length_append, List.length_cons, List.length_nil, shift, h.length]
    omega
  refine ⟨?_, ?_, ?_⟩
  · intro b k
    simp only [List.length_append, List.length_cons, shift, h.length, h'.length]
    omega
  · intro b k pre post s o run
    unfold branch at run
    split at run
    · rename_i fails
      subst run
      exact tests.stops (cond b k pre post) fails
    · rename_i holds
      obtain ⟨s', there, same⟩ := tests.goes (cond b k pre post) holds
      refine .of_reaches there ?_
      have done : Meets exec returns _ _
          ⟨_, pre.length + b, pre.length + k, abs, loop⟩ o :=
        h.meets_at (yes b k pre post) (startYes pre) rfl (by omega) (by omega) (by rwa [same])
      refine done.forward fun s => ?_
      have jumped := reaches_jmp jumps (skips b k pre post) s
      rw [← jump] at jumped
      have stop : (pre.length : Int) + (front.length + 1 : Nat) + n + 1 + m =
          pre.length + (front.length + 1 + n + (1 + m) : Nat) := by omega
      rwa [stop] at jumped
    · rename_i holds
      obtain ⟨s', there, same⟩ := tests.goes (cond b k pre post) holds
      exact .of_reaches there (h'.meets_at (no b k pre post) (startNo b k pre)
        (by omega) (by omega) (by omega) (by rwa [same]))
  · intro b k pre post s halts
    cases decides : test (abs s) with
    | none => exact ⟨.failed, by rw [branch, decides]⟩
    | some holds =>
      obtain ⟨s', there, same⟩ := tests.goes (cond b k pre post) decides
      cases holds with
      | false =>
        obtain ⟨o, run⟩ := h'.total_at (no b k pre post) (startNo b k pre) (halts.reaches there)
        rw [same] at run
        exact ⟨o, by rwa [branch, decides]⟩
      | true =>
        obtain ⟨o, run⟩ := h.total_at (yes b k pre post) (startYes pre) (halts.reaches there)
        rw [same] at run
        exact ⟨o, by rwa [branch, decides]⟩

/-! ## Loops -/

variable {body : Command Env Value} {n : Nat} {piece : Template Instr} {q start stop : Int}

variable (exec returns) in
/-- A loop with its test at `q` and its body at `start`. -/
structure Rounds (code : List Instr) (q start stop : Int) (abs : State → Env)
    (test : Env → Option Bool) (body : Command Env Value) : Prop where
  fails : ∀ s, test (abs s) = none →
    Stops exec code (q, s) fun i s => exec i s = none ∧ returns i s = none
  done : ∀ s, test (abs s) = some false → ∃ s', Reaches exec code (q, s) (stop, s') ∧ abs s' = abs s
  enters : ∀ s, test (abs s) = some true → ∃ s',
    Relation.TransGen (fun c c' => step exec code c = some c') (q, s) (start, s') ∧ abs s' = abs s
  meets : ∀ s o, body (abs s) o → Meets exec returns code (start, s) ⟨q, stop, q, abs, abs⟩ o
  total : ∀ s, Halts exec code (start, s) → ∃ o, body (abs s) o

theorem Arrives.of_goesOn {o : Outcome Env Value} {env : Env} (goes : o.goesOn = some env)
    (h : Meets exec returns code c ⟨q, stop, q, abs, abs⟩ o) : Arrives exec code c q abs env := by
  cases o with
  | normal | continued =>
    cases goes
    exact h
  | broke | returned | failed => cases goes

theorem Meets.of_leaves {o o' : Outcome Env Value} {b k : Int} (leaves : o.leaves = some o')
    (h : Meets exec returns code c ⟨q, stop, q, abs, abs⟩ o) :
    Meets exec returns code c ⟨stop, b, k, abs, loop⟩ o' := by
  cases o with
  | normal | continued => cases leaves
  | broke | returned | failed =>
    cases leaves
    exact h

theorem Rounds.loop_meets (h : Rounds exec returns code q start stop abs test body)
    {o : Outcome Env Value} {b k : Int} {env : Env} (run : Loop test body env o) :
    ∀ s, abs s = env → Meets exec returns code (q, s) ⟨stop, b, k, abs, loop⟩ o := by
  induction run with
  | fails fails =>
    rintro s rfl
    exact h.fails s fails
  | done done =>
    rintro s rfl
    exact h.done s done
  | goesOn holds run goes _ ih =>
    rintro s rfl
    obtain ⟨s', there, same⟩ := h.enters s holds
    rw [← same] at run
    obtain ⟨next, back, rfl⟩ := Arrives.of_goesOn goes (h.meets s' _ run)
    exact .of_reaches (there.to_reflTransGen.trans back) (ih next rfl)
  | leaves holds run leaves =>
    rintro s rfl
    obtain ⟨s', there, same⟩ := h.enters s holds
    rw [← same] at run
    exact .of_reaches there.to_reflTransGen (.of_leaves leaves (h.meets s' _ run))

theorem Rounds.round_meets (h : Rounds exec returns code q start stop abs test body)
    {o : Outcome Env Value} {b k : Int} (run : Round body (Loop test body) (abs s) o) :
    Meets exec returns code (start, s) ⟨stop, b, k, abs, loop⟩ o := by
  cases run with
  | goesOn run goes rest =>
    obtain ⟨next, back, rfl⟩ := Arrives.of_goesOn goes (h.meets s _ run)
    exact .of_reaches back (h.loop_meets rest next rfl)
  | leaves run leaves => exact .of_leaves leaves (h.meets s _ run)

/-- When the code of a loop stops, the loop comes to something. -/
theorem Rounds.loop_total (h : Rounds exec returns code q start stop abs test body)
    (halts : Halts exec code (q, s)) : ∃ o, Loop test body (abs s) o := by
  have trans := halts.transGen
  generalize eq : (q, s) = c at trans
  induction trans generalizing s with
  | intro c _ ih =>
    subst eq
    cases decides : test (abs s) with
    | none => exact ⟨_, .fails decides⟩
    | some holds =>
      cases holds with
      | false => exact ⟨_, .done decides⟩
      | true =>
        obtain ⟨s', there, same⟩ := h.enters s decides
        obtain ⟨o, run⟩ := h.total s' (halts.reaches there.to_reflTransGen)
        rw [same] at run
        cases goes : o.goesOn with
        | some env =>
          have ends := h.meets s' o (by rwa [same])
          obtain ⟨next, back, rfl⟩ := Arrives.of_goesOn goes ends
          have round := there.trans_left back
          obtain ⟨o', rest⟩ := ih (q, next) round.swap (halts.reaches round.to_reflTransGen) rfl
          exact ⟨o', .goesOn decides run goes rest⟩
        | none =>
          obtain ⟨o', leaves⟩ : ∃ o', o.leaves = some o' := by
            cases o with
            | normal | continued => cases goes
            | broke | returned | failed => exact ⟨_, rfl⟩
          exact ⟨o', .leaves decides run leaves⟩

theorem Rounds.round_total (h : Rounds exec returns code q start stop abs test body)
    (halts : Halts exec code (start, s)) : ∃ o, Round body (Loop test body) (abs s) o := by
  obtain ⟨o, run⟩ := h.total s halts
  cases goes : o.goesOn with
  | some env =>
    obtain ⟨next, back, rfl⟩ := Arrives.of_goesOn goes (h.meets s o run)
    obtain ⟨o', rest⟩ := h.loop_total (halts.reaches back)
    exact ⟨o', .goesOn run goes rest⟩
  | none =>
    cases o with
    | normal | continued => cases goes
    | broke | returned | failed => exact ⟨_, .leaves run rfl⟩

theorem reaches_trans {p : Int} (steps : Reaches exec code (q, s) (p, s')) (away : q ≠ p) :
    Relation.TransGen (fun c c' => step exec code c = some c') (q, s) (p, s') := by
  rcases Relation.reflTransGen_iff_eq_or_transGen.mp steps with same | trans
  · exact absurd (congrArg Prod.fst same).symm away
  · exact trans

/-- The test, the body and a jump back to the test. -/
def whileCode (front : List Instr) (j jmp : Int → Instr) (n : Nat) (piece : Template Instr) :
    List Instr :=
  front ++ j (n + 1 : Nat) :: piece (n + 1 : Nat) (-(front.length + 1 : Nat)) ++
    [jmp (-(front.length + 1 + n + 1 : Nat))]

theorem Implements.whileDo {n : Nat} {piece : Template Instr}
    (tests : Tests exec returns front j abs test)
    (jumps : ∀ d s, exec (jmp d) s = some (d, s))
    (h : Implements exec returns n piece abs abs abs body) :
    Implements exec returns (front.length + 1 + n + 1) (fun _ _ => whileCode front j jmp n piece)
      abs abs loop (Loop test body) := by
  have rounds : ∀ pre post : List Instr, Rounds exec returns
      (pre ++ whileCode front j jmp n piece ++ post) pre.length
      (pre.length + (front.length + 1 : Nat)) (pre.length + (front.length + 1 + n + 1 : Nat))
      abs test body := by
    intro pre post
    have cond : pre ++ whileCode front j jmp n piece ++ post = pre ++ front ++ j (n + 1 : Nat) ::
        (piece (n + 1 : Nat) (-(front.length + 1 : Nat)) ++
          [jmp (-(front.length + 1 + n + 1 : Nat))] ++ post) := by simp [whileCode]
    have inner : pre ++ whileCode front j jmp n piece ++ post = (pre ++ front ++ [j (n + 1 : Nat)]) ++
        piece (n + 1 : Nat) (-(front.length + 1 : Nat)) ++
        ([jmp (-(front.length + 1 + n + 1 : Nat))] ++ post) := by simp [whileCode]
    have back : pre ++ whileCode front j jmp n piece ++ post =
        (pre ++ front ++ j (n + 1 : Nat) :: piece (n + 1 : Nat) (-(front.length + 1 : Nat))) ++
        jmp (-(front.length + 1 + n + 1 : Nat)) :: post := by simp [whileCode]
    have start : (pre.length : Int) + (front.length + 1 : Nat) =
        (pre ++ front ++ [j (n + 1 : Nat)]).length := by simp
    refine ⟨fun s fails => tests.stops cond fails, ?_, ?_, ?_, ?_⟩
    · intro s done
      obtain ⟨s', there, same⟩ := tests.goes cond done
      refine ⟨s', ?_, same⟩
      have stop : (pre.length : Int) + (front.length + 1 : Nat) + (n + 1 : Nat) =
          pre.length + (front.length + 1 + n + 1 : Nat) := by omega
      rwa [if_neg Bool.false_ne_true, stop] at there
    · intro s holds
      obtain ⟨s', there, same⟩ := tests.goes cond holds
      rw [if_pos rfl, add_zero] at there
      exact ⟨s', reaches_trans there (by omega), same⟩
    · intro s o run
      have done : Meets exec returns _ _ ⟨pre.length + (front.length + 1 : Nat) + n,
          pre.length + (front.length + 1 + n + 1 : Nat), pre.length, abs, abs⟩ o :=
        h.meets_at inner start rfl (by omega) (by omega) run
      refine done.forward fun s => ?_
      have jumped := reaches_jmp jumps back s
      have length : ((pre ++ front ++ j (n + 1 : Nat) ::
          piece (n + 1 : Nat) (-(front.length + 1 : Nat))).length : Int) =
            pre.length + (front.length + 1 : Nat) + n := by
        simp only [List.length_append, List.length_cons, h.length]
        omega
      have there : (pre.length : Int) + (front.length + 1 : Nat) + n + 1 +
          -(front.length + 1 + n + 1 : Nat) = pre.length := by omega
      rwa [length, there] at jumped
    · intro s halts
      exact h.total_at inner start halts
  refine ⟨?_, ?_, ?_⟩
  · intro b k
    simp only [whileCode, List.length_append, List.length_cons, List.length_nil, h.length]
    omega
  · intro b k pre post s o run
    exact (rounds pre post).loop_meets run s rfl
  · intro b k pre post s halts
    exact (rounds pre post).loop_total halts

/-- The body, the test and a jump back to the body. -/
def doWhileCode (front : List Instr) (j jmp : Int → Instr) (n : Nat) (piece : Template Instr) :
    List Instr :=
  piece (n + front.length + 2 : Nat) n ++ front ++ [j 1, jmp (-(n + front.length + 2 : Nat))]

theorem Implements.doWhile {n : Nat} {piece : Template Instr}
    (tests : Tests exec returns front j abs test)
    (jumps : ∀ d s, exec (jmp d) s = some (d, s))
    (h : Implements exec returns n piece abs abs abs body) :
    Implements exec returns (n + front.length + 2) (fun _ _ => doWhileCode front j jmp n piece)
      abs abs loop (Round body (Loop test body)) := by
  have rounds : ∀ pre post : List Instr, Rounds exec returns
      (pre ++ doWhileCode front j jmp n piece ++ post) (pre.length + n) pre.length
      (pre.length + (n + front.length + 2 : Nat)) abs test body := by
    intro pre post
    have cond : pre ++ doWhileCode front j jmp n piece ++ post =
        (pre ++ piece (n + front.length + 2 : Nat) n) ++ front ++ j 1 ::
        (jmp (-(n + front.length + 2 : Nat)) :: post) := by simp [doWhileCode]
    have inner : pre ++ doWhileCode front j jmp n piece ++ post =
        pre ++ piece (n + front.length + 2 : Nat) n ++
        (front ++ [j 1, jmp (-(n + front.length + 2 : Nat))] ++ post) := by simp [doWhileCode]
    have back : pre ++ doWhileCode front j jmp n piece ++ post =
        (pre ++ piece (n + front.length + 2 : Nat) n ++ front ++ [j 1]) ++
        jmp (-(n + front.length + 2 : Nat)) :: post := by simp [doWhileCode]
    have middle : ((pre ++ piece (n + front.length + 2 : Nat) n).length : Int) = pre.length + n := by
      rw [List.length_append, h.length, Nat.cast_add]
    refine ⟨?_, ?_, ?_, ?_, ?_⟩
    · intro s fails
      have stops := tests.stops cond fails
      rwa [middle] at stops
    · intro s done
      obtain ⟨s', there, same⟩ := tests.goes cond done
      refine ⟨s', ?_, same⟩
      have stop : (pre.length : Int) + n + (front.length + 1 : Nat) + 1 =
          pre.length + (n + front.length + 2 : Nat) := by omega
      rwa [if_neg Bool.false_ne_true, middle, stop] at there
    · intro s holds
      obtain ⟨s', there, same⟩ := tests.goes cond holds
      rw [if_pos rfl, add_zero, middle] at there
      refine ⟨s', ?_, same⟩
      have jumped := reaches_jmp jumps back s'
      have length : ((pre ++ piece (n + front.length + 2 : Nat) n ++ front ++ [j 1]).length : Int) =
          pre.length + n + (front.length + 1 : Nat) := by
        simp only [List.length_append, List.length_cons, List.length_nil, h.length]
        omega
      have there' : (pre.length : Int) + n + (front.length + 1 : Nat) + 1 +
          -(n + front.length + 2 : Nat) = pre.length := by omega
      rw [length, there'] at jumped
      exact (reaches_trans there (by omega)).trans_left jumped
    · intro s o run
      exact h.meets_at inner rfl rfl rfl rfl run
    · intro s halts
      exact h.total_at inner rfl halts
  refine ⟨?_, ?_, ?_⟩
  · intro b k
    simp only [doWhileCode, List.length_append, List.length_cons, List.length_nil, h.length]
  · intro b k pre post s o run
    exact (rounds pre post).round_meets run
  · intro b k pre post s halts
    exact (rounds pre post).round_total halts

/-! ## Leaving -/

theorem Implements.breaks (jumps : ∀ d s, exec (jmp d) s = some (d, s)) {leave : Env → Env}
    (back : ∀ s, leave (abs s) = loop s) :
    Implements exec returns 1 (fun b _ => [jmp (b - 1)]) abs after loop
      fun env o => o = .broke (leave env) := by
  refine ⟨fun _ _ => rfl, ?_, fun _ _ _ _ s _ => ⟨_, rfl⟩⟩
  rintro b k pre post s o rfl
  refine ⟨s, ?_, (back s).symm⟩
  have jumped := reaches_jmp jumps (List.append_assoc pre [jmp (b - 1)] post) s
  rwa [show (pre.length : Int) + 1 + (b - 1) = pre.length + b by omega] at jumped

theorem Implements.continues (jumps : ∀ d s, exec (jmp d) s = some (d, s)) {leave : Env → Env}
    (back : ∀ s, leave (abs s) = loop s) :
    Implements exec returns 1 (fun _ k => [jmp (k - 1)]) abs after loop
      fun env o => o = .continued (leave env) := by
  refine ⟨fun _ _ => rfl, ?_, fun _ _ _ _ s _ => ⟨_, rfl⟩⟩
  rintro b k pre post s o rfl
  refine ⟨s, ?_, (back s).symm⟩
  have jumped := reaches_jmp jumps (List.append_assoc pre [jmp (k - 1)] post) s
  rwa [show (pre.length : Int) + 1 + (k - 1) = pre.length + k by omega] at jumped

/-- Code that computes a value and returns it. -/
theorem Implements.returnValue {i : Instr} {f : Env → Option Value} (closed : Closed exec front)
    (quiet : Quiet returns front)
    (fails : ∀ s, f (abs s) = none → flow exec front s = none)
    (result : ∀ s v, f (abs s) = some v → ∃ s', flow exec front s = some s' ∧ returns i s' = some v) :
    Implements exec returns (front.length + 1) (fun _ _ => front ++ [i]) abs after loop fun env o =>
      o = match f env with
        | some v => .returned v
        | none => .failed := by
  refine ⟨fun _ _ => by simp, ?_, fun _ _ _ _ s _ => ⟨_, rfl⟩⟩
  rintro b k pre post s o run
  have place : pre ++ (front ++ [i]) ++ post = pre ++ front ++ ([i] ++ post) := by simp
  cases known : f (abs s) with
  | none =>
    simp only [known] at run
    subst run
    obtain ⟨n, i', next, there, at_, mem, fails⟩ := reaches_stuck closed (fails s known)
    rw [place]
    exact ⟨n, i', next, there, at_, fails, quiet i' mem next⟩
  | some v =>
    simp only [known] at run
    subst run
    obtain ⟨s', flows, value⟩ := result s v known
    have there := @reaches_flow _ _ _ pre _ ([i] ++ post) _ _ flows
    rw [← place, ← Nat.cast_add, ← List.length_append] at there
    exact ⟨(pre ++ front).length, i, s', there, by simp, value⟩

/-! ## Jumps that are patched later

A compiler of one pass emits a `break` or a `continue` before it knows where the jump leads. -/

/-- An instruction, or the place of a `break` (`true`) or a `continue`. -/
inductive Slot (Instr : Type) where
  | instr (i : Instr)
  | hole (w : Bool)

section slots

variable (jmp : Int → Instr) (placeholder : Instr)

/-- What is emitted at first. -/
def Slot.raw : Slot Instr → Instr
  | .instr i => i
  | .hole _ => placeholder

/-- The piece, once the targets are known. -/
def fill : List (Slot Instr) → Template Instr
  | [], _, _ => []
  | .instr i :: rest, b, k => i :: fill rest (b - 1) (k - 1)
  | .hole w :: rest, b, k => jmp ((if w then b else k) - 1) :: fill rest (b - 1) (k - 1)

/-- The positions of the holes of one kind, the last first. -/
def holes (w : Bool) : Nat → List (Slot Instr) → List Nat
  | _, [] => []
  | p, .instr _ :: rest => holes w (p + 1) rest
  | p, .hole w' :: rest => holes w (p + 1) rest ++ if w' = w then [p] else []

/-- The holes of one kind become jumps to `t`, counted from the start. -/
def patch (w : Bool) (t : Int) : List (Slot Instr) → List (Slot Instr)
  | [] => []
  | .instr i :: rest => .instr i :: patch w (t - 1) rest
  | .hole w' :: rest => (if w' = w then .instr (jmp (t - 1)) else .hole w') :: patch w (t - 1) rest

end slots

variable {placeholder : Instr} {w : Bool} {slots slots' : List (Slot Instr)}

theorem fill_append (b k : Int) :
    fill jmp (slots ++ slots') b k = fill jmp slots b k ++ shift slots.length (fill jmp slots') b k := by
  induction slots generalizing b k with
  | nil => simp [fill, shift]
  | cons slot rest ih =>
    have shifted : shift rest.length (fill jmp slots') (b - 1) (k - 1) =
        shift (rest.length + 1) (fill jmp slots') b k := by
      rw [shift, shift, sub_sub, sub_sub, Nat.cast_add, Nat.cast_one, add_comm (1 : Int)]
    cases slot with
    | instr i => rw [List.cons_append, fill, fill, ih, shifted, List.cons_append, List.length_cons]
    | hole w => rw [List.cons_append, fill, fill, ih, shifted, List.cons_append, List.length_cons]

theorem fill_instr (code : List Instr) (b k : Int) : fill jmp (code.map .instr) b k = code := by
  induction code generalizing b k with
  | nil => rfl
  | cons i rest ih => rw [List.map_cons, fill, ih]

theorem raw_instr (code : List Instr) : (code.map .instr).map (Slot.raw placeholder) = code := by
  rw [List.map_map]
  exact List.map_id _

theorem holes_append (p : Nat) :
    holes w p (slots ++ slots') = holes w (p + slots.length) slots' ++ holes w p slots := by
  induction slots generalizing p with
  | nil => simp [holes]
  | cons slot rest ih =>
    have place : p + 1 + rest.length = p + (rest.length + 1) := by omega
    cases slot with
    | instr i => rw [List.cons_append, holes, holes, ih, place, List.length_cons]
    | hole w' =>
      rw [List.cons_append, holes, holes, ih, place, List.length_cons, List.append_assoc]

theorem holes_instr (p : Nat) (code : List Instr) : holes w p (code.map .instr) = [] := by
  induction code generalizing p with
  | nil => rfl
  | cons i rest ih => rw [List.map_cons, holes, ih]

theorem holes_after (p : Nat) (code : List Instr) (i : Instr) :
    holes w p (code.map .instr ++ .instr i :: slots) = holes w (p + code.length + 1) slots := by
  rw [holes_append, holes_instr, List.append_nil, List.length_map, holes]

theorem shift_fill (n : Nat) (i : Instr) (b k : Int) :
    shift n (fill jmp (.instr i :: slots)) b k = i :: shift (n + 1) (fill jmp slots) b k := by
  rw [shift, shift, fill, sub_sub, sub_sub, Nat.cast_add, Nat.cast_one]

theorem shift_fill_append (n : Nat) (b k : Int) :
    shift n (fill jmp (slots ++ slots')) b k =
      shift n (fill jmp slots) b k ++ shift (n + slots.length) (fill jmp slots') b k := by
  rw [shift, fill_append, shift, shift, shift, sub_sub, sub_sub, Nat.cast_add]

theorem fill_after (code : List Instr) (i : Instr) (b k : Int) :
    fill jmp (code.map .instr ++ .instr i :: slots) b k =
      code ++ i :: shift (code.length + 1) (fill jmp slots) b k := by
  rw [fill_append, fill_instr, List.length_map, shift_fill]

theorem patch_length (t : Int) : (patch jmp w t slots).length = slots.length := by
  induction slots generalizing t with
  | nil => rfl
  | cons slot rest ih => cases slot <;> rw [patch, List.length_cons, List.length_cons, ih]

/-- Patching one kind leaves the holes of the other where they are. -/
theorem holes_patch {w' : Bool} (other : w' ≠ w) (t : Int) (p : Nat) :
    holes w' p (patch jmp w t slots) = holes w' p slots := by
  induction slots generalizing t p with
  | nil => rfl
  | cons slot rest ih =>
    cases slot with
    | instr i => rw [patch, holes, holes, ih]
    | hole v =>
      rw [patch, holes]
      by_cases same : v = w
      · rw [if_pos same, holes, ih, if_neg (fun eq => other (eq.symm.trans same)), List.append_nil]
      · rw [if_neg same, holes, ih]

/-- When both kinds are patched the code is the piece. -/
theorem raw_patch (b k : Int) :
    (patch jmp true b (patch jmp false k slots)).map (Slot.raw placeholder) = fill jmp slots b k := by
  induction slots generalizing b k with
  | nil => rfl
  | cons slot rest ih =>
    cases slot with
    | instr i => rw [patch, patch, List.map_cons, ih, fill, Slot.raw]
    | hole w => cases w <;> simp [patch, fill, Slot.raw, ih]

/-- Patching the positions one after the other, the last first. -/
theorem patch_positions {f : Nat → Instr → Instr} {t : Int}
    (jumps : ∀ p : Nat, f p placeholder = jmp (t - p - 1)) (pre post : List Instr) :
    (holes w pre.length slots).foldl (fun code p => code.modify p (f p))
        (pre ++ slots.map (Slot.raw placeholder) ++ post) =
      pre ++ (patch jmp w (t - pre.length) slots).map (Slot.raw placeholder) ++ post := by
  induction slots generalizing pre with
  | nil => rfl
  | cons slot rest ih =>
    have later : ∀ i : Instr, (holes w (pre.length + 1) rest).foldl
        (fun code p => code.modify p (f p)) (pre ++ i :: rest.map (Slot.raw placeholder) ++ post) =
          pre ++ i :: ((patch jmp w (t - pre.length - 1) rest).map (Slot.raw placeholder) ++ post) := by
      intro i
      have there := ih (pre ++ [i])
      rw [List.length_append, List.length_singleton, Nat.cast_add, Nat.cast_one, ← sub_sub] at there
      simpa only [List.append_assoc, List.cons_append, List.nil_append] using there
    cases slot with
    | instr i => rw [holes, patch, List.map_cons, List.map_cons, Slot.raw, later, List.append_assoc,
        List.cons_append]
    | hole v =>
      rw [holes, List.foldl_append, List.map_cons, Slot.raw, later]
      by_cases same : v = w
      · rw [if_pos same, patch, if_pos same, List.map_cons, Slot.raw, List.foldl_cons, List.foldl_nil,
          List.modify_eq_take_cons_drop (by simp)]
        simp [jumps]
      · rw [if_neg same, patch, if_neg same, List.map_cons, Slot.raw, List.foldl_nil, List.append_assoc,
          List.cons_append]

/-! ## Whole programs -/

/-- What comes of a whole program that returns `last` at its end: a value, or none when it fails. -/
inductive Command.Gives (runs : Command Env Value) (last : Value) (env : Env) : Option Value → Prop
  | normal {env' : Env} (run : runs env (.normal env')) : Gives runs last env (some last)
  | returned {v : Value} (run : runs env (.returned v)) : Gives runs last env (some v)
  | failed (run : runs env .failed) : Gives runs last env none

variable (exec returns) in
/-- The code stops, at an instruction that returns the value or fails. -/
def Ends (code : List Instr) (c : Int × State) (result : Option Value) : Prop :=
  Stops exec code c fun i s => exec i s = none ∧ returns i s = result

theorem Reaches.unique {a b : Int × State} (there : Reaches exec code c a) (there' : Reaches exec code c b)
    (stuck : step exec code a = none) (stuck' : step exec code b = none) : a = b := by
  have unique : Relator.RightUnique fun c c' => step exec code c = some c' := by
    intro c d d' eq eq'
    rw [eq] at eq'
    exact Option.some.inj eq'
  rcases Relation.ReflTransGen.total_of_right_unique unique there there' with path | path
  · rcases Relation.ReflTransGen.cases_head path with same | ⟨d, next, -⟩
    · exact same
    · rw [stuck] at next
      cases next
  · rcases Relation.ReflTransGen.cases_head path with same | ⟨d, next, -⟩
    · exact same.symm
    · rw [stuck'] at next
      cases next

theorem step_stuck {n : Nat} {i : Instr} (at_ : code[n]? = some i) (fails : exec i s = none) :
    step exec code (n, s) = none := by
  rw [step_at at_, fails, Option.map_none]

theorem Ends.unique {result result' : Option Value} (h : Ends exec returns code c result)
    (h' : Ends exec returns code c result') : result = result' := by
  obtain ⟨n, i, s, there, at_, fails, value⟩ := h
  obtain ⟨n', i', s', there', at_', fails', value'⟩ := h'
  have same := Reaches.unique there there' (step_stuck at_ fails) (step_stuck at_' fails')
  obtain ⟨place, rfl⟩ := Prod.mk.inj same
  obtain rfl : n = n' := by exact_mod_cast place
  obtain rfl : i = i' := Option.some.inj (at_.symm.trans at_')
  rw [← value, value']

theorem Ends.halts {result : Option Value} (h : Ends exec returns code c result) :
    Halts exec code c := by
  obtain ⟨n, i, s, there, at_, fails, -⟩ := h
  have stuck := step_stuck at_ fails
  induction there using Relation.ReflTransGen.head_induction_on with
  | refl => exact ⟨_, fun d next => by rw [stuck] at next; cases next⟩
  | head step _ ih =>
    refine ⟨_, fun d next => ?_⟩
    rw [step] at next
    cases next
    exact ih

/-- A program with no open jumps gives what its command does. -/
theorem Implements.ends {n : Nat} {whole : List Instr} {final : Instr} {last : Value}
    (h : Implements exec returns n (fun _ _ => whole) abs after loop runs)
    (stops : ∀ i s v, returns i s = some v → exec i s = none)
    (final_eq : ∀ s, returns final s = some last) (s : State) (result : Option Value) :
    Ends exec returns (whole ++ [final]) (0, s) result ↔ Gives runs last (abs s) result := by
  have length : whole.length = n := h.length 0 0
  have meets : ∀ b k o, runs (abs s) o → Meets exec returns (whole ++ [final]) (0, s)
      ⟨n, b, k, after, loop⟩ o := by
    intro b k o run
    have there := h.meets b k [] [final] s o run
    simpa only [List.nil_append, List.length_nil, Nat.cast_zero, zero_add] using there
  have forward : ∀ {result}, Gives runs last (abs s) result →
      Ends exec returns (whole ++ [final]) (0, s) result := by
    rintro _ (run | run | run)
    · obtain ⟨s', there, -⟩ := meets 0 0 _ run
      exact ⟨n, final, s', there, by simp [← length], stops _ _ _ (final_eq s'), final_eq s'⟩
    · obtain ⟨m, i, s', there, at_, value⟩ := meets 0 0 _ run
      exact ⟨m, i, s', there, at_, stops _ _ _ value, value⟩
    · exact meets 0 0 _ run
  refine ⟨fun ends => ?_, forward⟩
  have halts : Halts exec ([] ++ whole ++ [final]) (([] : List Instr).length, s) := ends.halts
  obtain ⟨o, run⟩ := h.total 0 0 [] [final] s halts
  -- a jump out of the program would lead to two places
  cases o with
  | normal env => rw [ends.unique (forward (.normal run))]; exact .normal run
  | returned v => rw [ends.unique (forward (.returned run))]; exact .returned run
  | failed => rw [ends.unique (forward (.failed run))]; exact .failed run
  | broke env =>
    obtain ⟨s₁, there, -⟩ := meets (-1) 0 _ run
    obtain ⟨s₂, there', -⟩ := meets (-2) 0 _ run
    have same := Reaches.unique there there' (by rw [step, if_pos (by simp)])
      (by rw [step, if_pos (by simp)])
    simp at same
  | continued env =>
    obtain ⟨s₁, there, -⟩ := meets 0 (-1) _ run
    obtain ⟨s₂, there', -⟩ := meets 0 (-2) _ run
    have same := Reaches.unique there there' (by rw [step, if_pos (by simp)])
      (by rw [step, if_pos (by simp)])
    simp at same

end RelativeCode
