import Lavril.Entry

/-!
# How a script call binds its parameters

`StartCall` has the arguments where the registers of the callee start. What is
missing is filled up with default values, what is too much goes into an array,
and a bound environment takes the place of the first argument.
-/

namespace Lavril

open LVVM

/-- The number of parameters, `this` and `vargv` among them. -/
def LVClosure.nparameters (k : LVClosure) : Nat := k.function.parameters.length

def LVClosure.ndefaultparams (k : LVClosure) : Nat := k.function.defaultparams.length

/-- The numbers of arguments a function takes. -/
def LVClosure.Accepts (k : LVClosure) (args : Nat) : Prop :=
  if k.function.varparams then k.nparameters - 1 ≤ args
  else k.nparameters - k.ndefaultparams ≤ args ∧ args ≤ k.nparameters

/-- The default value of a parameter; the last ones have one each. -/
def LVClosure.ownDefault (k : LVClosure) (r : Nat) : LVObject :=
  k.defaultparams.getD (r + k.ndefaultparams - k.nparameters) .null

namespace LVVM

variable (v : LVVM)

/-- The error that `StartCall` raises. -/
def startCallError (k : LVClosure) (args : Nat) (stackbase : Int) (tailcall : Bool) :
    Option String :=
  match v.bindParameters k args stackbase with
  | none => some "wrong number of parameters"
  | some v =>
    match (v.setEnv k.env stackbase).enterFrame stackbase (stackbase + k.function.stacksize)
      tailcall with
    | none => some "stack overflow, cannot resize stack while in a metamethod"
    | some _ => none

/-- What the callee finds in its register `r`, for the arguments from `stackbase` on. -/
def parameter (k : LVClosure) (args : Nat) (stackbase : Int) (r : Nat) : LVObject :=
  if k.function.varparams ∧ r + 1 = k.nparameters then .ofAddress .OT_ARRAY v.next
  else if r < args then v.stack (stackbase + r)
  else k.ownDefault r

/-- The registers with which the callee starts. -/
structure ParametersBound (k : LVClosure) (args : Nat) (stackbase : Int) (v v' : LVVM) : Prop where
  base : v'.stackbase = stackbase
  top : v'.top = stackbase + k.function.stacksize
  parameters : ∀ r : Nat, r < k.nparameters → (r = 0 → k.env = none) →
    v'.stack (stackbase + r) = v.parameter k args stackbase r
  env : ∀ o, k.env = some o → v'.stack stackbase = o
  vargv : k.function.varparams → v'.heap v.next = some (.array
    ((List.range (args - (k.nparameters - 1))).map fun n =>
      v.stack (stackbase + (k.nparameters - 1 : Nat) + n)))

variable {v} {k : LVClosure} {args : Nat} {stackbase : Int} {v' : LVVM}

theorem bindParameters_eq_none : v.bindParameters k args stackbase = none ↔ ¬ k.Accepts args := by
  have this := k.this
  unfold bindParameters LVClosure.Accepts LVClosure.nparameters LVClosure.ndefaultparams
  by_cases varparams : k.function.varparams
  · simp only [varparams, if_true]
    split
    · simp only [true_iff]
      omega
    · simp only [reduceCtorEq, false_iff]
      omega
  · simp only [varparams, Bool.false_eq_true, if_false]
    split
    · split
      · simp only [reduceCtorEq, false_iff]
        omega
      · simp only [true_iff]
        omega
    · simp only [reduceCtorEq, false_iff]
      omega

/-- The registers before the environment is put there. -/
theorem bindParameters_registers (run : v.bindParameters k args stackbase = some v') :
    (∀ r : Nat, r < k.nparameters → v'.stack (stackbase + r) = v.parameter k args stackbase r) ∧
    (k.function.varparams → v'.heap v.next = some (.array
      ((List.range (args - (k.nparameters - 1))).map fun n =>
        v.stack (stackbase + (k.nparameters - 1 : Nat) + n)))) := by
  have this := k.this
  unfold bindParameters at run
  unfold parameter LVClosure.ownDefault LVClosure.nparameters LVClosure.ndefaultparams
  by_cases varparams : k.function.varparams
  · simp only [varparams, if_true] at run
    split at run
    · cases run
    rename_i enough
    cases run
    refine ⟨fun r lt => ?_, fun _ => ?_⟩
    · by_cases last : r + 1 = k.function.parameters.length
      · have slot : stackbase + (r : Int) = stackbase + ((k.function.parameters.length : Int) - 1) := by
          omega
        rw [if_pos ⟨varparams, last⟩, slot, setSlot_stack_self]
        rfl
      · rw [if_neg fun h => last h.2, if_pos (by omega), setSlot_stack_of_ne (by omega)]
        exact nullSlots_stack_of_lt (by omega)
    · change Function.update v.heap v.next _ v.next = _
      rw [Function.update_self]
      congr 2
      have count : ((args : Int) - ((k.function.parameters.length : Int) - 1)).toNat =
          args - (k.function.parameters.length - 1) := by omega
      have first : (k.function.parameters.length : Int) - 1 =
          (k.function.parameters.length - 1 : Nat) := by omega
      rw [count, first]
  · simp only [varparams, Bool.false_eq_true, if_false] at run
    refine ⟨fun r lt => ?_, fun h => absurd h varparams⟩
    rw [if_neg fun h => varparams h.1]
    split at run
    · split at run
      · cases run
        by_cases given : r < args
        · rw [if_pos given]
          exact if_neg (by omega)
        · have index : ((k.function.defaultparams.length : Int) -
              ((k.function.parameters.length : Int) - args) +
              (stackbase + r - (stackbase + args))).toNat =
              r + k.function.defaultparams.length - k.function.parameters.length := by omega
          rw [if_neg given]
          refine (if_pos ⟨by omega, by omega⟩).trans ?_
          rw [index]
      · cases run
    · cases run
      rw [if_pos (by omega)]

theorem enterFrame_stack {newbase newtop : Int} {tailcall : Bool}
    (run : v.enterFrame newbase newtop tailcall = some v') :
    v'.stackbase = newbase ∧ v'.top = newtop ∧ v'.heap = v.heap ∧
      ∀ s, s < v.stacksize → v'.stack s = v.stack s := by
  cases tailcall with
  | false =>
    simp only [enterFrame, Bool.false_eq_true, if_false, Option.bind_some, pushFrame] at run
    split at run
    · split at run <;> cases run
      exact ⟨rfl, rfl, rfl, fun s lt => nullSlots_stack_of_lt lt⟩
    · cases run
      exact ⟨rfl, rfl, rfl, fun _ _ => rfl⟩
  | true =>
    simp only [enterFrame, if_true] at run
    split at run
    · cases run
    · simp only [Option.bind_some] at run
      split at run
      · split at run <;> cases run
        exact ⟨rfl, rfl, rfl, fun s lt => nullSlots_stack_of_lt lt⟩
      · cases run
        exact ⟨rfl, rfl, rfl, fun _ _ => rfl⟩

theorem setEnv_stack (o : Option LVObject) (slot s : Int) (keep : s = slot → o = none) :
    (v.setEnv o slot).stack s = v.stack s := by
  cases o with
  | none => rfl
  | some o => exact setSlot_stack_of_ne fun eq => by cases keep eq

theorem startFrame_parameters {clo : LVObject} {target : Int} {tailcall : Bool}
    (fits : stackbase + k.nparameters ≤ v.stacksize)
    (run : v.startFrame clo k target args stackbase tailcall = some v') :
    ParametersBound k args stackbase v v' := by
  have this := k.this
  simp only [startFrame, Option.bind_eq_bind, Option.bind_eq_some_iff, Option.pure_def,
    Option.some.injEq] at run
  obtain ⟨bound, bind, entered, enter, rfl⟩ := run
  obtain ⟨registers, array⟩ := bindParameters_registers bind
  obtain ⟨base, top, heap, stack⟩ := enterFrame_stack enter
  obtain ⟨same, -⟩ := bindParameters_spec bind
  have size : (bound.setEnv k.env stackbase).stacksize = v.stacksize :=
    (bound.setEnv_stacksize k.env stackbase).1.trans same.stacksize
  unfold LVClosure.nparameters at fits registers
  have kept (r : Nat) (lt : r < k.function.parameters.length) :
      entered.stack (stackbase + r) = (bound.setEnv k.env stackbase).stack (stackbase + r) :=
    stack _ (by rw [size]; omega)
  refine ⟨base, top, fun r lt unbound => ?_, fun o eq => ?_, fun varparams => ?_⟩
  · exact (kept r lt).trans ((setEnv_stack k.env _ _ fun eq => unbound (by omega)).trans
      (registers r lt))
  · have first := kept 0 this
    rw [eq] at first
    simpa [setEnv] using first
  · change entered.heap v.next = _
    rw [heap, ← array varparams]
    cases k.env <;> rfl

/-- `EnterFrame` fails only where the stack must grow and cannot. -/
theorem enterFrame_eq_none {newbase newtop : Int} {tailcall : Bool}
    (running : tailcall → v.callsstack ≠ []) : v.enterFrame newbase newtop tailcall = none ↔
      newtop + MIN_STACK_OVERHEAD > v.stacksize ∧ v.nmetamethodscall ≠ 0 := by
  cases tailcall with
  | false =>
    simp only [enterFrame, Bool.false_eq_true, if_false, Option.bind_some, pushFrame]
    split <;> [split; skip] <;> simp_all
  | true =>
    cases frames : v.callsstack with
    | nil => exact absurd frames (running rfl)
    | cons ci rest =>
      simp only [enterFrame, if_true, frames, Option.bind_some]
      split <;> [split; skip] <;> simp_all

/-- The generator that is created for a frame. -/
def Kept (v : LVVM) (size : Nat) : Prop :=
  ∀ (g : LVGenerator) (v₁ : LVVM),
    (v.create .OT_GENERATOR (.generator g)).2.yield_ v.next g size = some v₁ →
    ∃ g₁, v₁.heap v.next = some (.generator g₁) ∧
      ∀ r : Nat, r < size → g₁.stack[r]? = some (v.stack (v.stackbase + r))

/-- It has the registers of the frame. -/
theorem kept {size : Nat} (top : v.top = v.stackbase + size) : v.Kept size := by
  intro g v₁ run
  unfold yield_ at run
  split at run
  · cases run
    refine ⟨_, Function.update_self .., fun r lt => ?_⟩
    have count : (v.top - v.stackbase).toNat = size := by omega
    simp only [create, count, List.getElem?_map, List.getElem?_range lt, Option.map_some,
      Option.some.injEq]
    by_cases first : r = 0
    · rw [if_pos first, first]
      simp
    · rw [if_neg first, if_pos lt]
  · cases run

theorem captureOuters_stack (k : LVClosure) (v : LVVM) (outers : List LVOuterVar) :
    (captureOuters k v outers).2.stack = v.stack ∧
      (captureOuters k v outers).2.stackbase = v.stackbase := by
  induction outers generalizing v with
  | nil => exact ⟨rfl, rfl⟩
  | cons outer rest ih =>
    simp only [captureOuters]
    cases outer.type with
    | otLOCAL =>
      have same (slot : Int) :
          (v.findOuter slot).2.stack = v.stack ∧ (v.findOuter slot).2.stackbase = v.stackbase := by
        simp only [findOuter]
        split <;> exact ⟨rfl, rfl⟩
      obtain ⟨stack, base⟩ := ih (v.findOuter (v.stackbase + outer.src)).2
      exact ⟨stack.trans (same _).1, base.trans (same _).2⟩
    | otOUTER => exact ih v

/-- A new closure has the values of its default parameters from the registers they were
computed in. -/
theorem closureOp_defaults {i : LVInstruction} {func : FunctionPrototype}
    (run : v.closureOp k i func = some v') : ∃ c, v'.heap v.next = some (.closure c) ∧
      c.function = func ∧ ∀ (r spos : Nat),
        func.defaultparams[r + func.defaultparams.length - func.parameters.length]? = some spos →
        c.ownDefault r = v.register spos := by
  unfold closureOp at run
  split at run
  · cases run
    rename_i this
    refine ⟨_, Function.update_self .., rfl, fun r spos own => ?_⟩
    unfold LVClosure.ownDefault LVClosure.nparameters LVClosure.ndefaultparams
    obtain ⟨stack, base⟩ := captureOuters_stack k (v.create .OT_CLOSURE (.closure
      ⟨func, this, none, [], []⟩)).2 func.outervalues
    have value : (captureOuters k (v.create .OT_CLOSURE (.closure
        ⟨func, this, none, [], []⟩)).2 func.outervalues).2.register spos = v.register spos := by
      unfold register
      rw [stack, base]
      rfl
    rw [← value]
    simp [own, create, ← List.map_eq_flatMap]
  · cases run

/-- `StartCall` takes the numbers of arguments it should, and the callee starts with its
parameters bound, unless the stack would have to grow in a metamethod. -/
theorem startCall_binds (v : LVVM) (clo : LVObject) (k : LVClosure) (target : Int) (args : Nat)
    (stackbase : Int) (tailcall : Bool) (running : tailcall → v.callsstack ≠ [])
    (fits : stackbase + k.nparameters ≤ v.stacksize) :
    (v.startCallError k args stackbase tailcall = some "wrong number of parameters" ↔
      ¬ k.Accepts args) ∧
    (k.Accepts args →
      (∃ v', v.startFrame clo k target args stackbase tailcall = some v' ∧
        ParametersBound k args stackbase v v' ∧ v'.Kept k.function.stacksize) ∨
      v.startCallError k args stackbase tailcall =
          some "stack overflow, cannot resize stack while in a metamethod" ∧
        v.nmetamethodscall ≠ 0) := by
  constructor
  · rw [← bindParameters_eq_none]
    unfold startCallError
    cases bind : v.bindParameters k args stackbase with
    | none => simp
    | some bound =>
      simp only [reduceCtorEq, iff_false]
      cases (bound.setEnv k.env stackbase).enterFrame stackbase
        (stackbase + k.function.stacksize) tailcall <;> simp
  · intro accepts
    obtain ⟨bound, bind⟩ : ∃ bound, v.bindParameters k args stackbase = some bound := by
      refine Option.ne_none_iff_exists'.mp fun none => ?_
      exact bindParameters_eq_none.mp none accepts
    obtain ⟨same, -⟩ := bindParameters_spec bind
    have frames : tailcall → (bound.setEnv k.env stackbase).callsstack ≠ [] := by
      intro tail
      rw [setEnv_callsstack, same.callsstack]
      exact running tail
    cases enter : (bound.setEnv k.env stackbase).enterFrame stackbase
        (stackbase + k.function.stacksize) tailcall with
    | none =>
      have stuck := ((enterFrame_eq_none frames).mp enter).2
      rw [(bound_stacksize bind).2] at stuck
      refine Or.inr ⟨?_, stuck⟩
      unfold startCallError
      simp only [bind, enter]
    | some entered =>
      have run : v.startFrame clo k target args stackbase tailcall = some { entered with
          callsstack := entered.callsstack.modifyHead fun ci =>
            { ci with closure := clo, literals := k.function.literals, ip := 0, target := target } } := by
        simp only [startFrame, bind, enter, Option.bind_eq_bind, Option.bind_some]
        rfl
      have bound := startFrame_parameters fits run
      exact Or.inl ⟨_, run, bound, kept (bound.top.trans (by rw [bound.base]))⟩

/-- `function (a, b = 7)`. -/
def pairFunction (env : Option LVObject) : LVClosure where
  function := ⟨5, false, false, [], [], [], ["this", "a", "b"], [], [], [4]⟩
  this := by decide
  env := env
  outervalues := []
  defaultparams := [.integer 7]

theorem startCall_binds_pair : ∃ v',
    (wideFrame false).startFrame .null (pairFunction none) 0 2 302 false = some v' ∧
      ParametersBound (pairFunction none) 2 302 (wideFrame false) v' := by
  have accepts : (pairFunction none).Accepts 2 := by
    unfold LVClosure.Accepts
    decide
  have binds := startCall_binds (wideFrame false) .null (pairFunction none) 0 2 302 false
    (fun tail => by cases tail) (by decide)
  rcases binds.2 accepts with ⟨v', run, bound, -⟩ | ⟨-, metamethod⟩
  · exact ⟨v', run, bound⟩
  · exact absurd rfl metamethod

/-- A bound function does not get its first argument. -/
theorem startFrame_bound : ∃ v',
    (wideFrame false).startFrame .null (pairFunction (some (.integer 5))) 0 3 302 false = some v' ∧
      (wideFrame false).stack 302 = .null ∧ v'.stack 302 = .integer 5 :=
  ⟨_, rfl, rfl, rfl⟩

end LVVM

end Lavril
