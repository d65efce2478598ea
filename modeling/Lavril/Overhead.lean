import Lavril.Frames

/-!
# Room on the stack

`EnterFrame` leaves `MIN_STACK_OVERHEAD` slots above the top of a frame. The
stores of `StartCall` ahead of it, and the values that native functions and
delegate calls spread on the stack, look at no size.
-/

namespace Lavril

/-! ## The stores of `StartCall` -/

/-- What `StartCall` stores before `EnterFrame`, in order: extra arguments are
taken out and replaced by their array, or default values are filled in. -/
def LVClosure.parameterWrites (closure : LVClosure) (v : LVVM) (args : Nat) (stackbase : Int) :
    List (Int × LVObject) :=
  let func := closure.function
  let nparameters : Int := func.parameters.length
  if func.varparams then
    let pbase := stackbase + (nparameters - 1)
    let nvargs := args - (nparameters - 1)
    (List.range nvargs.toNat).map (fun n : Nat => (pbase + n, LVObject.null)) ++
      [(pbase, .ofAddress .OT_ARRAY v.next)]
  else
    let ndef := func.defaultparams.length
    let diff := nparameters - args
    (List.range diff.toNat).map fun n : Nat =>
      (stackbase + args + n, closure.defaultparams.getD (ndef - diff + n).toNat .null)

def LVClosure.writes (closure : LVClosure) (v : LVVM) (args : Nat) (stackbase : Int) :
    List (Int × LVObject) :=
  closure.parameterWrites v args stackbase ++ closure.env.toList.map fun env => (stackbase, env)

/-- The parameters that get their default values. -/
def LVClosure.missing (closure : LVClosure) (args : Nat) : Nat :=
  if closure.function.varparams then 0 else closure.function.parameters.length - args

namespace LVVM

variable {v v' : LVVM}

def store (v : LVVM) (writes : List (Int × LVObject)) : LVVM :=
  writes.foldl (fun v write => v.setSlot write.1 write.2) v

theorem store_range (base : Int) (f : Nat → LVObject) (n : Nat) :
    (v.store ((List.range n).map fun k : Nat => (base + k, f k))).stack =
      fun s => if base ≤ s ∧ s < base + n then f (s - base).toNat else v.stack s := by
  induction n with
  | zero =>
    funext s
    have outside : ¬ (base ≤ s ∧ s < base + (0 : Nat)) := by omega
    simp only [List.range_zero, List.map_nil, store, List.foldl_nil, if_neg outside]
  | succ n ih =>
    funext s
    have last : (v.store ((List.range (n + 1)).map fun k : Nat => (base + k, f k))) =
        (v.store ((List.range n).map fun k : Nat => (base + k, f k))).setSlot (base + n) (f n) := by
      simp [store, List.range_succ]
    rw [last]
    by_cases here : s = base + n
    · subst here
      have index : (base + n - base).toNat = n := by omega
      have inside : base ≤ base + n ∧ base + n < base + (n + 1 : Nat) := by omega
      rw [setSlot_stack_self, if_pos inside, index]
    · rw [setSlot_stack_of_ne here, ih]
      have same : (base ≤ s ∧ s < base + n) ↔ (base ≤ s ∧ s < base + (n + 1 : Nat)) := by omega
      simp only [same]

@[simp] theorem store_append (first second : List (Int × LVObject)) :
    v.store (first ++ second) = (v.store first).store second := by
  simp [store]

theorem store_stack_congr (same : v.stack = v'.stack) (writes : List (Int × LVObject)) :
    (v.store writes).stack = (v'.store writes).stack := by
  induction writes generalizing v v' with
  | nil => exact same
  | cons write writes ih =>
    apply ih
    simp only [setSlot, same]

/-- The model of `StartCall` makes these stores. -/
theorem bindParameters_stores {closure : LVClosure} {args : Nat} {stackbase : Int}
    (bound : v.bindParameters closure args stackbase = some v') :
    v'.stack = (v.store (closure.parameterWrites v args stackbase)).stack := by
  simp only [bindParameters] at bound
  simp only [LVClosure.parameterWrites]
  split at bound
  case isTrue varparams =>
    rw [if_pos varparams, store_append]
    split at bound
    case isTrue => cases bound
    case isFalse enough =>
      injection bound with bound
      subst bound
      have nonneg : (0 : Int) ≤ args - (closure.function.parameters.length - 1) := by omega
      have nulls := store_range (v := v) (stackbase + (closure.function.parameters.length - 1))
        (fun _ => .null) (args - ((closure.function.parameters.length : Int) - 1)).toNat
      rw [Int.toNat_of_nonneg nonneg] at nulls
      exact store_stack_congr (v := v.nullSlots _ _) nulls.symm
        [(stackbase + (closure.function.parameters.length - 1), .ofAddress .OT_ARRAY v.next)]
  case isFalse fixed =>
    rw [if_neg fixed, store_range]
    split at bound
    case isTrue differ =>
      split at bound
      case isTrue fits =>
        injection bound with bound
        subst bound
        have nonneg : (0 : Int) ≤ closure.function.parameters.length - args := by omega
        funext s
        rw [Int.toNat_of_nonneg nonneg]
        have bounds : (stackbase + args ≤ s ∧
            s < stackbase + args + ((closure.function.parameters.length : Int) - args)) ↔
            (stackbase + args ≤ s ∧ s < stackbase + closure.function.parameters.length) := by omega
        simp only [bounds]
        split
        case isTrue inside =>
          have index : ((s - (stackbase + args)).toNat : Int) = s - (stackbase + args) := by omega
          rw [index]
        case isFalse => rfl
      case isFalse => cases bound
    case isFalse same =>
      injection bound with bound
      subst bound
      have none : ((closure.function.parameters.length : Int) - args).toNat = 0 := by omega
      funext s
      rw [none, if_neg (by omega)]

theorem writes_spec {closure : LVClosure} {args : Nat} {stackbase : Int}
    (bound : v.bindParameters closure args stackbase = some v') :
    (v'.setEnv closure.env stackbase).stack = (v.store (closure.writes v args stackbase)).stack := by
  have stores := bindParameters_stores bound
  simp only [LVClosure.writes, store_append]
  cases closure.env with
  | none => exact stores
  | some env => exact store_stack_congr stores [(stackbase, env)]

/-- The number of arguments is what `StartCall` accepts. -/
theorem bindParameters_accepts {closure : LVClosure} {args : Nat} {stackbase : Int}
    (accepted : (v.bindParameters closure args stackbase).isSome) :
    if closure.function.varparams then (closure.function.parameters.length : Int) - 1 ≤ args
    else args ≤ closure.function.parameters.length := by
  simp only [bindParameters] at accepted
  split at accepted
  case isTrue varparams =>
    rw [if_pos varparams]
    split at accepted
    · cases accepted
    · omega
  case isFalse fixed =>
    rw [if_neg fixed]
    split at accepted
    · split at accepted
      · omega
      · cases accepted
    · omega

end LVVM

theorem LVClosure.parameterWrites_inside {closure : LVClosure} {v : LVVM} {args : Nat}
    {stackbase : Int} (overhead : v.top + MIN_STACK_OVERHEAD ≤ v.stacksize)
    (base : 0 ≤ stackbase) (window : stackbase + args ≤ v.top)
    (accepted : (v.bindParameters closure args stackbase).isSome) :
    (∀ write ∈ closure.parameterWrites v args stackbase, 0 ≤ write.1 ∧ write.1 < v.stacksize) ↔
      closure.missing args ≤ v.stacksize - (stackbase + args) := by
  have accepts := LVVM.bindParameters_accepts accepted
  have this := closure.this
  have room : stackbase + args < v.stacksize := by
    simp only [MIN_STACK_OVERHEAD] at overhead
    omega
  simp only [parameterWrites, missing]
  split at accepts
  case isTrue varparams =>
    simp only [varparams, if_true]
    refine ⟨fun _ => by omega, fun _ write mem => ?_⟩
    rcases List.mem_append.mp mem with null | array
    · obtain ⟨n, range, rfl⟩ := List.mem_map.mp null
      have lt := List.mem_range.mp range
      simp only
      omega
    · obtain rfl := List.mem_singleton.mp array
      simp only
      omega
  case isFalse fixed =>
    simp only [fixed, Bool.false_eq_true, if_false]
    constructor
    · intro inside
      by_contra more
      have range : closure.function.parameters.length - args - 1 ∈
          List.range (closure.function.parameters.length - args : Int).toNat := by
        rw [List.mem_range]
        omega
      have last := (inside _ (List.mem_map.mpr ⟨_, range, rfl⟩)).2
      simp only at last
      omega
    · intro enough write mem
      obtain ⟨n, range, rfl⟩ := List.mem_map.mp mem
      have lt := List.mem_range.mp range
      simp only
      omega

/-- The stores of `StartCall` are inside the stack when the default values fit
above the window of the arguments, and only then. -/
theorem startCall_writes_inside_iff (closure : LVClosure) (v : LVVM) (args : Nat) (stackbase : Int)
    (overhead : v.top + MIN_STACK_OVERHEAD ≤ v.stacksize)
    (base : 0 ≤ stackbase) (window : stackbase + args ≤ v.top)
    (accepted : (v.bindParameters closure args stackbase).isSome) :
    (∀ write ∈ closure.writes v args stackbase, 0 ≤ write.1 ∧ write.1 < v.stacksize) ↔
      closure.missing args ≤ v.stacksize - (stackbase + args) := by
  have params := LVClosure.parameterWrites_inside overhead base window accepted
  have env : 0 ≤ stackbase ∧ stackbase < v.stacksize := by
    simp only [MIN_STACK_OVERHEAD] at overhead
    omega
  constructor
  · intro inside
    apply params.mp
    intro write mem
    exact inside write (List.mem_append_left _ mem)
  · intro enough write mem
    rcases List.mem_append.mp mem with param | bound
    · exact params.mpr enough write param
    · obtain ⟨_, _, rfl⟩ := List.mem_map.mp bound
      exact env

/-- A function of `this` and that many parameters with default values. -/
def defaulted (n : Nat) : LVClosure where
  function := ((List.range n).foldl
    (fun fs k => (fs.addParameter s!"p{k}").addDefaultParam k)
    ((FunctionState.new false).addParameter "this")).buildProto
  this := by
    suffices kept : ∀ (ks : List Nat) (fs : FunctionState), 0 < fs.parameters.length →
        0 < (ks.foldl (fun fs k => (fs.addParameter s!"p{k}").addDefaultParam k) fs).parameters.length
      from kept _ _ (by decide)
    intro ks
    induction ks with
    | nil => exact fun _ pos => pos
    | cons k ks ih =>
      intro fs _
      apply ih
      simp [FunctionState.addDefaultParam, FunctionState.addParameter]
  env := none
  outervalues := []
  defaultparams := List.replicate n .null

/-- A frame with exactly the overhead above its top. -/
def fullFrame : LVVM where
  stack _ := .null
  stacksize := 1024
  stackbase := 1000
  top := 1009
  callsstack := []
  alloccallsstacksize := 4
  nmetamethodscall := 0
  nnativecalls := 0
  etraps := []
  openouters := []
  heap _ := none
  next := 0

theorem startCall_writes_fifteen_defaults :
    (fullFrame.bindParameters (defaulted 15) 1 1008).isSome ∧
    ∀ write ∈ (defaulted 15).writes fullFrame 1 1008, 0 ≤ write.1 ∧ write.1 < fullFrame.stacksize :=
  ⟨by decide, (startCall_writes_inside_iff (defaulted 15) fullFrame 1 1008 (by decide) (by decide) (by decide)
    (by decide)).mpr (by decide)⟩

/-- The last of sixteen default values goes to slot 1024 of 1024. -/
theorem sixteen_defaults_outside :
    fullFrame.top + MIN_STACK_OVERHEAD ≤ fullFrame.stacksize ∧
    (0 : Int) ≤ 1008 ∧ 1008 + ((1 : Nat) : Int) ≤ fullFrame.top ∧
    (fullFrame.bindParameters (defaulted 16) 1 1008).isSome ∧
    ¬ ∀ write ∈ (defaulted 16).writes fullFrame 1 1008,
      0 ≤ write.1 ∧ write.1 < fullFrame.stacksize := by
  decide

/-! ## Values spread on a stack -/

/-- A `Push`: the index it writes and the size of the stack at that moment. -/
structure Pushed where
  index : Int
  size : Int

/-- A stack, with the pushes that have been made on it. -/
structure Pushing where
  vm : LVVM
  pushes : List Pushed

namespace Pushing

def push (p : Pushing) (o : LVObject) : Pushing :=
  ⟨p.vm.push o, p.pushes ++ [⟨p.vm.top, p.vm.stacksize⟩]⟩

/-- Pushes one value after the other, each read when its turn comes. -/
def pushEach {α : Type} (p : Pushing) (read : LVVM → α → LVObject) (values : List α) : Pushing :=
  values.foldl (fun p a => p.push (read p.vm a)) p

end Pushing

/-- The operations that spread values on the stack of a VM: `acall` and `pacall`
of a closure with the elements of an array, `call` of a thread (of the caller
itself if there is no other), and `CALL` of an object with a `_call` metamethod. -/
inductive Spread where
  | closure_acall (raiseerror : Bool) (aparams : List LVObject)
  | thread_call (other : Option LVVM) (roottable : LVObject)
  | metamethod (i : LVInstruction) (clo : LVObject)

/-- What `lv_call` comes back with: the VM it has called on and whether that is
suspended, and the VM of the caller. -/
inductive CallOutcome where
  | failed
  | returned (vm : LVVM) (suspended : Bool) (caller : LVVM)

namespace Spread

/-- `lv_gettop`. -/
def gettop (v : LVVM) : Nat := (v.top - v.stackbase).toNat

def target (caller : LVVM) : Spread → LVVM
  | .thread_call other _ => other.getD caller
  | _ => caller

/-- The pushes ahead of the call. -/
def spread (caller : LVVM) : Spread → Pushing
  | .closure_acall _ aparams =>
    (Pushing.push ⟨caller, []⟩ (caller.register 0)).pushEach (fun _ o => o) aparams
  | .thread_call other roottable =>
    (Pushing.push ⟨other.getD caller, []⟩ roottable).pushEach
      (fun _ n => caller.register (n + 1 : Nat)) (List.range (gettop caller - 1))
  | .metamethod i clo =>
    (Pushing.push ⟨caller, []⟩ clo).pushEach (fun v (n : Nat) => v.register (i.arg2 + n))
      (List.range i.arg3)

/-- The number of values. -/
def values (caller : LVVM) : Spread → Nat
  | .closure_acall _ aparams => aparams.length + 1
  | .thread_call _ _ => gettop caller - 1 + 1
  | .metamethod i _ => i.arg3 + 1

/-- The arguments that `lv_call` takes off the stack again. -/
def nparams (caller : LVVM) : Spread → Nat
  | .closure_acall _ aparams => aparams.length
  | .thread_call _ _ => gettop caller
  | .metamethod i _ => i.arg3 + 1

/-- The pushes after the call: `lv_call` pushes the result, which a thread then
moves to its caller. -/
def results (caller : LVVM) (op : Spread) : CallOutcome → List Pushed
  | .failed => []
  | .returned vm suspended after =>
    let index := if suspended then vm.top else vm.top - op.nparams caller
    match op with
    | .closure_acall _ _ => [⟨index, vm.stacksize⟩]
    | .thread_call none _ => [⟨index, vm.stacksize⟩, ⟨index + 1, vm.stacksize⟩]
    | .thread_call (some _) _ => [⟨index, vm.stacksize⟩, ⟨after.top, after.stacksize⟩]
    | .metamethod _ _ => []

def pushes (caller : LVVM) (op : Spread) (outcome : CallOutcome) : List Pushed :=
  (op.spread caller).pushes ++ op.results caller outcome

/-- What `CallNative` has established when a native function runs: the overhead,
and a value for `this`. -/
def Entered (caller : LVVM) : Spread → Prop
  | .metamethod _ _ => True
  | _ => caller.top + MIN_STACK_OVERHEAD ≤ caller.stacksize ∧ caller.stackbase < caller.top

end Spread

/-- `Call` has come back: no stack has become smaller, and the top is where it
was, or at the end of the frame that is suspended. -/
structure CallOutcome.Returned (before caller vm : LVVM) (suspended : Bool) (after : LVVM) :
    Prop where
  size : before.stacksize ≤ vm.stacksize
  top : suspended = false → vm.top = before.top
  overhead : suspended = true → vm.top + MIN_STACK_OVERHEAD ≤ vm.stacksize
  callerSize : caller.stacksize ≤ after.stacksize
  callerTop : after.top = caller.top

/-- A slot of the result, that many slots above the arguments, is inside. -/
theorem CallOutcome.Returned.result_lt {before caller vm after : LVVM} {suspended : Bool}
    (returned : Returned before caller vm suspended after) (nparams : Nat) (k : Int)
    (small : k < MIN_STACK_OVERHEAD) (room : before.top - nparams + k < before.stacksize) :
    (if suspended then vm.top else vm.top - nparams) + k < vm.stacksize := by
  have size := returned.size
  cases suspended with
  | true =>
    have overhead := returned.overhead rfl
    simp only [if_true]
    omega
  | false =>
    have top := returned.top rfl
    simp only [Bool.false_eq_true, if_false]
    omega

def CallOutcome.Fits (before caller : LVVM) : CallOutcome → Prop
  | .failed => True
  | .returned vm suspended after => Returned before caller vm suspended after

namespace Pushing

variable {α : Type} {p : Pushing} {read : LVVM → α → LVObject}

theorem pushEach_pushes (values : List α) :
    (p.pushEach read values).pushes = p.pushes ++
      (List.range values.length).map fun n => ⟨p.vm.top + n, p.vm.stacksize⟩ := by
  induction values generalizing p with
  | nil => simp [pushEach]
  | cons a values ih =>
    have rest := ih (p := p.push (read p.vm a))
    have shift : ∀ n : Nat, p.vm.top + 1 + n = p.vm.top + (n + 1 : Nat) := by omega
    simp only [pushEach, List.foldl_cons] at rest ⊢
    rw [rest]
    simp [push, LVVM.push, LVVM.setSlot, List.range_succ_eq_map, Function.comp_def, shift]

theorem pushEach_vm (values : List α) :
    (p.pushEach read values).vm = values.foldl (fun v a => v.push (read v a)) p.vm := by
  induction values generalizing p with
  | nil => rfl
  | cons a values ih => exact ih

theorem pushEach_top (values : List α) :
    (p.pushEach read values).vm.top = p.vm.top + values.length ∧
    (p.pushEach read values).vm.stacksize = p.vm.stacksize := by
  induction values generalizing p with
  | nil => simp [pushEach]
  | cons a values ih =>
    obtain ⟨top, size⟩ := ih (p := p.push (read p.vm a))
    refine ⟨?_, size⟩
    have pushed : (p.push (read p.vm a)).vm.top = p.vm.top + 1 := rfl
    rw [pushed] at top
    simp only [pushEach, List.foldl_cons, List.length_cons] at top ⊢
    omega

end Pushing

namespace Spread

variable {caller : LVVM}

/-- The model of `CALL` makes these pushes. -/
theorem callDelegate_spread (i : LVInstruction) (clo : LVObject) :
    ((metamethod i clo).spread caller).vm =
      { (caller.callDelegate i clo).2 with nmetamethodscall := caller.nmetamethodscall } := by
  have kept : ∀ (ns : List Nat) (v : LVVM),
      (ns.foldl (fun v n => v.push (v.register (i.arg2 + n))) v).nmetamethodscall =
        v.nmetamethodscall := by
    intro ns
    induction ns with
    | nil => exact fun _ => rfl
    | cons n ns ih => exact fun v => ih (v.push (v.register (i.arg2 + n)))
  have count := kept (List.range i.arg3) (caller.push clo)
  simp only [spread, Pushing.pushEach_vm, LVVM.callDelegate]
  rw [show caller.nmetamethodscall = (caller.push clo).nmetamethodscall from rfl, ← count]
  rfl

/-- The values go to the slots from the top on. -/
theorem spread_pushes (op : Spread) :
    (op.spread caller).pushes = (List.range (op.values caller)).map fun n =>
      ⟨(op.target caller).top + n, (op.target caller).stacksize⟩ := by
  have first : ∀ (v : LVVM) (o : LVObject) (count : Nat),
      (Pushing.push ⟨v, []⟩ o).pushes ++ (List.range count).map (fun n : Nat =>
        (⟨(v.push o).top + n, (v.push o).stacksize⟩ : Pushed)) =
      (List.range (count + 1)).map fun n => ⟨v.top + n, v.stacksize⟩ := by
    intro v o count
    have shift : ∀ n : Nat, v.top + 1 + n = v.top + (n + 1 : Nat) := by omega
    simp [Pushing.push, LVVM.push, LVVM.setSlot, List.range_succ_eq_map, Function.comp_def, shift]
  cases op with
  | closure_acall raiseerror aparams =>
    simp only [spread, Pushing.pushEach_pushes, values, target]
    exact first caller (caller.register 0) aparams.length
  | thread_call other roottable =>
    simp only [spread, Pushing.pushEach_pushes, values, target, List.length_range]
    exact first (other.getD caller) roottable (gettop caller - 1)
  | metamethod i clo =>
    simp only [spread, Pushing.pushEach_pushes, values, target, List.length_range]
    exact first caller clo i.arg3

theorem spread_top (op : Spread) :
    (op.spread caller).vm.top = (op.target caller).top + op.values caller ∧
    (op.spread caller).vm.stacksize = (op.target caller).stacksize := by
  have first : ∀ (v : LVVM) (o : LVObject) (count : Nat),
      (Pushing.push ⟨v, []⟩ o).vm.top + count = v.top + (count + 1 : Nat) := by
    intro v o count
    simp only [Pushing.push, LVVM.push]
    omega
  cases op with
  | closure_acall raiseerror aparams =>
    obtain ⟨top, size⟩ := @Pushing.pushEach_top _
      (Pushing.push ⟨caller, []⟩ (caller.register 0)) (fun _ o => o) aparams
    exact ⟨top.trans (first _ _ _), size⟩
  | thread_call other roottable =>
    obtain ⟨top, size⟩ := @Pushing.pushEach_top _
      (Pushing.push ⟨other.getD caller, []⟩ roottable)
      (fun _ n => caller.register (n + 1 : Nat)) (List.range (gettop caller - 1))
    rw [List.length_range] at top
    exact ⟨top.trans (first _ _ _), size⟩
  | metamethod i clo =>
    obtain ⟨top, size⟩ := @Pushing.pushEach_top _ (Pushing.push ⟨caller, []⟩ clo)
      (fun v (n : Nat) => v.register (i.arg2 + n)) (List.range i.arg3)
    rw [List.length_range] at top
    exact ⟨top.trans (first _ _ _), size⟩

theorem spread_inside_iff (op : Spread) :
    (∀ p ∈ (op.spread caller).pushes, p.index < p.size) ↔
      (op.target caller).top + op.values caller ≤ (op.target caller).stacksize := by
  have some : 0 < op.values caller := by
    cases op <;> exact Nat.succ_pos _
  rw [spread_pushes]
  constructor
  · intro inside
    have last := inside _ (List.mem_map.mpr ⟨op.values caller - 1, List.mem_range.mpr (by omega), rfl⟩)
    simp only at last
    omega
  · intro room p mem
    obtain ⟨n, range, rfl⟩ := List.mem_map.mp mem
    have lt := List.mem_range.mp range
    simp only
    omega

/-- The result has a slot when the values have theirs. -/
theorem results_inside (op : Spread) {outcome : CallOutcome} (entered : op.Entered caller)
    (fits : outcome.Fits (op.spread caller).vm caller)
    (room : (op.target caller).top + op.values caller ≤ (op.target caller).stacksize) :
    ∀ p ∈ op.results caller outcome, p.index < p.size := by
  obtain ⟨top, size⟩ := @spread_top caller op
  cases outcome with
  | failed => exact fun _ mem => absurd mem List.not_mem_nil
  | returned vm suspended after =>
    cases op with
    | metamethod i clo => exact fun _ mem => absurd mem List.not_mem_nil
    | closure_acall raiseerror aparams =>
      obtain ⟨native, _⟩ := entered
      simp only [MIN_STACK_OVERHEAD] at native
      simp only [target, values] at top size
      have slot := fits.result_lt aparams.length 0 (by decide) (by omega)
      intro p mem
      obtain rfl := List.mem_singleton.mp mem
      simp only [nparams]
      omega
    | thread_call other roottable =>
      obtain ⟨native, this⟩ := entered
      simp only [MIN_STACK_OVERHEAD] at native
      have one : gettop caller - 1 + 1 = gettop caller := by
        simp only [gettop]
        omega
      simp only [values, one] at top room
      intro p mem
      cases other with
      | none =>
        simp only [target, Option.getD_none] at top size
        rcases List.mem_cons.mp mem with rfl | moved
        · have slot := fits.result_lt (gettop caller) 0 (by decide) (by omega)
          simp only [nparams]
          omega
        · obtain rfl := List.mem_singleton.mp moved
          exact fits.result_lt (gettop caller) 1 (by decide) (by omega)
      | some thread =>
        simp only [target, Option.getD_some] at top size room
        rcases List.mem_cons.mp mem with rfl | moved
        · have slot := fits.result_lt (gettop caller) 0 (by decide) (by omega)
          simp only [nparams]
          omega
        · obtain rfl := List.mem_singleton.mp moved
          have callerSize := fits.callerSize
          have callerTop := fits.callerTop
          simp only
          omega

/-- Every push is inside its stack when the values fit above the top, and only then. -/
theorem pushes_inside_iff (caller : LVVM) (op : Spread) (outcome : CallOutcome)
    (entered : op.Entered caller) (fits : outcome.Fits (op.spread caller).vm caller) :
    (∀ p ∈ op.pushes caller outcome, p.index < p.size) ↔
      (op.target caller).top + op.values caller ≤ (op.target caller).stacksize := by
  constructor
  · intro inside
    apply op.spread_inside_iff.mp
    intro p mem
    exact inside p (List.mem_append_left _ mem)
  · intro room p mem
    rcases List.mem_append.mp mem with spread | result
    · exact op.spread_inside_iff.mpr room p spread
    · exact op.results_inside entered fits room p result

theorem acall_of_fourteen_inside :
    (closure_acall true (List.replicate 14 .null)).Entered fullFrame ∧
    ∀ p ∈ (closure_acall true (List.replicate 14 .null)).pushes fullFrame .failed, p.index < p.size :=
  have entered : (closure_acall true (List.replicate 14 .null)).Entered fullFrame :=
    ⟨by decide, by decide⟩
  ⟨entered, (pushes_inside_iff fullFrame _ .failed entered trivial).mpr (by decide)⟩

/-- The last of fifteen elements goes to slot 1024 of 1024. -/
theorem acall_of_fifteen_outside :
    (closure_acall true (List.replicate 15 .null)).Entered fullFrame ∧
    CallOutcome.failed.Fits ((closure_acall true (List.replicate 15 .null)).spread fullFrame).vm
      fullFrame ∧
    ¬ ∀ p ∈ (closure_acall true (List.replicate 15 .null)).pushes fullFrame .failed,
      p.index < p.size := by
  refine ⟨⟨by decide, by decide⟩, trivial, ?_⟩
  decide

end Spread

end Lavril
