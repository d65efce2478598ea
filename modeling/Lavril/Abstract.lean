import Lavril.Layout

/-!
# Abstract classes

The CALL instruction refuses to make an instance of an abstract class. `LVVM::Call`,
which native code and metamethods are called back through, and `lv_createinstance`, which
is also the class's `instance` method, do not ask. `CLASS_OP` sets the flag only when
the metamethod `_inherited` of the base has been called for the new class.
-/

namespace Lavril
namespace Classes

/-- The machine: its objects, and the instructions CLASS that wait for a call of
`_inherited` to come back, each with the new class and whether it is to be abstract. -/
structure ClassVM where
  heap : ClassHeap
  pending : List (Nat × Bool)
  lasterror : Option String

namespace ClassVM

variable (env : ClassEnv) (v : ClassVM)

def empty : ClassVM := ⟨.empty, [], none⟩

/-- `_abstract = true`. -/
def setAbstract (address : Nat) : Option ClassVM := do
  let c ← v.heap.classes address
  return { v with heap := v.heap.setClass address { c with abstract := true } }

/-- `CLASS_OP`, up to the call of `_inherited`. -/
def classOp (base : Option Nat) (abstract : Bool) : Option ClassVM := do
  let heap ← v.heap.createClass env base
  let target := v.heap.nclasses
  let c ← heap.classes target
  let v := { v with heap := heap }
  if (c.metamethods .MT_INHERITED).type ≠ .OT_NULL then
    return { v with pending := (target, abstract) :: v.pending }
  else if abstract then v.setAbstract target
  else return v

/-- `CLASS_OP` after the call of `_inherited`. -/
def inherited (succeeded : Bool) : Option ClassVM :=
  match v.pending with
  | [] => none
  | (target, abstract) :: pending =>
    let v := { v with pending := pending }
    if succeeded && abstract then v.setAbstract target else some v

/-- `CreateClassInstance`, without the constructor, which is called next. -/
def createClassInstance (address : Nat) : Option ClassVM :=
  (v.heap.createInstance address).map fun heap => { v with heap := heap }

/-- The instruction CALL, of a class. -/
def callOp (address : Nat) : Option ClassVM := do
  let c ← v.heap.classes address
  if c.abstract then
    return { v with lasterror := some "attempt to call abstract object explicit" }
  else v.createClassInstance address

/-- `LVVM::Call`, of a class. -/
def call (address : Nat) : Option ClassVM := v.createClassInstance address

def lv_createinstance (address : Nat) : Option ClassVM := v.createClassInstance address

/-- An operation on the objects. -/
def operate (op : Operation) : Option ClassVM :=
  (op.apply env v.heap).map fun heap => { v with heap := heap }

end ClassVM

/-- A step of the program, or of native code. -/
inductive Action where
  | classOp (base : Option Nat) (abstract : Bool)
  | inherited (succeeded : Bool)
  | callOp (address : Nat)
  | call (address : Nat)
  | lv_createinstance (address : Nat)
  | lv_newclass (base : Option Nat)
  | newSlot (address : Nat) (key val : LVObject) (bstatic : Bool)
  | set (inst : Nat) (key val : LVObject)
  | clone (inst : Nat)

def Action.apply (env : ClassEnv) (v : ClassVM) : Action → Option ClassVM
  | .classOp base abstract => v.classOp env base abstract
  | .inherited succeeded => v.inherited succeeded
  | .callOp address => v.callOp address
  | .call address => v.call address
  | .lv_createinstance address => v.lv_createinstance address
  | .lv_newclass base => v.operate env (.create base)
  | .newSlot address key val bstatic => v.operate env (.newSlot address key val bstatic)
  | .set inst key val => v.operate env (.set inst key val)
  | .clone inst => v.operate env (.clone inst)

/-- The class is abstract already. -/
def ClassVM.IsAbstract (v : ClassVM) (address : Nat) : Prop :=
  ∃ c, v.heap.classes address = some c ∧ c.abstract = true

/-- The step does not make an instance of an abstract class where nothing asks for the flag:
in `LVVM::Call`, in `lv_createinstance`, and anywhere before the flag is set. -/
def Action.Guarded (v : ClassVM) : Action → Prop
  | .callOp address => (address, true) ∉ v.pending
  | .call address | .lv_createinstance address => ¬ v.IsAbstract address ∧ (address, true) ∉ v.pending
  | _ => True

/-- The states of the runs whose steps are all guarded. -/
inductive GuardedRun (env : ClassEnv) : ClassVM → Prop
  | empty : GuardedRun env .empty
  | step {v v' : ClassVM} (action : Action) (before : GuardedRun env v) (guarded : action.Guarded v)
      (run : action.apply env v = some v') : GuardedRun env v'

/-! ## What an operation leaves of the flags -/

namespace LVClass

variable {env : ClassEnv} {c c' : LVClass} {key val temp : LVObject} {b : Bool}

theorem newMethod_abstract (run : c.newMethod env key val temp = some (b, c')) :
    c'.abstract = c.abstract := by
  unfold newMethod at run
  split at run
  · cases run
    rfl
  · split at run
    · obtain ⟨members, -, eq⟩ := Option.bind_eq_some_iff.mp run
      cases eq
      rfl
    · obtain ⟨methods, -, eq⟩ := Option.bind_eq_some_iff.mp run
      cases eq
      rfl

theorem newSlot_abstract {bstatic : Bool} (run : c.newSlot env key val bstatic = some (b, c')) :
    c'.abstract = c.abstract := by
  unfold newSlot at run
  dsimp only at run
  split at run
  · cases run
    rfl
  · obtain ⟨found, -, run⟩ := Option.bind_eq_some_iff.mp run
    split at run
    · obtain ⟨defaultvalues, -, eq⟩ := Option.bind_eq_some_iff.mp run
      cases eq
      rfl
    · split at run
      · exact newMethod_abstract run
      · obtain ⟨members, -, eq⟩ := Option.bind_eq_some_iff.mp run
        cases eq
        rfl

end LVClass

/-- The classes are those that were there, as abstract as they were, and instances are only
made of the class `made`. -/
structure Leaves (made : Nat → Prop) (h h' : ClassHeap) : Prop where
  flags : ∀ a, (h'.classes a).map (·.abstract) = (h.classes a).map (·.abstract)
  nclasses : h'.nclasses = h.nclasses
  instances : ∀ i inst, h'.instances i = some inst →
    (∃ j old, h.instances j = some old ∧ old.theclass = inst.theclass) ∨ made inst.theclass

namespace Leaves

variable {env : ClassEnv} {made : Nat → Prop} {h h₁ h' : ClassHeap}

theorem refl (h : ClassHeap) : Leaves made h h :=
  ⟨fun _ => rfl, rfl, fun i inst there => Or.inl ⟨i, inst, there, rfl⟩⟩

theorem trans (first : Leaves made h h₁) (second : Leaves made h₁ h') : Leaves made h h' where
  flags a := (second.flags a).trans (first.flags a)
  nclasses := second.nclasses.trans first.nclasses
  instances i inst there := by
    rcases second.instances i inst there with ⟨j, old, before, same⟩ | new
    · rw [← same]
      exact first.instances j old before
    · exact Or.inr new

theorem setClass {a : Nat} {c c' : LVClass} (there : h.classes a = some c)
    (flag : c'.abstract = c.abstract) : Leaves made h (h.setClass a c') where
  flags b := by
    by_cases eq : b = a
    · subst eq
      simp [ClassHeap.setClass, there, flag]
    · simp [ClassHeap.setClass, eq]
  nclasses := rfl
  instances i inst there := Or.inl ⟨i, inst, there, rfl⟩

theorem lock {fuel a : Nat} (run : ClassHeap.lock fuel a h = some h') : Leaves made h h' := by
  induction fuel generalizing a h with
  | zero => cases run
  | succ fuel ih =>
    obtain ⟨c, there, run⟩ := Option.bind_eq_some_iff.mp run
    have first : Leaves made h (h.setClass a { c with locked := true }) := setClass there rfl
    split at run
    · cases run
      exact first
    · exact first.trans (ih run)

theorem lockOnce {a : Nat} (run : h.lockOnce a = some h') : Leaves made h h' := by
  obtain ⟨c, there, run⟩ := Option.bind_eq_some_iff.mp run
  split at run
  · exact lock run
  · cases run
    exact refl h

theorem push {inst : LVInstance} (new : made inst.theclass ∨
      ∃ j old, h.instances j = some old ∧ old.theclass = inst.theclass) :
    Leaves made h (h.push inst) where
  flags _ := rfl
  nclasses := rfl
  instances i other there := by
    rcases update_eq_some.mp there with ⟨-, rfl⟩ | ⟨-, there⟩
    · exact new.symm
    · exact Or.inl ⟨i, other, there, rfl⟩

theorem createInstance {a : Nat} (run : h.createInstance a = some h') : Leaves (· = a) h h' := by
  obtain ⟨h₁, locked, run⟩ := Option.bind_eq_some_iff.mp run
  obtain ⟨c, there, eq⟩ := Option.bind_eq_some_iff.mp run
  cases eq
  exact (lockOnce locked).trans (push (Or.inl rfl))

/-- The operations that neither make a class nor an instance of a class. -/
theorem operation {op : Operation} (run : op.apply env h = some h')
    (plain : ∀ base, op ≠ .create base) (noInstance : ∀ a, op ≠ .createInstance a) :
    Leaves made h h' := by
  cases op with
  | create base => exact absurd rfl (plain base)
  | newSlot address key val bstatic =>
    obtain ⟨r, ran, rfl⟩ := Option.map_eq_some_iff.mp run
    obtain ⟨c, there, within⟩ := Option.bind_eq_some_iff.mp ran
    obtain ⟨⟨b, c'⟩, stored, eq⟩ := Option.bind_eq_some_iff.mp within
    cases eq
    exact setClass there (LVClass.newSlot_abstract stored)
  | createInstance address => exact absurd rfl (noInstance address)
  | set i key val =>
    obtain ⟨r, ran, rfl⟩ := Option.map_eq_some_iff.mp run
    obtain ⟨inst, there, within⟩ := Option.bind_eq_some_iff.mp ran
    obtain ⟨c, is, within⟩ := Option.bind_eq_some_iff.mp within
    obtain ⟨found, -, within⟩ := Option.bind_eq_some_iff.mp within
    split at within
    · split at within
      · split at within
        · cases within
          refine ⟨fun _ => rfl, rfl, fun j other here => Or.inl ?_⟩
          rcases update_eq_some.mp here with ⟨rfl, rfl⟩ | ⟨-, here⟩
          · exact ⟨j, inst, there, rfl⟩
          · exact ⟨j, other, here, rfl⟩
        · cases within
      · cases within
        exact refl h
    · cases within
      exact refl h
  | clone i =>
    obtain ⟨inst, there, within⟩ := Option.bind_eq_some_iff.mp run
    obtain ⟨c, is, within⟩ := Option.bind_eq_some_iff.mp within
    split at within
    · cases within
      exact push (Or.inr ⟨i, inst, there, rfl⟩)
    · cases within

end Leaves

/-! ## Guarded runs -/

namespace ClassVM

/-- What no instance is one of: a class that is abstract, or is to be when `_inherited` comes
back; and none is of a class still to be made. -/
structure Concrete (v : ClassVM) : Prop where
  older : ∀ a c, v.heap.classes a = some c → a < v.heap.nclasses
  instances : ∀ i inst, v.heap.instances i = some inst → ¬ v.IsAbstract inst.theclass ∧
    (inst.theclass, true) ∉ v.pending ∧ inst.theclass < v.heap.nclasses

variable {env : ClassEnv} {v v' : ClassVM}

theorem concrete_empty : Concrete .empty where
  older _ _ there := by cases there
  instances _ _ there := by cases there

theorem isAbstract_iff {address : Nat} :
    v.IsAbstract address ↔ (v.heap.classes address).map (·.abstract) = some true := by
  rw [Option.map_eq_some_iff]
  rfl

theorem Concrete.leaves (concrete : v.Concrete) {made : Nat → Prop} {heap : ClassHeap}
    (leaves : Leaves made v.heap heap)
    (allowed : ∀ a, made a → ¬ v.IsAbstract a ∧ (a, true) ∉ v.pending ∧ a < v.heap.nclasses) :
    Concrete { v with heap := heap } where
  older a c there := by
    have flag := leaves.flags a
    rw [show heap.classes a = some c from there, Option.map_some] at flag
    obtain ⟨k, before, -⟩ := Option.map_eq_some_iff.mp flag.symm
    rw [leaves.nclasses]
    exact concrete.older a k before
  instances i inst there := by
    have plain : ¬ v.IsAbstract inst.theclass ∧ (inst.theclass, true) ∉ v.pending ∧
        inst.theclass < v.heap.nclasses := by
      rcases leaves.instances i inst there with ⟨j, old, before, same⟩ | new
      · rw [← same]
        exact concrete.instances j old before
      · exact allowed _ new
    refine ⟨?_, plain.2.1, ?_⟩
    · rw [isAbstract_iff, leaves.flags, ← isAbstract_iff]
      exact plain.1
    · rw [leaves.nclasses]
      exact plain.2.2

theorem Concrete.setAbstract (concrete : v.Concrete) {address : Nat}
    (run : v.setAbstract address = some v')
    (none : ∀ i inst, v.heap.instances i = some inst → inst.theclass ≠ address) : v'.Concrete := by
  obtain ⟨c, there, eq⟩ := Option.bind_eq_some_iff.mp run
  cases eq
  constructor
  · intro a k here
    rcases update_eq_some.mp here with ⟨rfl, -⟩ | ⟨-, here⟩
    · exact concrete.older a c there
    · exact concrete.older a k here
  · intro i inst here
    obtain ⟨plain, settled, older⟩ := concrete.instances i inst here
    refine ⟨?_, settled, older⟩
    rintro ⟨k, is, flag⟩
    rcases update_eq_some.mp is with ⟨eq, -⟩ | ⟨-, is⟩
    · exact none i inst here eq
    · exact plain ⟨k, is, flag⟩

theorem Concrete.createClassInstance (concrete : v.Concrete) {address : Nat}
    (run : v.createClassInstance address = some v') (plain : ¬ v.IsAbstract address)
    (settled : (address, true) ∉ v.pending) : v'.Concrete := by
  obtain ⟨heap, made, rfl⟩ := Option.map_eq_some_iff.mp run
  have there : ∃ c, v.heap.classes address = some c := by
    obtain ⟨h₁, locked, -⟩ := Option.bind_eq_some_iff.mp made
    obtain ⟨c, there, -⟩ := Option.bind_eq_some_iff.mp locked
    exact ⟨c, there⟩
  obtain ⟨c, there⟩ := there
  refine concrete.leaves (Leaves.createInstance made) fun a eq => ?_
  subst eq
  exact ⟨plain, settled, concrete.older a c there⟩

/-- A new class, of which there is no instance yet. -/
theorem Concrete.createClass (concrete : v.Concrete) {base : Option Nat} {heap : ClassHeap}
    (run : v.heap.createClass env base = some heap) :
    Concrete { v with heap := heap } ∧
      ∀ i inst, heap.instances i = some inst → inst.theclass ≠ v.heap.nclasses := by
  obtain ⟨c, -, rfl⟩ := Option.map_eq_some_iff.mp run
  have distinct : ∀ i inst, v.heap.instances i = some inst → inst.theclass ≠ v.heap.nclasses :=
    fun i inst here => (concrete.instances i inst here).2.2.ne
  refine ⟨⟨fun a k here => ?_, fun i inst here => ?_⟩, distinct⟩
  · rcases update_eq_some.mp here with ⟨rfl, -⟩ | ⟨-, here⟩
    · exact Nat.lt_succ_self _
    · exact (concrete.older a k here).trans (Nat.lt_succ_self _)
  · obtain ⟨plain, settled, older⟩ := concrete.instances i inst here
    refine ⟨?_, settled, older.trans (Nat.lt_succ_self _)⟩
    rintro ⟨k, is, flag⟩
    rcases update_eq_some.mp is with ⟨eq, -⟩ | ⟨-, is⟩
    · exact distinct i inst here eq
    · exact plain ⟨k, is, flag⟩

theorem Concrete.classOp (concrete : v.Concrete) {base : Option Nat} {abstract : Bool}
    (run : v.classOp env base abstract = some v') : v'.Concrete := by
  obtain ⟨heap, created, run⟩ := Option.bind_eq_some_iff.mp run
  obtain ⟨concrete', distinct⟩ := concrete.createClass created
  obtain ⟨c, -, run⟩ := Option.bind_eq_some_iff.mp run
  dsimp only at run
  split at run
  · cases run
    refine ⟨concrete'.older, fun i inst here => ?_⟩
    obtain ⟨plain, settled, older⟩ := concrete'.instances i inst here
    refine ⟨plain, ?_, older⟩
    intro mem
    rcases List.mem_cons.mp mem with eq | mem
    · exact distinct i inst here (congrArg Prod.fst eq)
    · exact settled mem
  · split at run
    · exact concrete'.setAbstract run distinct
    · cases run
      exact concrete'

theorem Concrete.inherited (concrete : v.Concrete) {succeeded : Bool}
    (run : v.inherited succeeded = some v') : v'.Concrete := by
  unfold ClassVM.inherited at run
  split at run
  · cases run
  · rename_i target abstract pending waiting
    have popped : Concrete { v with pending := pending } := by
      refine ⟨concrete.older, fun i inst here => ?_⟩
      obtain ⟨plain, settled, older⟩ := concrete.instances i inst here
      rw [waiting] at settled
      exact ⟨plain, fun mem => settled (List.mem_cons_of_mem _ mem), older⟩
    dsimp only at run
    split at run
    · rename_i both
      refine popped.setAbstract run fun i inst here eq => ?_
      have settled := (concrete.instances i inst here).2.1
      obtain ⟨-, rfl⟩ := Bool.and_eq_true_iff.mp both
      rw [waiting, eq] at settled
      exact settled List.mem_cons_self
    · cases run
      exact popped

theorem Concrete.operate (concrete : v.Concrete) {op : Operation}
    (run : v.operate env op = some v') (noInstance : ∀ a, op ≠ .createInstance a) : v'.Concrete := by
  obtain ⟨heap, ran, rfl⟩ := Option.map_eq_some_iff.mp run
  by_cases creates : ∃ base, op = .create base
  · obtain ⟨base, rfl⟩ := creates
    exact (concrete.createClass ran).1
  · have leaves : Leaves (fun _ => False) v.heap heap :=
      Leaves.operation ran (fun base eq => creates ⟨base, eq⟩) noInstance
    exact concrete.leaves leaves fun a none => none.elim

end ClassVM

theorem Action.concrete {env : ClassEnv} {v v' : ClassVM} {action : Action} (concrete : v.Concrete)
    (guarded : action.Guarded v) (run : action.apply env v = some v') : v'.Concrete := by
  cases action with
  | classOp base abstract => exact concrete.classOp run
  | inherited succeeded => exact concrete.inherited run
  | callOp address =>
    obtain ⟨c, there, run⟩ := Option.bind_eq_some_iff.mp run
    split at run
    · -- the instruction refuses
      cases run
      exact ⟨concrete.older, concrete.instances⟩
    · rename_i flag
      refine concrete.createClassInstance run ?_ guarded
      rintro ⟨k, is, isAbstract⟩
      cases there.symm.trans is
      exact flag isAbstract
  | call address => exact concrete.createClassInstance run guarded.1 guarded.2
  | lv_createinstance address => exact concrete.createClassInstance run guarded.1 guarded.2
  | lv_newclass base => exact concrete.operate run fun a eq => by cases eq
  | newSlot address key val bstatic => exact concrete.operate run fun a eq => by cases eq
  | set inst key val => exact concrete.operate run fun a eq => by cases eq
  | clone inst => exact concrete.operate run fun a eq => by cases eq

end Classes
end Lavril
