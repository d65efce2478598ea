import Lavril.Vm
import Lavril.Collecting

/-!
# The objects that are collected

The kinds of `LVCollectable`, each with the references it holds, and what `Mark`,
`Finalize` and the destructor of each kind do with them. A pointer that the class
keeps as such is an address, `none` when it is null; other references are values.
-/

namespace Lavril

open Collector (Action)

/-- The types that `MarkObject` follows. -/
def LVObjectType.isCollectable : LVObjectType → Bool
  | .OT_TABLE | .OT_ARRAY | .OT_USERDATA | .OT_CLOSURE | .OT_NATIVECLOSURE | .OT_GENERATOR
  | .OT_THREAD | .OT_CLASS | .OT_INSTANCE | .OT_OUTER | .OT_FUNCPROTO => true
  | _ => false

/-- The collectable object that a value refers to. -/
def LVObject.pCollectable (o : LVObject) : Option Nat :=
  match o.unVal with
  | .raw address => if o.type.isCollectable then some address.toNat else none
  | .pString _ => none

def references (values : List LVObject) : List Nat := values.filterMap LVObject.pCollectable

structure LVClassMember where
  val : LVObject
  attrs : LVObject

namespace LVCollectable

structure Class where
  attributes : LVObject
  defaultvalues : List LVClassMember
  methods : List LVClassMember
  metamethods : List LVObject
  members : Option Nat
  base : Option Nat

/-- A VM; `openouters` has the open outers with the stack slots they point to, and
`callsstack` the closures of the frames. -/
structure Thread where
  openouters : List (Nat × Nat)
  roottable : LVObject
  lasterror : LVObject
  errorhandler : LVObject
  debughook_closure : LVObject
  temp_reg : LVObject
  callsstack : List LVObject
  stack : List LVObject

end LVCollectable

/-- An object that is collected. The nodes of a table are keys with their values;
an instance has as many values as its class has default values. -/
inductive LVCollectable where
  | OT_TABLE (delegate : Option Nat) (nodes : List (LVObject × LVObject))
  | OT_ARRAY (values : List LVObject)
  | OT_USERDATA (delegate : Option Nat)
  | OT_CLOSURE (function : Nat) (base : Option Nat) (outervalues defaultparams : List LVObject)
  | OT_NATIVECLOSURE (outervalues : List LVObject)
  | OT_GENERATOR (state : LVGeneratorState) (closure : LVObject) (stack : List LVObject)
      (ci : LVObject)
  | OT_FUNCPROTO (literals functions : List LVObject)
  | OT_CLASS (c : LVCollectable.Class)
  | OT_INSTANCE (theclass : Option Nat) (values : List LVObject)
  | OT_OUTER (isOpen : Bool) (value : LVObject)
  | OT_THREAD (v : LVCollectable.Thread)

namespace LVCollectable

def nodeValues (nodes : List (LVObject × LVObject)) : List LVObject :=
  nodes.flatMap fun n => [n.1, n.2]

/-- The references that `Mark` follows, in order. -/
def Mark : LVCollectable → List Nat
  | .OT_TABLE delegate nodes => delegate.toList ++ references (nodeValues nodes)
  | .OT_ARRAY values => references values
  | .OT_USERDATA delegate => delegate.toList
  | .OT_CLOSURE function base outervalues defaultparams =>
    base.toList ++ [function] ++ references (outervalues ++ defaultparams)
  | .OT_NATIVECLOSURE outervalues => references outervalues
  | .OT_GENERATOR _ closure stack _ => references (stack ++ [closure])
  | .OT_FUNCPROTO literals functions => references (literals ++ functions)
  | .OT_CLASS c =>
    c.members.toList ++ c.base.toList ++
      references (c.attributes :: c.defaultvalues.flatMap (fun m => [m.val, m.attrs]) ++
        c.methods.flatMap (fun m => [m.val, m.attrs]) ++ c.metamethods)
  | .OT_INSTANCE theclass values => theclass.toList ++ references values
  | .OT_OUTER isOpen value => if isOpen then [] else references [value]
  | .OT_THREAD v =>
    references ([v.lasterror, v.errorhandler, v.debughook_closure, v.roottable, v.temp_reg] ++
      v.stack ++ v.callsstack)

/-- A VM when it is created. -/
def Thread.new : Thread := ⟨[], .null, .null, .null, .null, .null, [], []⟩

/-- What an open outer points to, in the thread that has it among its open outers. -/
def Thread.captured (v : Thread) (idx : Nat) : LVObject := (v.stack[idx]?).getD .null

/-- `CloseOuters`, from the bottom of the stack: each open outer takes the value of its
slot and is released. -/
def Thread.CloseOuters (v : Thread) : List (Action LVObject) :=
  v.openouters.flatMap fun p => [.give p.1 (v.captured p.2), .drop p.1]

def releaseAll (references : List Nat) : List (Action LVObject) := references.map .drop

/-- The members of a class that `Null` and the destructor of `LVClassMember` release. -/
def memberValues (members : List LVClassMember) : List LVObject :=
  members.flatMap fun m => [m.attrs, m.val]

/-- The references that `Finalize` gives up, in order. -/
def Finalize : LVCollectable → List (Action LVObject)
  | .OT_TABLE delegate nodes => releaseAll (references (nodeValues nodes) ++ delegate.toList)
  | .OT_ARRAY values => releaseAll (references values)
  | .OT_USERDATA delegate => releaseAll delegate.toList
  | .OT_CLOSURE _ _ outervalues defaultparams =>
    releaseAll (references (outervalues ++ defaultparams))
  | .OT_NATIVECLOSURE outervalues => releaseAll (references outervalues)
  | .OT_GENERATOR _ closure stack _ => releaseAll (references (stack ++ [closure]))
  | .OT_FUNCPROTO literals _ => releaseAll (references literals)
  | .OT_CLASS c =>
    releaseAll (references (c.attributes :: memberValues c.defaultvalues ++
      memberValues c.methods ++ c.metamethods) ++ c.members.toList ++ c.base.toList)
  | .OT_INSTANCE theclass values => releaseAll (theclass.toList ++ references values)
  | .OT_OUTER _ value => releaseAll (references [value])
  | .OT_THREAD v =>
    v.CloseOuters ++ releaseAll (references ([v.roottable, v.lasterror, v.errorhandler,
      v.debughook_closure, v.temp_reg] ++ v.callsstack ++ v.stack))

def nulls {α : Type} (values : List α) : List LVObject := values.map fun _ => .null

/-- The object after `Finalize`. A closure keeps its function and its base, a function
its nested functions, a generator its saved call info. -/
def finalized : LVCollectable → LVCollectable
  | .OT_TABLE _ nodes => .OT_TABLE none (nodes.map fun _ => (.null, .null))
  | .OT_ARRAY _ => .OT_ARRAY []
  | .OT_USERDATA _ => .OT_USERDATA none
  | .OT_CLOSURE function base outervalues defaultparams =>
    .OT_CLOSURE function base (nulls outervalues) (nulls defaultparams)
  | .OT_NATIVECLOSURE outervalues => .OT_NATIVECLOSURE (nulls outervalues)
  | .OT_GENERATOR state _ _ ci => .OT_GENERATOR state .null [] ci
  | .OT_FUNCPROTO literals functions => .OT_FUNCPROTO (nulls literals) functions
  | .OT_CLASS c =>
    .OT_CLASS ⟨.null, c.defaultvalues.map fun _ => ⟨.null, .null⟩, [], nulls c.metamethods,
      none, none⟩
  | .OT_INSTANCE _ values => .OT_INSTANCE none (nulls values)
  | .OT_OUTER isOpen _ => .OT_OUTER isOpen .null
  | .OT_THREAD v => .OT_THREAD ⟨[], .null, .null, .null, .null, .null, [], nulls v.stack⟩

/-- What `Release` gives up before the destructor takes the object off the chain. -/
def beforeUnlink : LVCollectable → List (Action LVObject)
  | .OT_TABLE delegate _ => releaseAll delegate.toList
  | .OT_CLOSURE function base outervalues defaultparams =>
    releaseAll (references (outervalues ++ defaultparams) ++ [function] ++ base.toList)
  | .OT_NATIVECLOSURE outervalues => releaseAll (references outervalues)
  | .OT_FUNCPROTO literals functions => releaseAll (references (literals ++ functions))
  | .OT_THREAD v => Finalize (.OT_THREAD v)
  | _ => []

/-- What the destructor gives up after that. -/
def afterUnlink : LVCollectable → List (Action LVObject)
  | .OT_TABLE _ nodes => releaseAll (references (nodeValues nodes))
  | .OT_GENERATOR _ closure stack ci => releaseAll (references ([ci] ++ stack ++ [closure]))
  | .OT_ARRAY values => Finalize (.OT_ARRAY values)
  | .OT_USERDATA delegate => Finalize (.OT_USERDATA delegate)
  | .OT_CLASS c => Finalize (.OT_CLASS c)
  | .OT_INSTANCE theclass values => Finalize (.OT_INSTANCE theclass values)
  | .OT_OUTER isOpen value => Finalize (.OT_OUTER isOpen value)
  | _ => []

/-- `p->_value = *(p->_valptr)`, which closes the outer. -/
def receive : LVCollectable → LVObject → LVCollectable
  | .OT_OUTER _ _, value => .OT_OUTER false value
  | o, _ => o

def replaced : LVCollectable → LVObject → Option Nat
  | .OT_OUTER _ old, _ => old.pCollectable
  | _, value => value.pCollectable

def layout : Collector.Layout LVCollectable LVObject where
  marks := Mark
  finalize := Finalize
  finalized := finalized
  before := beforeUnlink
  after := afterUnlink
  receive := receive
  replaced := replaced
  address := LVObject.pCollectable

/-- All the references that an object holds. -/
def strong : LVCollectable → List Nat
  | .OT_GENERATOR _ closure stack ci => references (stack ++ [closure] ++ [ci])
  | .OT_OUTER _ value => references [value]
  | .OT_THREAD v => Mark (.OT_THREAD v) ++ v.openouters.map (·.1)
  | o => Mark o

/-! ## The references add up -/

theorem references_append (l₁ l₂ : List LVObject) :
    references (l₁ ++ l₂) = references l₁ ++ references l₂ := List.filterMap_append ..

theorem references_cons (o : LVObject) (l : List LVObject) :
    references (o :: l) = o.pCollectable.toList ++ references l := by
  rw [references, List.filterMap_cons]
  cases o.pCollectable <;> rfl

@[simp] theorem references_nil : references [] = [] := rfl

@[simp] theorem null_pCollectable : LVObject.null.pCollectable = none := rfl

@[simp] theorem references_nulls {α : Type} (l : List α) : references (nulls l) = [] := by
  rw [references, nulls, List.filterMap_eq_nil_iff]
  intro o mem
  obtain ⟨-, -, rfl⟩ := List.mem_map.mp mem
  rfl

@[simp] theorem drops_releaseAll (l : List Nat) :
    Collector.drops (releaseAll l : List (Action LVObject)) = l := by
  induction l with
  | nil => rfl
  | cons a l ih => exact congrArg (a :: ·) ih

theorem drops_append (l₁ l₂ : List (Action LVObject)) :
    Collector.drops (l₁ ++ l₂) = Collector.drops l₁ ++ Collector.drops l₂ := by
  induction l₁ with
  | nil => rfl
  | cons action l₁ ih =>
    cases action with
    | drop a => exact congrArg (a :: ·) ih
    | give a value => exact ih

theorem drops_CloseOuters (v : Thread) :
    Collector.drops v.CloseOuters = v.openouters.map (·.1) := by
  rw [Thread.CloseOuters]
  induction v.openouters with
  | nil => rfl
  | cons p l ih => exact congrArg (p.1 :: ·) ih

/-- `Mark` and `Finalize` go through the two fields of a member in different orders. -/
theorem count_memberValues (members : List LVClassMember) (x : Nat) :
    (references (memberValues members)).count x =
      (references (members.flatMap fun m => [m.val, m.attrs])).count x := by
  induction members with
  | nil => rfl
  | cons m members ih =>
    simp only [memberValues, List.flatMap_cons, references_append, references_cons,
      references_nil, List.count_append] at ih ⊢
    omega

theorem nodeValues_nulls (nodes : List (LVObject × LVObject)) :
    references (nodeValues (nodes.map fun _ => (.null, .null))) = [] := by
  induction nodes with
  | nil => rfl
  | cons n nodes ih => exact ih

theorem memberValues_nulls (members : List LVClassMember) :
    references ((members.map fun _ => (⟨.null, .null⟩ : LVClassMember)).flatMap
      fun m => [m.val, m.attrs]) = [] := by
  induction members with
  | nil => rfl
  | cons m members ih => exact ih

theorem mark_subset_strong (o : LVCollectable) : Mark o ⊆ strong o := by
  cases o with
  | OT_GENERATOR state closure stack ci =>
    rw [strong, references_append]
    exact List.subset_append_left _ _
  | OT_OUTER isOpen value =>
    cases isOpen <;> simp [Mark, strong]
  | OT_THREAD v => exact List.subset_append_left _ _
  | _ => exact List.Subset.refl _

/-- The references that finalising leaves. -/
def residual : LVCollectable → List Nat
  | .OT_CLOSURE function base _ _ => base.toList ++ [function]
  | .OT_GENERATOR _ _ _ ci => references [ci]
  | .OT_FUNCPROTO _ functions => references functions
  | _ => []

theorem strong_finalized (o : LVCollectable) : o.finalized.strong = o.residual := by
  cases o <;>
    simp only [finalized, strong, residual, Mark, references_append, references_cons,
      references_nil, references_nulls, nodeValues_nulls, memberValues_nulls, null_pCollectable,
      Option.toList_none, List.flatMap_nil, List.append_nil, List.nil_append, List.map_nil]

theorem finalize_count (o : LVCollectable) (x : Nat) :
    (Collector.drops o.Finalize).count x + o.finalized.strong.count x = o.strong.count x := by
  rw [strong_finalized]
  cases o with
  | OT_THREAD v =>
    simp only [Finalize, residual, strong, Mark, drops_append, drops_releaseAll, drops_CloseOuters,
      references_append, references_cons, List.count_append, List.count_nil]
    omega
  | _ =>
    simp only [Finalize, residual, strong, Mark, drops_releaseAll, references_append,
      references_cons, List.count_append, count_memberValues, List.count_nil] <;>
    omega

/-- Releasing an object gives up everything; where the destructor calls `Finalize`,
finalising leaves nothing. -/
theorem release_count (o : LVCollectable) (x : Nat) :
    (Collector.drops o.beforeUnlink).count x + (Collector.drops o.afterUnlink).count x =
      o.strong.count x := by
  have all := finalize_count o x
  rw [strong_finalized] at all
  cases o with
  | OT_TABLE delegate nodes =>
    simp only [beforeUnlink, afterUnlink, strong, Mark, drops_releaseAll, List.count_append]
  | OT_CLOSURE function base outervalues defaultparams =>
    simp only [beforeUnlink, afterUnlink, strong, Mark, drops_releaseAll, Collector.drops,
      List.count_append, List.count_nil]
    omega
  | OT_GENERATOR state closure stack ci =>
    simp only [beforeUnlink, afterUnlink, strong, drops_releaseAll, Collector.drops,
      references_append, List.count_append, List.count_nil]
    omega
  | OT_NATIVECLOSURE outervalues =>
    simp only [beforeUnlink, afterUnlink, strong, Mark, drops_releaseAll, Collector.drops,
      List.count_nil, Nat.add_zero]
  | OT_FUNCPROTO literals functions =>
    simp only [beforeUnlink, afterUnlink, strong, Mark, drops_releaseAll, Collector.drops,
      List.count_nil, Nat.add_zero]
  | OT_THREAD v => exact all
  | _ =>
    simp only [residual, List.count_nil, Nat.add_zero] at all
    simp only [beforeUnlink, afterUnlink, Collector.drops, List.count_nil, Nat.zero_add]
    exact all

theorem receive_count (o : LVCollectable) (value : LVObject) (x : Nat) :
    (strong (receive o value)).count x + (replaced o value).toList.count x =
      o.strong.count x + value.pCollectable.toList.count x := by
  cases o with
  | OT_OUTER isOpen old =>
    simp only [receive, replaced, strong, references_cons, references_nil, List.count_append]
    omega
  | _ => rfl

theorem covered_releaseAll (l : List Nat) : layout.Covered (releaseAll l) := by
  induction l with
  | nil => trivial
  | cons a l ih => exact ih

/-- An outer that is closed is released next, and its value stays on the stack. -/
theorem covered_CloseOuters (v : Thread) (rest : List Nat) (stack : references v.stack ⊆ rest) :
    layout.Covered (v.CloseOuters ++ releaseAll rest) := by
  have onStack (idx : Nat) (b : Nat) (held : b ∈ (v.captured idx).pCollectable) :
      b ∈ references v.stack := by
    rw [Thread.captured] at held
    cases slot : v.stack[idx]? with
    | none =>
      rw [slot] at held
      cases held
    | some o =>
      rw [slot] at held
      exact List.mem_filterMap.mpr ⟨o, List.mem_of_getElem? slot, held⟩
  have later (actions : List (Action LVObject)) (b : Nat) (held : b ∈ references v.stack) :
      b ∈ Collector.drops (actions ++ releaseAll rest) := by
    rw [drops_append, drops_releaseAll]
    exact List.mem_append_right _ (stack held)
  rw [Thread.CloseOuters]
  induction v.openouters with
  | nil => exact covered_releaseAll rest
  | cons p l ih =>
    exact ⟨List.mem_cons_self,
      fun b held => List.mem_cons_of_mem p.1 (later _ b (onStack p.2 b held)), ih⟩

theorem covered_finalize (o : LVCollectable) : layout.Covered o.Finalize := by
  cases o with
  | OT_THREAD v =>
    refine covered_CloseOuters v _ ?_
    rw [references_append]
    exact List.subset_append_right _ _
  | _ => exact covered_releaseAll _

theorem covered_release (o : LVCollectable) :
    layout.Covered o.beforeUnlink ∧ layout.Covered o.afterUnlink := by
  cases o with
  | OT_THREAD v => exact ⟨covered_finalize (.OT_THREAD v), trivial⟩
  | OT_TABLE => exact ⟨covered_releaseAll _, covered_releaseAll _⟩
  | OT_CLOSURE | OT_NATIVECLOSURE | OT_FUNCPROTO => exact ⟨covered_releaseAll _, trivial⟩
  | _ => exact ⟨trivial, covered_releaseAll _⟩

/-- The values that an object stores in others: those of its open outers. -/
def gives : LVCollectable → List (Nat × LVObject)
  | .OT_THREAD v => v.openouters.map fun p => (p.1, v.captured p.2)
  | _ => []

theorem give_mem_releaseAll {a : Nat} {value : LVObject} {l : List Nat} :
    Action.give a value ∉ releaseAll l := by
  intro mem
  obtain ⟨b, -, eq⟩ := List.mem_map.mp mem
  cases eq

theorem give_mem_finalize {a : Nat} {value : LVObject} {o : LVCollectable} :
    Action.give a value ∈ o.Finalize ↔ (a, value) ∈ o.gives := by
  cases o with
  | OT_THREAD v =>
    rw [Finalize, List.mem_append, or_iff_left give_mem_releaseAll, Thread.CloseOuters, gives]
    simp only [List.mem_flatMap, List.mem_map, List.mem_cons, List.not_mem_nil, or_false,
      Action.give.injEq, reduceCtorEq, Prod.mk.injEq]
    exact ⟨fun ⟨p, mem, eq, eq'⟩ => ⟨p, mem, eq.symm, eq'.symm⟩,
      fun ⟨p, mem, eq, eq'⟩ => ⟨p, mem, eq.symm, eq'.symm⟩⟩
  | _ =>
    refine ⟨fun mem => absurd mem give_mem_releaseAll, fun mem => ?_⟩
    cases mem

theorem aims_iff {G : Nat → LVObject → Prop} {o : LVCollectable} :
    layout.Aims G o ↔ ∀ a value, (a, value) ∈ o.gives → G a value := by
  refine forall₂_congr fun a value => imp_congr_left ?_
  change Action.give a value ∈ o.Finalize ++ o.beforeUnlink ++ o.afterUnlink ↔ _
  rw [List.append_assoc, List.mem_append, give_mem_finalize]
  refine or_iff_left_of_imp fun mem => ?_
  cases o with
  | OT_THREAD v =>
    rcases List.mem_append.mp mem with before | after
    · exact give_mem_finalize.mp before
    · cases after
  | _ =>
    rcases List.mem_append.mp mem with before | after
    · first | exact absurd before give_mem_releaseAll | cases before
    · first | exact absurd after give_mem_releaseAll | cases after

theorem lawful : layout.Lawful strong where
  finalize := finalize_count
  release := release_count
  receive := receive_count
  covered o := ⟨covered_finalize o, covered_release o⟩
  aims_receive G o value aims := by
    rw [aims_iff] at aims ⊢
    cases o <;> exact aims
  aims_finalized G o aims := by
    rw [aims_iff]
    cases o <;> exact fun a value mem => by cases mem
  finalized_receive o value := by cases o <;> exact List.Subset.refl _

end LVCollectable

end Lavril
