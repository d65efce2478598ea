import Lavril.Collectable
import Mathlib.Data.Prod.Lex

/-!
# CollectGarbage

The shared state has the roots that `RunMark` goes through. On a heap whose counts
are exact, a collection keeps what the roots reach and leaves nothing else, as long
as every reference that objects hold is one that `Mark` follows.
-/

namespace Lavril

open Collector (Heap Cell Counted)

/-- The values that the shared state holds. -/
structure LVSharedState where
  root_vm : LVObject
  refs_table : List LVObject
  registry : LVObject
  consts : LVObject
  metamethodsmap : LVObject
  table_default_delegate : LVObject
  array_default_delegate : LVObject
  string_default_delegate : LVObject
  number_default_delegate : LVObject
  generator_default_delegate : LVObject
  thread_default_delegate : LVObject
  closure_default_delegate : LVObject
  class_default_delegate : LVObject
  instance_default_delegate : LVObject
  weakref_default_delegate : LVObject

namespace LVSharedState

/-- What `RunMark` marks, in order. -/
def roots (ss : LVSharedState) : List Nat :=
  references ([ss.root_vm] ++ ss.refs_table ++
    [ss.registry, ss.consts, ss.metamethodsmap, ss.table_default_delegate,
      ss.array_default_delegate, ss.string_default_delegate, ss.number_default_delegate,
      ss.generator_default_delegate, ss.thread_default_delegate, ss.closure_default_delegate,
      ss.class_default_delegate, ss.instance_default_delegate, ss.weakref_default_delegate])

def CollectGarbage (ss : LVSharedState) (fuel : Nat) (h : Heap LVCollectable) :
    Option (Nat × Heap LVCollectable) := Collector.collect LVCollectable.layout fuel ss.roots h

end LVSharedState

namespace LVCollectable

def GetType : LVCollectable → LVObjectType
  | .OT_TABLE .. => .OT_TABLE
  | .OT_ARRAY .. => .OT_ARRAY
  | .OT_USERDATA .. => .OT_USERDATA
  | .OT_CLOSURE .. => .OT_CLOSURE
  | .OT_NATIVECLOSURE .. => .OT_NATIVECLOSURE
  | .OT_GENERATOR .. => .OT_GENERATOR
  | .OT_FUNCPROTO .. => .OT_FUNCPROTO
  | .OT_CLASS .. => .OT_CLASS
  | .OT_INSTANCE .. => .OT_INSTANCE
  | .OT_OUTER .. => .OT_OUTER
  | .OT_THREAD .. => .OT_THREAD

/-- What the pointers of the object at `a` point to, as their types have it: a function
has only functions inside that were built before it, a generator that has not finished
is saved with its own closure, an open outer has no value of its own, and no stack slot
holds an outer. -/
def Typed (h : Heap LVCollectable) (depth : Nat → Nat) (a : Nat) : LVCollectable → Prop
  | .OT_CLOSURE function base _ _ =>
    (∀ c, h.cells function = some c → c.obj.GetType = .OT_FUNCPROTO) ∧
      ∀ b ∈ base, ∀ c, h.cells b = some c → c.obj.GetType = .OT_CLASS
  | .OT_FUNCPROTO _ functions => ∀ b ∈ references functions,
    (∀ c, h.cells b = some c → c.obj.GetType = .OT_FUNCPROTO) ∧ depth b < depth a
  | .OT_GENERATOR state closure _ ci =>
    (∀ b ∈ ci.pCollectable, ∀ c, h.cells b = some c → c.obj.GetType = .OT_CLOSURE) ∧
      (state ≠ .eDead → ∀ b ∈ ci.pCollectable, b ∈ closure.pCollectable)
  | .OT_OUTER isOpen value => isOpen = true → value.pCollectable = none
  | .OT_THREAD v => ∀ p ∈ v.openouters,
    (∀ c, h.cells p.1 = some c → c.obj.GetType = .OT_OUTER) ∧
      ∀ b ∈ (v.captured p.2).pCollectable, ∀ c, h.cells b = some c → c.obj.GetType ≠ .OT_OUTER
  | _ => True

/-- No open outers and no finished generators. -/
def Plain : LVCollectable → Prop
  | .OT_OUTER isOpen _ => isOpen = false
  | .OT_THREAD v => v.openouters = []
  | .OT_GENERATOR state .. => state ≠ .eDead
  | _ => True

/-- On such an object `Mark` follows every reference. -/
theorem strong_subset_mark {h : Heap LVCollectable} {depth : Nat → Nat} {a : Nat}
    {o : LVCollectable} (typed : o.Typed h depth a) (plain : o.Plain) : o.strong ⊆ o.Mark := by
  cases o with
  | OT_GENERATOR state closure stack ci =>
    intro b mem
    rw [strong, references_append, List.mem_append, references_cons, references_nil,
      List.append_nil, Option.mem_toList] at mem
    rcases mem with own | saved
    · exact own
    · rw [Mark, references_append, references_cons, references_nil, List.append_nil]
      exact List.mem_append_right _ (Option.mem_toList.mpr (typed.2 plain b saved))
  | OT_OUTER isOpen value =>
    obtain rfl : isOpen = false := plain
    exact List.Subset.refl _
  | OT_THREAD v =>
    have none : v.openouters = [] := plain
    rw [strong, none, List.map_nil, List.append_nil]
    exact List.Subset.refl _
  | _ => exact List.Subset.refl _

/-- Finalising leaves references to lower types, and between functions. -/
def height : LVObjectType → Nat
  | .OT_OUTER => 4
  | .OT_GENERATOR => 3
  | .OT_CLOSURE => 2
  | .OT_FUNCPROTO => 1
  | _ => 0

theorem height_lt {type : LVObjectType} (ne : type ≠ .OT_OUTER) : height type < 4 := by
  cases type <;> first | decide | exact absurd rfl ne

def rank (h : Heap LVCollectable) (depth : Nat → Nat) (a : Nat) : ℕ ×ₗ ℕ :=
  toLex ((h.cells a).elim 0 (height ·.obj.GetType), depth a)

theorem rank_lt {h : Heap LVCollectable} {depth : Nat → Nat} {a b : Nat} {c : Cell LVCollectable}
    (cell : h.cells a = some c)
    (lower : ∀ d, h.cells b = some d → height d.obj.GetType < height c.obj.GetType ∨
      height d.obj.GetType = height c.obj.GetType ∧ depth b < depth a)
    (pos : 0 < height c.obj.GetType) :
    rank h depth b < rank h depth a := by
  rw [rank, rank, cell, Prod.Lex.toLex_lt_toLex]
  cases cell' : h.cells b with
  | none => exact .inl pos
  | some d => exact lower d cell'

theorem residual_ranked {h : Heap LVCollectable} {depth : Nat → Nat} {a b : Nat}
    {c : Cell LVCollectable} (cell : h.cells a = some c) (typed : c.obj.Typed h depth a)
    (mem : b ∈ c.obj.finalized.strong) : rank h depth b < rank h depth a := by
  rw [strong_finalized] at mem
  cases obj : c.obj with
  | OT_CLOSURE function base outervalues defaultparams =>
    have type : c.obj.GetType = .OT_CLOSURE := by rw [obj]; rfl
    rw [obj] at mem typed
    refine rank_lt cell (fun d cell' => .inl ?_) (by rw [type]; decide)
    rw [type]
    rcases List.mem_append.mp mem with fromBase | isFunction
    · rw [typed.2 b (Option.mem_toList.mp fromBase) d cell']
      decide
    · obtain rfl := List.mem_singleton.mp isFunction
      rw [typed.1 d cell']
      decide
  | OT_GENERATOR state closure stack ci =>
    have type : c.obj.GetType = .OT_GENERATOR := by rw [obj]; rfl
    rw [obj] at mem typed
    refine rank_lt cell (fun d cell' => .inl ?_) (by rw [type]; decide)
    rw [residual, references_cons, references_nil, List.append_nil, Option.mem_toList] at mem
    rw [type, typed.1 b mem d cell']
    decide
  | OT_FUNCPROTO literals functions =>
    have type : c.obj.GetType = .OT_FUNCPROTO := by rw [obj]; rfl
    rw [obj] at mem typed
    obtain ⟨isFunction, deeper⟩ := typed b mem
    refine rank_lt cell (fun d cell' => .inr ⟨?_, deeper⟩) (by rw [type]; decide)
    rw [type, isFunction d cell']
  | _ =>
    rw [obj] at mem
    cases mem

end LVCollectable

/-- The heap of a shared state: every object is on the chain, without a mark, and has
as many references as objects, the roots and `locals` hold. -/
structure LVSharedState.Holds (ss : LVSharedState) (h : Heap LVCollectable) (gc locals : List Nat)
    (depth : Nat → Nat) : Prop where
  chain : Doubly h.links none h.gcChain gc
  idle : h.tchain = none
  objects : ∀ a c, h.cells a = some c → a ∈ gc ∧ c.marked = false
  counted : Counted LVCollectable.strong h gc.toFinset fun a => (ss.roots ++ locals).count a
  typed : ∀ a c, h.cells a = some c → c.obj.Typed h depth a

/-- Some thread stores the value in `a` when it closes its outers. -/
def Given (h : Heap LVCollectable) (a : Nat) (value : LVObject) : Prop :=
  ∃ b c, h.cells b = some c ∧ (a, value) ∈ c.obj.gives

namespace LVSharedState.Holds

variable {ss : LVSharedState} {h : Heap LVCollectable} {gc locals : List Nat} {depth : Nat → Nat}

theorem consistent (heap : ss.Holds h gc locals depth) :
    Collector.Consistent LVCollectable.layout LVCollectable.strong (Given h) h gc
      fun a => (ss.roots ++ locals).count a where
  counted := heap.counted
  chain := heap.chain
  complete a c cell :=
    ⟨(heap.objects a c cell).1, (heap.objects a c cell).2,
      LVCollectable.aims_iff.mpr fun _ _ mem => ⟨a, c, cell, mem⟩⟩
  followed _ c _ := LVCollectable.mark_subset_strong c.obj

theorem mem_of_root (heap : ss.Holds h gc locals depth) {a : Nat} (root : a ∈ ss.roots) : a ∈ gc := by
  refine List.mem_toFinset.mp (heap.counted.mem_of_pos ?_)
  rw [List.count_append]
  have := List.count_pos_iff.mpr root
  omega

end LVSharedState.Holds

end Lavril
