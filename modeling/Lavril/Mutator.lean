import Lavril.Fuel
import Lavril.Garbage

/-!
# What the program does between collections

The running code holds references of its own: the values in the variables of native
functions. Everything it does to the heap is made of a few operations that move,
copy and release references.
-/

namespace Lavril

open Collector (Heap Cell Counted Terminates)

/-- The state of the program as far as the collector is concerned; `locals` are the
references that the running code holds. -/
structure World where
  ss : LVSharedState
  heap : Heap LVCollectable
  locals : List Nat

def LVCollectable.WellTyped (h : Heap LVCollectable) : Prop :=
  ∃ depth, ∀ a c, h.cells a = some c → c.obj.Typed h depth a

namespace World

/-- Before anything is created. -/
def initial : World where
  ss := ⟨.null, [], .null, .null, .null, .null, .null, .null, .null, .null, .null, .null, .null,
    .null, .null⟩
  heap := ⟨fun _ => none, ⟨fun _ => none, fun _ => none⟩, none, none, []⟩
  locals := []

/-- One operation: a new object is created from references that the code holds; a
reference is copied from the heap or released; references are exchanged between an
object, or the shared state, and the code. The result is as the types have it. -/
inductive Mutates : World → World → Prop
  | create {w : World} {a : Nat} {o : LVCollectable} {locals : List Nat}
      (fresh : w.heap.cells a = none) (held : (o.strong ++ locals).Perm w.locals)
      (typed : LVCollectable.WellTyped (w.heap.create a o)) :
      Mutates w ⟨w.ss, w.heap.create a o, a :: locals⟩
  | hold {w : World} {a : Nat} {c : Cell LVCollectable} (cell : w.heap.cells a = some c) :
      Mutates w ⟨w.ss, w.heap.addRef a, a :: w.locals⟩
  | release {w : World} {a : Nat} {locals : List Nat} {h' : Heap LVCollectable}
      (held : (a :: locals).Perm w.locals)
      (run : Terminates (fun fuel =>
        Collector.drop (Collector.release LVCollectable.layout fuel) a w.heap) h') :
      Mutates w ⟨w.ss, h', locals⟩
  | write {w : World} {a : Nat} {c : Cell LVCollectable} {o : LVCollectable} {locals : List Nat}
      (cell : w.heap.cells a = some c) (type : o.GetType = c.obj.GetType)
      (held : (o.strong ++ locals).Perm (c.obj.strong ++ w.locals))
      (typed : LVCollectable.WellTyped (w.heap.setObj a o)) :
      Mutates w ⟨w.ss, w.heap.setObj a o, locals⟩
  | root {w : World} {ss : LVSharedState} {locals : List Nat}
      (held : (ss.roots ++ locals).Perm (w.ss.roots ++ w.locals)) :
      Mutates w ⟨ss, w.heap, locals⟩

end World

/-- Types stay right when objects go and none changes its type. -/
theorem LVCollectable.Typed.mono {h h' : Heap LVCollectable} {depth : Nat → Nat} {a : Nat}
    {o : LVCollectable} (typed : o.Typed h depth a)
    (types : ∀ b d', h'.cells b = some d' →
      ∃ d, h.cells b = some d ∧ d.obj.GetType = d'.obj.GetType) : o.Typed h' depth a := by
  have still {b : Nat} {type : LVObjectType}
      (all : ∀ c, h.cells b = some c → c.obj.GetType = type) (d' : Cell LVCollectable)
      (cell' : h'.cells b = some d') : d'.obj.GetType = type := by
    obtain ⟨d, cell, same⟩ := types b d' cell'
    exact same ▸ all d cell
  cases o with
  | OT_CLOSURE function base outervalues defaultparams =>
    exact ⟨still typed.1, fun b mem => still (typed.2 b mem)⟩
  | OT_FUNCPROTO literals functions =>
    exact fun b mem => ⟨still (typed b mem).1, (typed b mem).2⟩
  | OT_GENERATOR state closure stack ci => exact ⟨fun b mem => still (typed.1 b mem), typed.2⟩
  | OT_THREAD v =>
    refine fun p mem => ⟨still (typed p mem).1, fun b value d' cell' => ?_⟩
    obtain ⟨d, cell, same⟩ := types b d' cell'
    exact same ▸ (typed p mem).2 b value d cell
  | _ => exact typed

/-- An object that may have been given values is still the same or a closed outer. -/
theorem LVCollectable.evolved_eq {G : Nat → LVObject → Prop} {a : Nat} {o o' : LVCollectable}
    (evolved : LVCollectable.layout.Evolved G a o o') :
    o' = o ∨ o.GetType = .OT_OUTER ∧ ∃ value, G a value ∧ o' = .OT_OUTER false value := by
  induction evolved with
  | refl => exact .inl rfl
  | @tail o₁ _ _ step ih =>
    obtain ⟨value, given, rfl⟩ := step
    rcases ih with rfl | ⟨type, old, -, rfl⟩
    · cases o₁ with
      | OT_OUTER isOpen old => exact .inr ⟨rfl, value, given, rfl⟩
      | _ => exact .inl rfl
    · exact .inr ⟨type, value, given, rfl⟩

/-- Objects that go, or are given values, leave the others typed. -/
theorem LVCollectable.typed_of_evolved {G : Nat → LVObject → Prop} {h h' : Heap LVCollectable}
    {depth : Nat → Nat} (typed : ∀ a c, h.cells a = some c → c.obj.Typed h depth a)
    (kept : ∀ a c', h'.cells a = some c' →
      ∃ c, h.cells a = some c ∧ LVCollectable.layout.Evolved G a c.obj c'.obj) :
    ∀ a c', h'.cells a = some c' → c'.obj.Typed h' depth a := by
  intro a c' cell'
  obtain ⟨c, cell, evolved⟩ := kept a c' cell'
  rcases evolved_eq evolved with same | ⟨-, value, -, closed⟩
  · rw [same]
    refine (typed a c cell).mono fun b d' cell' => ?_
    obtain ⟨d, cell, evolved⟩ := kept b d' cell'
    refine ⟨d, cell, ?_⟩
    rcases evolved_eq evolved with same | ⟨type, value, -, closed⟩
    · rw [same]
    · rw [type, closed]
      rfl
  · rw [closed]
    exact fun isOpen => absurd isOpen (by decide)

namespace LVSharedState.Holds

variable {ss ss' : LVSharedState} {h h' : Heap LVCollectable} {gc locals locals' : List Nat}
  {depth depth' : Nat → Nat} {a : Nat} {c : Cell LVCollectable} {o : LVCollectable}

theorem alive_iff (heap : ss.Holds h gc locals depth) : a ∈ gc ↔ ∃ c, h.cells a = some c := by
  refine ⟨fun mem => ?_, fun ⟨c, cell⟩ => (heap.objects a c cell).1⟩
  obtain ⟨c, cell, -⟩ := heap.counted.count a (List.mem_toFinset.mpr mem)
  exact ⟨c, cell⟩

theorem root (heap : ss.Holds h gc locals depth)
    (held : (ss'.roots ++ locals').Perm (ss.roots ++ locals)) : ss'.Holds h gc locals' depth :=
  ⟨heap.chain, heap.idle, heap.objects,
    heap.counted.congr (fun _ _ => rfl) fun x => held.count_eq x, heap.typed⟩

theorem create (heap : ss.Holds h gc locals depth) (fresh : h.cells a = none)
    (held : (o.strong ++ locals').Perm locals)
    (typed : ∀ x c, (h.create a o).cells x = some c → c.obj.Typed (h.create a o) depth' x) :
    ss.Holds (h.create a o) (a :: gc) (a :: locals') depth' := by
  have notMem : a ∉ gc := fun mem => by
    obtain ⟨c, cell⟩ := heap.alive_iff.mp mem
    simp [fresh] at cell
  refine ⟨heap.chain.add notMem, heap.idle, fun x c cell => ?_, ?_, typed⟩
  · by_cases eq : x = a
    · subst eq
      rw [Heap.create_cells_self] at cell
      obtain rfl := Option.some.inj cell
      exact ⟨List.mem_cons_self, rfl⟩
    · rw [Heap.create_cells_of_ne eq] at cell
      exact ⟨List.mem_cons_of_mem a (heap.objects x c cell).1, (heap.objects x c cell).2⟩
  · rw [List.toFinset_cons]
    refine heap.counted.create (by simpa using notMem) fun x => ?_
    have count := held.count_eq x
    simp only [List.count_append, List.count_cons, List.count_nil] at count ⊢
    omega

/-- What `modify` does to one object keeps the chain. -/
theorem modify {f : Cell LVCollectable → Cell LVCollectable} (heap : ss.Holds h gc locals depth)
    (marked : ∀ c, (f c).marked = c.marked)
    (counted : Counted LVCollectable.strong (h.modify a f) gc.toFinset
      fun x => (ss.roots ++ locals').count x)
    (typed : ∀ x c, (h.modify a f).cells x = some c → c.obj.Typed (h.modify a f) depth' x) :
    ss.Holds (h.modify a f) gc locals' depth' := by
  refine ⟨heap.chain, heap.idle, fun x c cell => ?_, counted, typed⟩
  by_cases eq : x = a
  · subst eq
    rw [Heap.modify_cells_self, Option.map_eq_some_iff] at cell
    obtain ⟨d, cell, rfl⟩ := cell
    exact ⟨(heap.objects x d cell).1, (marked d).trans (heap.objects x d cell).2⟩
  · rw [Heap.modify_cells_of_ne eq] at cell
    exact heap.objects x c cell

theorem write (heap : ss.Holds h gc locals depth) (cell : h.cells a = some c)
    (held : (o.strong ++ locals').Perm (c.obj.strong ++ locals))
    (typed : ∀ x c, (h.setObj a o).cells x = some c → c.obj.Typed (h.setObj a o) depth' x) :
    ss.Holds (h.setObj a o) gc locals' depth' := by
  have balance (x) : o.strong.count x + (ss.roots ++ locals').count x =
      c.obj.strong.count x + (ss.roots ++ locals).count x := by
    have count := held.count_eq x
    simp only [List.count_append] at count ⊢
    omega
  have mem : a ∈ gc.toFinset := List.mem_toFinset.mpr (heap.objects a c cell).1
  refine heap.modify (fun _ => rfl) (heap.counted.modify mem cell (fun x _ => balance x) ?_) typed
  have := balance a
  simp only
  omega

theorem hold (heap : ss.Holds h gc locals depth) (cell : h.cells a = some c) :
    ss.Holds (h.addRef a) gc (a :: locals) depth := by
  have mem : a ∈ gc.toFinset := List.mem_toFinset.mpr (heap.objects a c cell).1
  refine heap.modify (fun _ => rfl) (heap.counted.modify mem cell (fun x ne => ?_) ?_) ?_
  · simp [Ne.symm ne]
  · simp only [List.count_append, List.count_cons_self]
    omega
  · refine LVCollectable.typed_of_evolved (G := fun _ _ => False) heap.typed fun x c' cell' => ?_
    by_cases eq : x = a
    · subst eq
      rw [Heap.modify_cells_self, cell] at cell'
      obtain rfl := Option.some.inj cell'
      exact ⟨c, cell, .refl⟩
    · rw [Heap.modify_cells_of_ne eq] at cell'
      exact ⟨c', cell', .refl⟩

theorem ready (heap : ss.Holds h gc locals depth) :
    Collector.Ready LVCollectable.layout LVCollectable.strong (Given h) h gc.toFinset gc []
      fun x => (ss.roots ++ locals).count x where
  counted := heap.counted
  chained := ⟨heap.chain, heap.idle, by simp⟩
  linked x inside _ := List.mem_toFinset.mp inside
  aims a _ c cell := LVCollectable.aims_iff.mpr fun _ _ mem => ⟨a, c, cell, mem⟩

/-- Releasing a reference frees what nothing refers to and leaves the rest as it is. -/
theorem release (heap : ss.Holds h gc locals depth) (held : (a :: locals').Perm locals)
    (run : Terminates (fun fuel =>
      Collector.drop (Collector.release LVCollectable.layout fuel) a h) h') :
    ∃ gc', ss.Holds h' gc' locals' depth := by
  obtain ⟨enough, run⟩ := run
  let fuel := max enough (gc.toFinset.card + 1)
  have releases : Collector.Releases LVCollectable.layout LVCollectable.strong (Given h) fuel
      (Collector.release LVCollectable.layout fuel) :=
    Collector.release_releases LVCollectable.lawful fuel
  have given : Collector.Ready LVCollectable.layout LVCollectable.strong (Given h) h gc.toFinset gc
      [] fun x => [a].count x + (ss.roots ++ locals').count x :=
    heap.ready.congr fun x => by
      have count := held.count_eq x
      simp only [List.count_append, List.count_cons, List.count_nil] at count ⊢
      omega
  obtain ⟨h₁, dom', run₁, freed, ready⟩ :=
    Collector.drop_ends releases (Nat.lt_of_succ_le (le_max_right _ _)) given
  obtain rfl := Option.some.inj (run₁.symm.trans (run fuel (le_max_left _ _)))
  have alive {x c'} (cell' : h₁.cells x = some c') : x ∈ dom' := by
    by_contra outside
    by_cases inside : x ∈ gc.toFinset
    · simp [(freed.gone x inside outside).2] at cell'
    · rw [freed.frame x inside] at cell'
      exact inside (List.mem_toFinset.mpr (heap.objects x c' cell').1)
  have members {x} : x ∈ Collector.stay gc gc.toFinset dom' ↔ x ∈ dom' := by
    constructor
    · intro mem
      have inGc := List.mem_of_mem_filter mem
      exact ((Collector.mem_stay (List.mem_toFinset.mpr inGc)).mp mem).2
    · intro mem
      have inside := freed.sub mem
      exact (Collector.mem_stay inside).mpr ⟨List.mem_toFinset.mp inside, mem⟩
  have same : (Collector.stay gc gc.toFinset dom').toFinset = dom' := by
    ext x
    rw [List.mem_toFinset, members]
  refine ⟨_, ready.chained.left, ready.chained.right, fun x c' cell' => ?_, same.symm ▸ ready.counted,
    LVCollectable.typed_of_evolved (G := Given h) heap.typed fun x c' cell' => ?_⟩
  · obtain ⟨c, d, cell, cell'', marked, -⟩ := freed.kept x (alive cell')
    obtain rfl := Option.some.inj (cell'.symm.trans cell'')
    exact ⟨members.mpr (alive cell'), marked.trans (heap.objects x c cell).2⟩
  · obtain ⟨c, d, cell, cell'', -, evolved, -⟩ := freed.kept x (alive cell')
    obtain rfl := Option.some.inj (cell'.symm.trans cell'')
    exact ⟨c, cell, evolved⟩

end LVSharedState.Holds

/-- Every object is on the chain and counted. -/
def World.Sound (w : World) : Prop := ∃ gc depth, w.ss.Holds w.heap gc w.locals depth

theorem World.initial_sound : initial.Sound := by
  refine ⟨[], fun _ => 0, rfl, rfl, fun a c cell => ?_, ⟨fun x mem => ?_, fun x _ => rfl⟩,
    fun a c cell => ?_⟩
  · cases cell
  · cases mem
  · cases cell

theorem World.Mutates.sound {w w' : World} (step : Mutates w w') (sound : w.Sound) : w'.Sound := by
  obtain ⟨gc, depth, heap⟩ := sound
  cases step with
  | create fresh held typed =>
    obtain ⟨depth', typed⟩ := typed
    exact ⟨_, depth', heap.create fresh held typed⟩
  | hold cell => exact ⟨gc, depth, heap.hold cell⟩
  | release held run =>
    obtain ⟨gc', heap'⟩ := heap.release held run
    exact ⟨gc', depth, heap'⟩
  | write cell type held typed =>
    obtain ⟨depth', typed⟩ := typed
    exact ⟨gc, depth', heap.write cell held typed⟩
  | root held => exact ⟨gc, depth, heap.root held⟩

/-- An object that holds no pointer whose type matters. -/
def LVCollectable.Flat : LVCollectable → Prop
  | .OT_CLOSURE .. | .OT_FUNCPROTO .. | .OT_GENERATOR .. => False
  | .OT_OUTER isOpen _ => isOpen = false
  | .OT_THREAD v => v.openouters = []
  | _ => True

theorem LVCollectable.wellTyped_of_flat {h : Heap LVCollectable}
    (flat : ∀ a c, h.cells a = some c → c.obj.Flat) : WellTyped h := by
  refine ⟨fun _ => 0, fun a c cell => ?_⟩
  have simple := flat a c cell
  cases obj : c.obj with
  | OT_OUTER isOpen value =>
    rw [obj] at simple
    obtain rfl : isOpen = false := simple
    exact fun isOpen => absurd isOpen (by decide)
  | OT_THREAD v =>
    rw [obj] at simple
    intro p mem
    rw [show v.openouters = [] from simple] at mem
    cases mem
  | OT_CLOSURE | OT_FUNCPROTO | OT_GENERATOR =>
    rw [obj] at simple
    exact simple.elim
  | _ => trivial

end Lavril
