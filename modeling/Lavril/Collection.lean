import Lavril.Mutator

/-!
# What a collection may take away

`RunMark` does not go through everything that holds references: the variables of
native functions, the open outers of a thread and what they capture, and the saved
call info of a generator. A collection is safe when all of that is reached in another
way as well; then it also takes away all the rest.
-/

namespace Lavril

open Collector (Heap Cell Terminates)
open LVCollectable (references_append references_cons references_nil)

/-- `RunMark` reaches the object. -/
def LVSharedState.Reached (ss : LVSharedState) (h : Heap LVCollectable) (a : Nat) : Prop :=
  Collector.Reached LVCollectable.layout h ss.roots a

/-- Where `Mark` does not go, it gets in another way. -/
structure LVSharedState.Covered (ss : LVSharedState) (h : Heap LVCollectable)
    (locals : List Nat) : Prop where
  locals : ∀ a ∈ locals, ss.Reached h a
  openouters : ∀ a c v, h.cells a = some c → c.obj = .OT_THREAD v → ss.Reached h a →
    ∀ p ∈ v.openouters, ss.Reached h p.1
  captured : ∀ a c v, h.cells a = some c → c.obj = .OT_THREAD v →
    ∀ p ∈ v.openouters, ss.Reached h p.1 →
    ∀ b ∈ (v.captured p.2).pCollectable, ss.Reached h b
  saved : ∀ a c state closure stack ci, h.cells a = some c →
    c.obj = .OT_GENERATOR state closure stack ci → ss.Reached h a →
    ∀ b ∈ ci.pCollectable, ss.Reached h b

variable {ss : LVSharedState} {h h' : Heap LVCollectable} {gc gc' locals : List Nat}
  {depth : Nat → Nat} {dom' : Finset Nat} {a b : Nat} {c : Cell LVCollectable}

theorem LVSharedState.Reached.mark (reached : ss.Reached h a) (cell : h.cells a = some c)
    (mem : b ∈ c.obj.Mark) : ss.Reached h b := by
  obtain ⟨r, root, path⟩ := reached
  exact ⟨r, root, path.tail ⟨c, cell, mem⟩⟩

namespace LVSharedState.Covered

/-- Every reference of a reached object leads to a reached object. -/
theorem closed (covered : ss.Covered h locals) (typed : c.obj.Typed h depth a)
    (cell : h.cells a = some c) (reached : ss.Reached h a) (mem : b ∈ c.obj.strong) :
    ss.Reached h b := by
  cases obj : c.obj with
  | OT_GENERATOR state closure stack ci =>
    rw [obj, LVCollectable.strong, references_append, references_cons, references_nil,
      List.append_nil, List.mem_append, Option.mem_toList] at mem
    rcases mem with own | saved
    · exact reached.mark cell (by rwa [obj])
    · exact covered.saved a c state closure stack ci cell obj reached b saved
  | OT_OUTER isOpen value =>
    rw [obj] at mem typed
    cases isOpen with
    | false => exact reached.mark cell (by rwa [obj])
    | true =>
      rw [LVCollectable.strong, references_cons, references_nil, typed rfl] at mem
      cases mem
  | OT_THREAD v =>
    rw [obj, LVCollectable.strong, List.mem_append] at mem
    rcases mem with own | isOpen
    · exact reached.mark cell (by rwa [obj])
    · obtain ⟨p, inside, rfl⟩ := List.mem_map.mp isOpen
      exact covered.openouters a c v cell obj reached p inside
  | _ =>
    refine reached.mark cell ?_
    rw [obj] at mem ⊢
    exact mem

/-- What is given to a reached outer is reached. -/
theorem given (covered : ss.Covered h locals) {value : LVObject} (given : Given h a value)
    (reached : ss.Reached h a) (mem : b ∈ value.pCollectable) : ss.Reached h b := by
  obtain ⟨x, c, cell, gift⟩ := given
  cases obj : c.obj with
  | OT_THREAD v =>
    rw [obj] at gift
    obtain ⟨p, inside, eq⟩ := List.mem_map.mp gift
    obtain ⟨rfl, rfl⟩ := Prod.mk.inj eq
    exact covered.captured x c v cell obj p inside reached b mem
  | _ =>
    rw [obj] at gift
    cases gift

end LVSharedState.Covered

namespace LVSharedState.Holds

/-- A value that an outer gets is no outer, so it comes below. -/
theorem given_ranked (heap : ss.Holds h gc locals depth) {value : LVObject}
    (given : Given h a value) (mem : b ∈ value.pCollectable) :
    LVCollectable.rank h depth b < LVCollectable.rank h depth a := by
  obtain ⟨x, c, cell, gift⟩ := given
  have typed := heap.typed x c cell
  cases obj : c.obj with
  | OT_THREAD v =>
    rw [obj] at gift typed
    obtain ⟨p, inside, eq⟩ := List.mem_map.mp gift
    obtain ⟨rfl, rfl⟩ := Prod.mk.inj eq
    obtain ⟨isOuter, notOuter⟩ := typed p inside
    have held : p.1 ∈ c.obj.strong := by
      rw [obj]
      exact List.mem_append_right _ (List.mem_map_of_mem inside)
    have alive := heap.counted.mem_of_held (List.mem_toFinset.mpr (heap.objects x c cell).1) cell held
    obtain ⟨d, outer⟩ := heap.alive_iff.mp (List.mem_toFinset.mp alive)
    refine LVCollectable.rank_lt outer (fun e value => .inl ?_) ?_
    · rw [isOuter d outer]
      exact LVCollectable.height_lt (notOuter b mem e value)
    · rw [isOuter d outer]
      decide
  | _ =>
    rw [obj] at gift
    cases gift

theorem none_left (heap : ss.Holds h gc locals depth) (covered : ss.Covered h locals)
    (collected : Collector.Collected LVCollectable.layout LVCollectable.strong (Given h) h h' gc
      ss.roots dom' gc' fun a => (ss.roots ++ locals).count a) : dom' = gc'.toFinset := by
  refine collected.none_left LVCollectable.lawful (fun a c cell reached b mem => ?_)
    (fun a value given reached b mem => covered.given given reached mem)
    (fun a pos => ?_) (LVCollectable.rank h depth) (fun a c cell b mem => ?_)
    fun a value given b mem => heap.given_ranked given mem
  · exact covered.closed (heap.typed a c cell) cell reached mem
  · rcases List.mem_append.mp (List.count_pos_iff.mp pos) with root | inside
    · exact ⟨a, root, .refl⟩
    · exact covered.locals a inside
  · exact LVCollectable.residual_ranked cell (heap.typed a c cell) mem

/-- After such a collection the heap is as before, without the rest. -/
theorem of_collected (heap : ss.Holds h gc locals depth)
    (collected : Collector.Collected LVCollectable.layout LVCollectable.strong (Given h) h h' gc
      ss.roots gc'.toFinset gc' fun a => (ss.roots ++ locals).count a) :
    ss.Holds h' gc' locals depth := by
  have alive {x c'} (cell' : h'.cells x = some c') : x ∈ gc' := by
    by_contra notMem
    by_cases inGc : x ∈ gc
    · rcases collected.others x inGc notMem with ⟨gone, -⟩ | ⟨inside, -⟩
      · simp [gone] at cell'
      · exact notMem (List.mem_toFinset.mp inside)
    · simp [collected.frame x inGc] at cell'
  refine ⟨collected.chain, collected.idle, fun x c' cell' => ⟨alive cell', ?_⟩, collected.counted,
    LVCollectable.typed_of_evolved (G := Given h) heap.typed fun x c' cell' => ?_⟩
  · obtain ⟨-, -, c, d, -, cell'', marked, -⟩ := collected.survivors x (alive cell')
    obtain rfl := Option.some.inj (cell'.symm.trans cell'')
    exact marked
  · obtain ⟨-, -, c, d, cell, cell'', -, evolved⟩ := collected.survivors x (alive cell')
    obtain rfl := Option.some.inj (cell'.symm.trans cell'')
    exact ⟨c, cell, evolved⟩

end LVSharedState.Holds

namespace LVSharedState.Holds

theorem terminates (heap : ss.Holds h gc locals depth) :
    ∃ n h' dom' gc', Terminates (fun fuel => ss.CollectGarbage fuel h) (n, h') ∧
      Collector.Collected LVCollectable.layout LVCollectable.strong (Given h) h h' gc
        ss.roots dom' gc' fun a => (ss.roots ++ locals).count a := by
  obtain ⟨n, h', dom', gc', run, collected⟩ := Collector.collect_spec LVCollectable.lawful
    heap.consistent (fun a root => heap.mem_of_root root) (Nat.lt_succ_self _)
  refine ⟨n, h', dom', gc', Collector.terminates_of_below ?_ run, collected⟩
  exact fun fuel more le => Collector.collect_below LVCollectable.layout fuel more le ss.roots h

theorem collect (heap : ss.Holds h gc locals depth) (covered : ss.Covered h locals)
    (run : Terminates (fun fuel => ss.CollectGarbage fuel h) (n, h')) :
    ∃ gc', ss.Holds h' gc' locals depth := by
  obtain ⟨m, h₁, dom', gc', run₁, collected⟩ := heap.terminates
  obtain ⟨rfl, rfl⟩ := Prod.mk.inj (run.unique run₁)
  obtain rfl := heap.none_left covered collected
  exact ⟨gc', heap.of_collected collected⟩

end LVSharedState.Holds

/-! ## Runs -/

namespace World

variable {w : World}

/-- A run whose collections are all covered. -/
inductive Reachable : World → Prop
  | initial : Reachable initial
  | mutate {w w' : World} : Reachable w → Mutates w w' → Reachable w'
  | collect {w : World} {n : Nat} {h' : Heap LVCollectable} : Reachable w →
      w.ss.Covered w.heap w.locals →
      Terminates (fun fuel => w.ss.CollectGarbage fuel w.heap) (n, h') →
      Reachable ⟨w.ss, h', w.locals⟩

/-- The induction is on the run. -/
theorem Reachable.sound (reachable : Reachable w) : w.Sound := by
  induction reachable with
  | initial => exact initial_sound
  | mutate _ step ih => exact step.sound ih
  | collect _ covered run ih =>
    obtain ⟨gc, depth, heap⟩ := ih
    obtain ⟨gc', heap'⟩ := heap.collect covered run
    exact ⟨gc', depth, heap'⟩

/-- The root VM alone. -/
def booted : World where
  ss := { initial.ss with root_vm := .ref .OT_THREAD 1 }
  heap := initial.heap.create 1 (.OT_THREAD .new)
  locals := []

theorem booted_flat : ∀ a c, booted.heap.cells a = some c → c.obj.Flat :=
  Heap.create_forall (fun _ _ cell => by cases cell) rfl

theorem booted_reachable : Reachable booted := by
  have created : Mutates initial ⟨initial.ss, booted.heap, [1]⟩ :=
    .create rfl (.refl []) (LVCollectable.wellTyped_of_flat booted_flat)
  exact .mutate (.mutate .initial created) (.root (by decide))

end World

/-! ## Exactness -/

/-- The first object holds a reference to the second. -/
def Refers (h : Heap LVCollectable) (a b : Nat) : Prop :=
  ∃ c, h.cells a = some c ∧ b ∈ c.obj.strong

namespace LVSharedState

/-- With no open outers and no finished generators, marking follows all references. -/
theorem Holds.edge_eq (heap : ss.Holds h gc locals depth)
    (plain : ∀ a c, h.cells a = some c → c.obj.Plain) :
    Collector.Edge LVCollectable.layout h = Refers h := by
  funext a b
  refine propext ⟨fun ⟨c, cell, mem⟩ => ⟨c, cell, LVCollectable.mark_subset_strong _ mem⟩, ?_⟩
  rintro ⟨c, cell, mem⟩
  exact ⟨c, cell, LVCollectable.strong_subset_mark (heap.typed a c cell) (plain a c cell) mem⟩

theorem not_openouters (plain : ∀ a c, h.cells a = some c → c.obj.Plain)
    {v : LVCollectable.Thread} (cell : h.cells a = some c) (obj : c.obj = .OT_THREAD v) :
    v.openouters = [] := by
  have simple := plain a c cell
  rwa [obj] at simple

theorem Holds.covered (heap : ss.Holds h gc [] depth)
    (plain : ∀ a c, h.cells a = some c → c.obj.Plain) : ss.Covered h [] where
  locals := by simp
  openouters a c v cell obj _ p mem := by
    rw [not_openouters plain cell obj] at mem
    cases mem
  captured a c v cell obj p mem := by
    rw [not_openouters plain cell obj] at mem
    cases mem
  saved a c state closure stack ci cell obj reached b mem := by
    refine reached.mark cell (LVCollectable.strong_subset_mark (heap.typed a c cell)
      (plain a c cell) ?_)
    rw [obj, LVCollectable.strong, references_append, references_cons]
    simp [Option.mem_def.mp mem]

theorem not_given (plain : ∀ a c, h.cells a = some c → c.obj.Plain) {value : LVObject} :
    ¬ Given h a value := by
  rintro ⟨b, c, cell, mem⟩
  cases obj : c.obj with
  | OT_THREAD v =>
    rw [obj, LVCollectable.gives, not_openouters plain cell obj] at mem
    cases mem
  | _ =>
    rw [obj] at mem
    cases mem

/-- `h'` is what an exact collection makes of `h`, with the chain `gc'`. -/
structure Exact (ss : LVSharedState) (h h' : Heap LVCollectable) (gc' : List Nat) : Prop where
  reachable : ∀ a, a ∈ gc' ↔ ∃ r ∈ ss.roots, Relation.ReflTransGen (Refers h) r a
  released : ∀ a, (∃ c, h'.cells a = some c) ↔ a ∈ gc'
  linked : Doubly h'.links none h'.gcChain gc' ∧ gc'.Nodup
  kept : ∀ a ∈ gc', a ∉ h'.swept ∧ ∃ c c', h.cells a = some c ∧ h'.cells a = some c' ∧
    c'.obj = c.obj ∧ c'.marked = false ∧
    c'.uiRef = Collector.holders LVCollectable.strong h gc'.toFinset a + ss.roots.count a

/-- A collection ends and is exact. -/
theorem collectGarbage_exact {fuel : Nat} (heap : ss.Holds h gc [] depth)
    (plain : ∀ a c, h.cells a = some c → c.obj.Plain) (enough : gc.length < fuel) :
    ∃ n h' gc', ss.CollectGarbage fuel h = some (n, h') ∧ ss.Exact h h' gc' := by
  obtain ⟨n, h', dom', gc', run, collected⟩ := Collector.collect_spec LVCollectable.lawful
    heap.consistent (fun a root => heap.mem_of_root root) enough
  obtain rfl := heap.none_left (heap.covered plain) collected
  have heap' := heap.of_collected collected
  have same {a c c'} (mem : a ∈ gc') (cell : h.cells a = some c) (cell' : h'.cells a = some c') :
      c'.obj = c.obj := by
    obtain ⟨-, -, d, d', is, is', -, evolved⟩ := collected.survivors a mem
    obtain rfl := Option.some.inj (cell.symm.trans is)
    obtain rfl := Option.some.inj (cell'.symm.trans is')
    exact Collector.Evolved.eq (fun _ => not_given plain) evolved
  refine ⟨n, h', gc', run, ?_, fun a => heap'.alive_iff.symm,
    ⟨collected.chain, collected.chain.nodup⟩, fun a mem => ?_⟩
  · rw [← heap.edge_eq plain]
    exact collected.reached
  · obtain ⟨-, notSwept, c, c', cell, cell', marked, -⟩ := collected.survivors a mem
    refine ⟨notSwept, c, c', cell, cell', same mem cell cell', marked, ?_⟩
    obtain ⟨d, cell'', count⟩ := collected.counted.count a (List.mem_toFinset.mpr mem)
    obtain rfl := Option.some.inj (cell'.symm.trans cell'')
    have held : Collector.holders LVCollectable.strong h' gc'.toFinset a =
        Collector.holders LVCollectable.strong h gc'.toFinset a := by
      refine Finset.sum_congr rfl fun y inside => ?_
      obtain ⟨-, -, e, e', source, source', -⟩ :=
        collected.survivors y (List.mem_toFinset.mp inside)
      rw [source, source', Option.elim_some, Option.elim_some,
        same (List.mem_toFinset.mp inside) source source']
    rw [count, held, List.append_nil]

end LVSharedState

namespace World

/-- Two arrays that hold each other, and nothing else holds either. -/
def cyclic : World where
  ss := booted.ss
  heap := ((booted.heap.create 2 (.OT_ARRAY [])).create 3 (.OT_ARRAY [.ref .OT_ARRAY 2])).setObj 2
    (.OT_ARRAY [.ref .OT_ARRAY 3])
  locals := []

theorem cyclic_reachable : Reachable cyclic := by
  have flat₂ := Heap.create_forall (P := LVCollectable.Flat) (a := 2) (o := .OT_ARRAY [])
    booted_flat trivial
  have flat₃ := Heap.create_forall (P := LVCollectable.Flat) (a := 3)
    (o := .OT_ARRAY [.ref .OT_ARRAY 2]) flat₂ trivial
  have flat : ∀ a c, cyclic.heap.cells a = some c → c.obj.Flat :=
    Heap.setObj_forall flat₃ trivial
  have first := Reachable.mutate booted_reachable
    (.create rfl (.refl []) (LVCollectable.wellTyped_of_flat flat₂))
  have second := Reachable.mutate first
    (.create rfl (.refl [2]) (LVCollectable.wellTyped_of_flat flat₃))
  exact .mutate second
    (.write rfl rfl (by decide) (LVCollectable.wellTyped_of_flat flat))

end World

theorem LVSharedState.collectGarbage_exact_cyclic : ∃ fuel n h' gc',
    World.cyclic.ss.CollectGarbage fuel World.cyclic.heap = some (n, h') ∧
      World.cyclic.ss.Exact World.cyclic.heap h' gc' := by
  obtain ⟨gc, depth, heap⟩ := World.cyclic_reachable.sound
  have plain : ∀ a c, World.cyclic.heap.cells a = some c → c.obj.Plain :=
    Heap.setObj_forall (Heap.create_forall (Heap.create_forall
      (Heap.create_forall (fun _ _ cell => by cases cell) rfl) trivial) trivial) trivial
  exact ⟨gc.length + 1, collectGarbage_exact heap plain (Nat.lt_succ_self _)⟩

/-! ## Safety -/

namespace World

variable {w : World} {n : Nat}

/-- After the collection the object is on the chain, has not been finalised, and is as
before; an open outer may have been closed with the value it captured. -/
def Survives (w : World) (h' : Heap LVCollectable) (a : Nat) : Prop :=
  (∃ l, Doubly h'.links none h'.gcChain l ∧ a ∈ l) ∧ a ∉ h'.swept ∧
    ∃ c c', w.heap.cells a = some c ∧ h'.cells a = some c' ∧
      (c'.obj = c.obj ∨ c.obj.GetType = .OT_OUTER ∧
        ∃ value, Given w.heap a value ∧ c'.obj = .OT_OUTER false value)

/-- Running code, the shared state or an object that survives holds a reference to the
object, or a captured variable that survives has it as its value. -/
def Held (w : World) (h' : Heap LVCollectable) (a : Nat) : Prop :=
  a ∈ w.ss.roots ++ w.locals ∨
    ∃ b, w.Survives h' b ∧ (Refers w.heap b a ∨ ∃ value, Given w.heap b value ∧
      a ∈ value.pCollectable)

def Safe (w : World) (h' : Heap LVCollectable) : Prop := ∀ a, w.Held h' a → w.Survives h' a

/-- The objects that survive are those that `RunMark` reaches. -/
theorem survives_iff
    (collected : Collector.Collected LVCollectable.layout LVCollectable.strong (Given w.heap)
      w.heap h' gc w.ss.roots dom' gc' fun a => (w.ss.roots ++ w.locals).count a) :
    w.Survives h' a ↔ w.ss.Reached w.heap a := by
  constructor
  · rintro ⟨⟨l, chain, mem⟩, -⟩
    obtain rfl := chain.linked.unique collected.chain.linked
    exact (collected.reached a).mp mem
  · intro reached
    have mem := (collected.reached a).mpr reached
    obtain ⟨-, notSwept, c, c', cell, cell', -, evolved⟩ := collected.survivors a mem
    exact ⟨⟨gc', collected.chain, mem⟩, notSwept, c, c', cell, cell',
      LVCollectable.evolved_eq evolved⟩

/-- In every state of such a run a collection ends, and it is safe exactly if all that it
does not mark by itself is reached in another way. -/
theorem Reachable.collectGarbage_safe_iff (reachable : Reachable w) :
    ∃ n h', Terminates (fun fuel => w.ss.CollectGarbage fuel w.heap) (n, h') ∧
      (w.Safe h' ↔ w.ss.Covered w.heap w.locals) := by
  obtain ⟨gc, depth, heap⟩ := reachable.sound
  obtain ⟨n, h', dom', gc', run, collected⟩ := heap.terminates
  have survives {a} := survives_iff (a := a) collected
  refine ⟨n, h', run, fun safe => ?_, fun covered a held => survives.mpr ?_⟩
  · have reached {b a} (from_b : w.ss.Reached w.heap b)
        (ref : Refers w.heap b a ∨ ∃ value, Given w.heap b value ∧ a ∈ value.pCollectable) :
        w.ss.Reached w.heap a :=
      survives.mp (safe a (.inr ⟨b, survives.mpr from_b, ref⟩))
    refine ⟨fun a mem => survives.mp (safe a (.inl (List.mem_append_right _ mem))),
      fun a c v cell obj reaches p mem => reached reaches (.inl ⟨c, cell, ?_⟩),
      fun a c v cell obj p mem reaches b captured =>
        reached reaches (.inr ⟨v.captured p.2, ⟨a, c, cell, ?_⟩, captured⟩),
      fun a c state closure stack ci cell obj reaches b mem =>
        reached reaches (.inl ⟨c, cell, ?_⟩)⟩
    · rw [obj]
      exact List.mem_append_right _ (List.mem_map_of_mem mem)
    · rw [obj]
      exact List.mem_map_of_mem (f := fun p => (p.1, v.captured p.2)) mem
    · rw [obj, LVCollectable.strong, references_append, references_cons]
      simp [Option.mem_def.mp mem]
  · rcases held with outside | ⟨b, alive, ⟨c, cell, ref⟩ | ⟨value, given, mem⟩⟩
    · rcases List.mem_append.mp outside with root | inside
      · exact ⟨a, root, .refl⟩
      · exact covered.locals a inside
    · exact covered.closed (heap.typed b c cell) cell (survives.mp alive) ref
    · exact covered.given given (survives.mp alive) mem

theorem booted_collectGarbage_safe_iff :
    ∃ n h', Terminates (fun fuel => booted.ss.CollectGarbage fuel booted.heap) (n, h') ∧
      (booted.Safe h' ↔ booted.ss.Covered booted.heap booted.locals) :=
  booted_reachable.collectGarbage_safe_iff

/-- A call `array.map(collectgarbage)`: 4 is the array, 3 the native closure that the
root table 2 has under `collectgarbage`. -/
def calling : World where
  ss := booted.ss
  heap := ((((booted.heap.create 3 (.OT_NATIVECLOSURE [])).addRef 3).create 2
    (.OT_TABLE none [(.string "collectgarbage", .ref .OT_NATIVECLOSURE 3)])).create 4
    (.OT_ARRAY [.integer 1])).setObj 1 (.OT_THREAD { LVCollectable.Thread.new with
      roottable := .ref .OT_TABLE 2
      stack := [.ref .OT_ARRAY 4, .ref .OT_NATIVECLOSURE 3] })
  locals := []

/-- `array_map` has created the array 5 for the results. -/
def mapping : World where
  ss := calling.ss
  heap := calling.heap.create 5 (.OT_ARRAY [.null])
  locals := [5]

theorem mapping_reachable : Reachable mapping := by
  have flat₃ := Heap.create_forall (P := LVCollectable.Flat) (a := 3) (o := .OT_NATIVECLOSURE [])
    booted_flat trivial
  have flat₂ := Heap.create_forall (P := LVCollectable.Flat) (a := 2)
    (o := .OT_TABLE none [(.string "collectgarbage", .ref .OT_NATIVECLOSURE 3)])
    (Heap.addRef_forall (a := 3) flat₃) trivial
  have flat₄ := Heap.create_forall (P := LVCollectable.Flat) (a := 4)
    (o := .OT_ARRAY [.integer 1]) flat₂ trivial
  have flat₁ : ∀ a c, calling.heap.cells a = some c → c.obj.Flat := Heap.setObj_forall flat₄ rfl
  have flat := Heap.create_forall (P := LVCollectable.Flat) (a := 5) (o := .OT_ARRAY [.null])
    flat₁ trivial
  have closure := Reachable.mutate booted_reachable
    (.create rfl (.refl []) (LVCollectable.wellTyped_of_flat flat₃))
  have held := Reachable.mutate closure (.hold (a := 3) rfl)
  have table := Reachable.mutate held
    (.create rfl (.refl [3, 3]) (LVCollectable.wellTyped_of_flat flat₂))
  have source := Reachable.mutate table
    (.create rfl (.refl [2, 3]) (LVCollectable.wellTyped_of_flat flat₄))
  have stack : Reachable calling := .mutate source
    (.write rfl rfl (by decide) (LVCollectable.wellTyped_of_flat flat₁))
  exact .mutate stack (.create rfl (.refl []) (LVCollectable.wellTyped_of_flat flat))

/-- The array is finalised although `array_map` still holds it. -/
theorem mapping_not_safe : ∃ n h', Reachable mapping ∧
    Terminates (fun fuel => mapping.ss.CollectGarbage fuel mapping.heap) (n, h') ∧
    ¬ mapping.Safe h' := by
  obtain ⟨⟨n, h'⟩, run, swept⟩ : ∃ r, mapping.ss.CollectGarbage 10 mapping.heap = some r ∧
      5 ∈ r.2.swept := by
    have found : (mapping.ss.CollectGarbage 10 mapping.heap).any (5 ∈ ·.2.swept) = true := by
      decide
    obtain ⟨r, run, swept⟩ := (Option.any_eq_true _ _).mp found
    exact ⟨r, run, of_decide_eq_true swept⟩
  refine ⟨n, h', mapping_reachable, Collector.terminates_of_below (fun fuel more le =>
    Collector.collect_below LVCollectable.layout fuel more le mapping.ss.roots mapping.heap) run,
    fun safe => ?_⟩
  exact (safe 5 (.inl (by decide))).2.1 swept

end World

end Lavril
