import Lavril.Marking
import Mathlib.Algebra.Order.BigOperators.Group.Finset

/-!
# Reference counts while objects are freed

The count of an object is the number of references that objects hold to it and of
those from outside: the roots, the protections of the sweep and the references
that an object being freed has yet to give up. Freeing keeps this, so it ends, and
only meets objects that exist.
-/

universe u v

namespace Collector

variable {O : Type u} {V : Type v}

/-- The references among some actions that are released. -/
def drops : List (Action V) → List Nat
  | [] => []
  | .drop a :: rest => a :: drops rest
  | .give _ _ :: rest => drops rest

namespace Layout

variable (L : Layout O V)

/-- A value is stored before its own reference, and that to the object that gets it,
are released. -/
def Covered : List (Action V) → Prop
  | [] => True
  | .drop _ :: rest => Covered rest
  | .give a value :: rest => a ∈ drops rest ∧ (∀ b ∈ L.address value, b ∈ drops rest) ∧ Covered rest

/-- `G` has all the values that the object may store in others. -/
def Aims (G : Nat → V → Prop) (o : O) : Prop :=
  ∀ a value, .give a value ∈ L.finalize o ++ L.before o ++ L.after o → G a value

/-- The object at `a` after it may have been given some values. -/
def Evolved (G : Nat → V → Prop) (a : Nat) : O → O → Prop :=
  Relation.ReflTransGen fun o o' => ∃ value, G a value ∧ o' = L.receive o value

/-- `refs` are all the references that an object holds. -/
structure Lawful (refs : O → List Nat) : Prop where
  finalize : ∀ o x,
    (drops (L.finalize o)).count x + (refs (L.finalized o)).count x = (refs o).count x
  release : ∀ o x, (drops (L.before o)).count x + (drops (L.after o)).count x = (refs o).count x
  receive : ∀ o value x, (refs (L.receive o value)).count x + (L.replaced o value).toList.count x =
    (refs o).count x + (L.address value).toList.count x
  covered : ∀ o, L.Covered (L.finalize o) ∧ L.Covered (L.before o) ∧ L.Covered (L.after o)
  aims_receive : ∀ G o value, L.Aims G o → L.Aims G (L.receive o value)
  aims_finalized : ∀ G o, L.Aims G o → L.Aims G (L.finalized o)
  finalized_receive : ∀ o value, refs (L.finalized (L.receive o value)) ⊆ refs (L.finalized o)

end Layout

/-- The references to `x` that the objects of `dom` hold. -/
def holders (refs : O → List Nat) (h : Heap O) (dom : Finset Nat) (x : Nat) : Nat :=
  ∑ y ∈ dom, ((h.cells y).elim [] (refs ·.obj)).count x

structure Counted (refs : O → List Nat) (h : Heap O) (dom : Finset Nat) (out : Nat → Nat) :
    Prop where
  count : ∀ x ∈ dom, ∃ c, h.cells x = some c ∧ c.uiRef = holders refs h dom x + out x
  inside : ∀ x, x ∉ dom → holders refs h dom x + out x = 0

namespace Counted

variable {refs : O → List Nat} {h h' : Heap O} {dom : Finset Nat} {out out' : Nat → Nat}
  {a : Nat} {c : Cell O}

theorem same (counted : Counted refs h dom out)
    (cells : ∀ x ∈ dom, ∀ c, h.cells x = some c →
      ∃ c', h'.cells x = some c' ∧ c'.obj = c.obj ∧ c'.uiRef = c.uiRef)
    (same : ∀ x, out' x = out x) : Counted refs h' dom out' := by
  have held (x) : holders refs h' dom x = holders refs h dom x := by
    refine Finset.sum_congr rfl fun y mem => ?_
    obtain ⟨c, cell, -⟩ := counted.count y mem
    obtain ⟨c', cell', obj, -⟩ := cells y mem c cell
    simp only [cell, cell', Option.elim_some, obj]
  refine ⟨fun x mem => ?_, fun x notMem => ?_⟩
  · obtain ⟨c, cell, count⟩ := counted.count x mem
    obtain ⟨c', cell', -, uiRef⟩ := cells x mem c cell
    refine ⟨c', cell', ?_⟩
    rw [held, same, uiRef, count]
  · rw [held, same]
    exact counted.inside x notMem

theorem congr (counted : Counted refs h dom out) (cells : ∀ x ∈ dom, h'.cells x = h.cells x)
    (same : ∀ x, out' x = out x) : Counted refs h' dom out' :=
  counted.same (fun x mem c cell => ⟨c, (cells x mem).trans cell, rfl, rfl⟩) same

theorem mem_of_pos (counted : Counted refs h dom out) (pos : 0 < out a) : a ∈ dom := by
  by_contra notMem
  have none := counted.inside a notMem
  omega

/-- References lead to objects that are counted. -/
theorem mem_of_held (counted : Counted refs h dom out) (mem : a ∈ dom) (cell : h.cells a = some c)
    {b : Nat} (held : b ∈ refs c.obj) : b ∈ dom := by
  by_contra outside
  have none := counted.inside b outside
  have pos : 0 < holders refs h dom b := by
    refine Finset.sum_pos' (fun _ _ => Nat.zero_le _) ⟨a, mem, ?_⟩
    rw [cell]
    exact List.count_pos_iff.mpr held
  omega

/-- What changes in the object's own references is made up for outside. -/
theorem modify {f : Cell O → Cell O} (counted : Counted refs h dom out) (mem : a ∈ dom)
    (cell : h.cells a = some c)
    (others : ∀ x, x ≠ a → (refs (f c).obj).count x + out' x = (refs c.obj).count x + out x)
    (self : (refs (f c).obj).count a + out' a + c.uiRef =
      (refs c.obj).count a + out a + (f c).uiRef) :
    Counted refs (h.modify a f) dom out' := by
  have held (x) : holders refs (h.modify a f) dom x + (refs c.obj).count x =
      holders refs h dom x + (refs (f c).obj).count x := by
    have rest : ∑ y ∈ dom.erase a, (((h.modify a f).cells y).elim [] (refs ·.obj)).count x =
        ∑ y ∈ dom.erase a, ((h.cells y).elim [] (refs ·.obj)).count x :=
      Finset.sum_congr rfl fun y inErase => by
        rw [Heap.modify_cells_of_ne (Finset.ne_of_mem_erase inErase)]
    have now := Finset.add_sum_erase dom
      (fun y => (((h.modify a f).cells y).elim [] (refs ·.obj)).count x) mem
    have before := Finset.add_sum_erase dom
      (fun y => ((h.cells y).elim [] (refs ·.obj)).count x) mem
    simp only [Heap.modify_cells_self, cell, Option.map_some, Option.elim_some] at now before
    simp only [holders]
    omega
  refine ⟨fun x inside => ?_, fun x notMem => ?_⟩
  · have balance := held x
    obtain ⟨d, cell', count⟩ := counted.count x inside
    by_cases eq : x = a
    · subst eq
      obtain rfl := Option.some.inj (cell.symm.trans cell')
      refine ⟨f c, by rw [Heap.modify_cells_self, cell, Option.map_some], ?_⟩
      omega
    · have other := others x eq
      refine ⟨d, (Heap.modify_cells_of_ne eq f).trans cell', ?_⟩
      omega
  · have balance := held x
    have none := counted.inside x notMem
    have other := others x fun eq => notMem (eq ▸ mem)
    omega

/-- A new object takes over references from outside. -/
theorem create {o : O} (counted : Counted refs h dom out) (fresh : a ∉ dom)
    (balance : ∀ x, (refs o).count x + out' x = out x + [a].count x) :
    Counted refs (h.create a o) (insert a dom) out' := by
  have held (x) : holders refs (h.create a o) (insert a dom) x =
      (refs o).count x + holders refs h dom x := by
    rw [holders, Finset.sum_insert fresh, Heap.create_cells_self, Option.elim_some]
    refine congrArg _ (Finset.sum_congr rfl fun y mem => ?_)
    rw [Heap.create_cells_of_ne fun eq : y = a => fresh (eq ▸ mem)]
  refine ⟨fun x mem => ?_, fun x notMem => ?_⟩
  · have balanced := balance x
    by_cases eq : x = a
    · subst eq
      have none := counted.inside x fresh
      refine ⟨_, Heap.create_cells_self, ?_⟩
      simp only [held, List.count_singleton_self] at balanced ⊢
      omega
    · obtain ⟨c, cell, count⟩ := counted.count x ((Finset.mem_insert.mp mem).resolve_left eq)
      refine ⟨c, (Heap.create_cells_of_ne eq).trans cell, ?_⟩
      rw [held, count]
      simp [Ne.symm eq] at balanced
      omega
  · have none := counted.inside x fun mem => notMem (Finset.mem_insert_of_mem mem)
    have balanced := balance x
    have ne : x ≠ a := fun eq => notMem (eq ▸ Finset.mem_insert_self x dom)
    simp [Ne.symm ne] at balanced
    rw [held]
    omega

/-- An object without a count is taken out; its references come from outside now. -/
theorem erase (counted : Counted refs h dom out) (mem : a ∈ dom) (cell : h.cells a = some c)
    (zero : c.uiRef = 0) :
    Counted refs h (dom.erase a) fun x => (refs c.obj).count x + out x := by
  have split (x) : (refs c.obj).count x + holders refs h (dom.erase a) x = holders refs h dom x := by
    have sum := Finset.add_sum_erase dom (fun y => ((h.cells y).elim [] (refs ·.obj)).count x) mem
    simp only [cell, Option.elim_some] at sum
    exact sum
  refine ⟨fun x inside => ?_, fun x outside => ?_⟩
  · obtain ⟨d, cell', count⟩ := counted.count x (Finset.mem_of_mem_erase inside)
    refine ⟨d, cell', ?_⟩
    have := split x
    omega
  · have := split x
    by_cases eq : x = a
    · subst eq
      obtain ⟨d, cell', count⟩ := counted.count x mem
      obtain rfl := Option.some.inj (cell.symm.trans cell')
      omega
    · have none := counted.inside x fun inside => outside (Finset.mem_erase.mpr ⟨eq, inside⟩)
      omega

end Counted

/-- A heap in which objects can be freed. -/
structure Ready (L : Layout O V) (refs : O → List Nat) (G : Nat → V → Prop) (h : Heap O)
    (dom : Finset Nat) (gc t : List Nat) (out : Nat → Nat) : Prop where
  counted : Counted refs h dom out
  chained : Chained h gc t
  linked : ∀ x ∈ dom, h.unmarked x = true → x ∈ gc
  aims : ∀ x ∈ dom, ∀ c, h.cells x = some c → L.Aims G c.obj

/-- Of the objects of `dom`, those of `dom'` are left. -/
structure Freed (L : Layout O V) (G : Nat → V → Prop) (h h' : Heap O) (dom dom' : Finset Nat) :
    Prop where
  sub : dom' ⊆ dom
  gone : ∀ x ∈ dom, x ∉ dom' → h.unmarked x = true ∧ h'.cells x = none
  kept : ∀ x ∈ dom', ∃ c c', h.cells x = some c ∧ h'.cells x = some c' ∧ c'.marked = c.marked ∧
    L.Evolved G x c.obj c'.obj ∧ (0 < c.uiRef → c.marked = false → 0 < c'.uiRef)
  frame : ∀ x, x ∉ dom → h'.cells x = h.cells x
  swept : h'.swept = h.swept

namespace Ready

variable {L : Layout O V} {refs : O → List Nat} {G : Nat → V → Prop} {h h' : Heap O}
  {dom : Finset Nat} {gc t : List Nat} {out out' : Nat → Nat} {a : Nat} {c : Cell O}

theorem congr (ready : Ready L refs G h dom gc t out) (same : ∀ x, out' x = out x) :
    Ready L refs G h dom gc t out' :=
  ⟨ready.counted.congr (fun _ _ => rfl) same, ready.chained, ready.linked, ready.aims⟩

/-- One object gets another count or other references. -/
theorem modify {f : Cell O → Cell O} (ready : Ready L refs G h dom gc t out)
    (cell : h.cells a = some c) (counted : Counted refs (h.modify a f) dom out')
    (marked : (f c).marked = c.marked) (aims : L.Aims G c.obj → L.Aims G (f c).obj) :
    Ready L refs G (h.modify a f) dom gc t out' := by
  refine ⟨counted, ⟨ready.chained.left, ready.chained.right, ready.chained.disjoint⟩,
    fun x mem unmarked => ready.linked x mem ?_, fun x mem d => ?_⟩
  · by_cases eq : x = a
    · subst eq
      simpa [Heap.unmarked, Heap.modify_cells_self, cell, marked] using unmarked
    · rwa [Heap.unmarked, Heap.modify_cells_of_ne eq] at unmarked
  · intro cell'
    by_cases eq : x = a
    · subst eq
      rw [Heap.modify_cells_self, cell] at cell'
      obtain rfl := Option.some.inj cell'
      exact aims (ready.aims x mem c cell)
    · rw [Heap.modify_cells_of_ne eq] at cell'
      exact ready.aims x mem d cell'

theorem decRef (ready : Ready L refs G h dom gc t fun x => [a].count x + out x) :
    Ready L refs G (h.decRef a) dom gc t out := by
  have mem : a ∈ dom := ready.counted.mem_of_pos (by rw [List.count_singleton_self]; omega)
  obtain ⟨c, cell, count⟩ := ready.counted.count a mem
  refine ready.modify cell (ready.counted.modify mem cell (fun x ne => ?_) ?_) rfl id
  · simp [Ne.symm ne]
  · simp only [List.count_singleton_self] at count ⊢
    omega

theorem addRef (ready : Ready L refs G h dom gc t out) (mem : a ∈ dom) :
    Ready L refs G (h.addRef a) dom gc t fun x => [a].count x + out x := by
  obtain ⟨c, cell, count⟩ := ready.counted.count a mem
  refine ready.modify cell (ready.counted.modify mem cell (fun x ne => ?_) ?_) rfl id
  · simp [Ne.symm ne]
  · simp only [List.count_singleton_self]
    omega

theorem setObj {o : O} (ready : Ready L refs G h dom gc t out) (mem : a ∈ dom)
    (cell : h.cells a = some c) (aims : L.Aims G c.obj → L.Aims G o)
    (balance : ∀ x, (refs o).count x + out' x = (refs c.obj).count x + out x) :
    Ready L refs G (h.setObj a o) dom gc t out' := by
  refine ready.modify cell (ready.counted.modify mem cell (fun x _ => balance x) ?_) rfl aims
  have := balance a
  simp only
  omega

end Ready

namespace Freed

variable {L : Layout O V} {G : Nat → V → Prop} {h h₁ h' : Heap O} {dom dom₁ dom' : Finset Nat}
  {a : Nat}

theorem unmarked_le (freed : Freed L G h h' dom dom') (mem : a ∈ dom')
    (still : h'.unmarked a = true) : h.unmarked a = true := by
  obtain ⟨c, c', cell, cell', marked, -⟩ := freed.kept a mem
  simp only [Heap.unmarked, cell, cell', Option.any_some, marked] at still ⊢
  exact still

theorem trans (first : Freed L G h h₁ dom dom₁) (second : Freed L G h₁ h' dom₁ dom') :
    Freed L G h h' dom dom' where
  sub := second.sub.trans first.sub
  gone x inside outside := by
    by_cases mem : x ∈ dom₁
    · obtain ⟨unmarked, cell⟩ := second.gone x mem outside
      exact ⟨first.unmarked_le mem unmarked, cell⟩
    · obtain ⟨unmarked, cell⟩ := first.gone x inside mem
      exact ⟨unmarked, (second.frame x mem).trans cell⟩
  kept x inside := by
    obtain ⟨c₁, c', cell₁, cell', marked', obj', pos'⟩ := second.kept x inside
    obtain ⟨c, c₂, cell, cell₂, marked, obj, pos⟩ := first.kept x (second.sub inside)
    obtain rfl := Option.some.inj (cell₁.symm.trans cell₂)
    exact ⟨c, c', cell, cell', marked'.trans marked, obj.trans obj', fun positive unmarked =>
      pos' (pos positive unmarked) (marked.trans unmarked)⟩
  frame x outside :=
    (second.frame x fun mem => outside (first.sub mem)).trans (first.frame x outside)
  swept := second.swept.trans first.swept

end Freed

/-- The chain without the objects that have been freed. -/
def stay (gc : List Nat) (dom dom' : Finset Nat) : List Nat :=
  gc.filter fun x => decide (x ∈ dom' ∨ x ∉ dom)

theorem stay_stay {gc : List Nat} {dom dom₁ dom' : Finset Nat} (sub₁ : dom₁ ⊆ dom)
    (sub : dom' ⊆ dom₁) : stay (stay gc dom dom₁) dom₁ dom' = stay gc dom dom' := by
  rw [stay, stay, List.filter_filter]
  refine List.filter_congr fun x _ => ?_
  rw [← Bool.decide_and, decide_eq_decide]
  have h₁ : x ∈ dom₁ → x ∈ dom := fun mem => sub₁ mem
  have h₂ : x ∈ dom' → x ∈ dom₁ := fun mem => sub mem
  tauto

end Collector
