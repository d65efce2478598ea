import Lavril.Collector
import Mathlib.Logic.Relation

/-!
# What marking reaches

Marking moves exactly what it reaches from the chain of all objects to the chain
of the marked ones, and changes nothing but mark bits. The fuel it takes is one
more than the objects that are not marked yet.
-/

universe u v

namespace Collector

variable {O : Type u} {V : Type v} {L : Layout O V}

namespace Heap

variable {h : Heap O} {a b : Nat}

def IsMarked (h : Heap O) (a : Nat) : Prop := ∃ c, h.cells a = some c ∧ c.marked = true

/-- There is an object that is not marked. -/
def unmarked (h : Heap O) (a : Nat) : Bool := (h.cells a).any (!·.marked)

theorem modify_cells_self (f : Cell O → Cell O) : (h.modify a f).cells a = (h.cells a).map f :=
  Function.update_self _ _ _

theorem create_cells_self {o : O} : (h.create a o).cells a = some ⟨o, 1, false⟩ :=
  Function.update_self _ _ _

theorem create_cells_of_ne {o : O} (ne : b ≠ a) : (h.create a o).cells b = h.cells b :=
  Function.update_of_ne ne _ _

theorem modify_cells_of_ne (ne : b ≠ a) (f : Cell O → Cell O) :
    (h.modify a f).cells b = h.cells b := Function.update_of_ne ne _ _

end Heap

/-- What all objects satisfy is kept by a new object, or new contents, that satisfy it. -/
theorem Heap.create_forall {P : O → Prop} {h : Heap O} {a : Nat} {o : O}
    (all : ∀ x c, h.cells x = some c → P c.obj) (new : P o) :
    ∀ x c, (h.create a o).cells x = some c → P c.obj := by
  intro x c cell
  by_cases eq : x = a
  · subst eq
    rw [Heap.create_cells_self] at cell
    obtain rfl := Option.some.inj cell
    exact new
  · rw [Heap.create_cells_of_ne eq] at cell
    exact all x c cell

theorem Heap.modify_forall {P : O → Prop} {h : Heap O} {a : Nat} {f : Cell O → Cell O}
    (all : ∀ x c, h.cells x = some c → P c.obj) (new : ∀ c, P c.obj → P (f c).obj) :
    ∀ x c, (h.modify a f).cells x = some c → P c.obj := by
  intro x c cell
  by_cases eq : x = a
  · subst eq
    rw [Heap.modify_cells_self, Option.map_eq_some_iff] at cell
    obtain ⟨d, cell, rfl⟩ := cell
    exact new d (all x d cell)
  · rw [Heap.modify_cells_of_ne eq] at cell
    exact all x c cell

theorem Heap.setObj_forall {P : O → Prop} {h : Heap O} {a : Nat} {o : O}
    (all : ∀ x c, h.cells x = some c → P c.obj) (new : P o) :
    ∀ x c, (h.setObj a o).cells x = some c → P c.obj := modify_forall all fun _ _ => new

theorem Heap.addRef_forall {P : O → Prop} {h : Heap O} {a : Nat}
    (all : ∀ x c, h.cells x = some c → P c.obj) :
    ∀ x c, (h.addRef a).cells x = some c → P c.obj := modify_forall all fun _ same => same

/-- Marking follows a reference of the first object to the second. -/
def Edge (L : Layout O V) (h : Heap O) (a b : Nat) : Prop :=
  ∃ c, h.cells a = some c ∧ b ∈ L.marks c.obj

/-- The two chains. -/
structure Chained (h : Heap O) (gc marked : List Nat) : Prop where
  left : Doubly h.links none h.gcChain gc
  right : Doubly h.links none h.tchain marked
  disjoint : gc.Disjoint marked

namespace Chained

variable {h : Heap O} {gc marked : List Nat} {a : Nat}

theorem unlink (chained : Chained h gc marked) (inside : a ∈ gc) :
    Chained (h.unlink a) (gc.erase a) marked where
  left := chained.left.remove inside
  right := chained.left.remove_frame inside (by simp) chained.right chained.disjoint
  disjoint := fun _ mem => chained.disjoint (List.mem_of_mem_erase mem)

theorem linkMarked (chained : Chained h gc marked) (notLeft : a ∉ gc) (notRight : a ∉ marked) :
    Chained (h.linkMarked a) gc (a :: marked) where
  left := chained.right.add_frame chained.left notLeft
    fun _ inRight inLeft => chained.disjoint inLeft inRight
  right := chained.right.add notRight
  disjoint b inLeft inRight := by
    rcases List.mem_cons.mp inRight with rfl | inRight
    · exact notLeft inLeft
    · exact chained.disjoint inLeft inRight

end Chained

/-- Every object is on one of the chains, and marking leads to objects only. -/
structure Markable (L : Layout O V) (h : Heap O) (gc marked : List Nat) : Prop where
  chained : Chained h gc marked
  member : ∀ a c, h.cells a = some c → a ∈ gc ∨ a ∈ marked
  done : ∀ a ∈ marked, h.IsMarked a
  closed : ∀ a b, Edge L h a b → ∃ c, h.cells b = some c

/-- `new` has been marked and moved, and all it refers to is marked. -/
structure Marked (L : Layout O V) (h h' : Heap O) (gc marked new : List Nat) : Prop where
  chained : Chained h' (gc.filter (· ∉ new)) (new ++ marked)
  cells : ∀ a, h'.cells a =
    if a ∈ new then (h.cells a).map ({ · with marked := true }) else h.cells a
  fresh : ∀ a ∈ new, h.unmarked a = true
  followed : ∀ a ∈ new, ∀ b, Edge L h a b → h'.IsMarked b
  swept : h'.swept = h.swept

namespace Marked

variable {h h₁ h' : Heap O} {gc marked new new₁ : List Nat} {a b : Nat}

theorem refl (chained : Chained h gc marked) : Marked L h h gc marked [] where
  chained := by simpa using chained
  cells := by simp
  fresh := by simp
  followed := by simp
  swept := rfl

theorem isMarked (m : Marked L h h' gc marked new) (already : h.IsMarked a) : h'.IsMarked a := by
  obtain ⟨c, cell, mark⟩ := already
  have now := m.cells a
  split at now
  · exact ⟨{ c with marked := true }, by rw [now, cell]; rfl, rfl⟩
  · exact ⟨c, now.trans cell, mark⟩

theorem isMarked_new (m : Marked L h h' gc marked new) (mem : a ∈ new) : h'.IsMarked a := by
  have fresh := m.fresh a mem
  have now := m.cells a
  rw [if_pos mem] at now
  cases cell : h.cells a with
  | none => simp [Heap.unmarked, cell] at fresh
  | some c => exact ⟨{ c with marked := true }, by rw [now, cell]; rfl, rfl⟩

/-- Marking changes no object. -/
theorem edge_iff (m : Marked L h h' gc marked new) : Edge L h' a b ↔ Edge L h a b := by
  have now := m.cells a
  simp only [Edge, now]
  split
  · cases h.cells a <;> simp
  · rfl

theorem unmarked_le (m : Marked L h h' gc marked new) (still : h'.unmarked a = true) :
    h.unmarked a = true := by
  by_cases mem : a ∈ new
  · exact m.fresh a mem
  · rw [Heap.unmarked, m.cells a, if_neg mem] at still
    exact still

theorem markable (m : Marked L h h' gc marked new) (ready : Markable L h gc marked) :
    Markable L h' (gc.filter (· ∉ new)) (new ++ marked) where
  chained := m.chained
  member a c cell := by
    have now := m.cells a
    by_cases mem : a ∈ new
    · exact .inr (List.mem_append_left _ mem)
    · rw [if_neg mem, cell] at now
      rcases ready.member a c now.symm with inGc | inMarked
      · exact .inl (List.mem_filter.mpr ⟨inGc, by simpa using mem⟩)
      · exact .inr (List.mem_append_right _ inMarked)
  done a mem := by
    rcases List.mem_append.mp mem with inNew | inMarked
    · exact m.isMarked_new inNew
    · exact m.isMarked (ready.done a inMarked)
  closed a b edge := by
    obtain ⟨c, cell⟩ := ready.closed a b (m.edge_iff.mp edge)
    have now := m.cells b
    rw [cell] at now
    split at now
    · exact ⟨_, now⟩
    · exact ⟨_, now⟩

theorem trans (first : Marked L h h₁ gc marked new)
    (second : Marked L h₁ h' (gc.filter (· ∉ new)) (new ++ marked) new₁) :
    Marked L h h' gc marked (new₁ ++ new) where
  chained := by
    have chained := second.chained
    rw [List.filter_filter, ← List.append_assoc] at chained
    have same : (fun a => decide (a ∉ new₁) && decide (a ∉ new)) =
        fun a => decide (a ∉ new₁ ++ new) := by
      funext a
      simp [Bool.decide_and]
    rwa [same] at chained
  cells a := by
    rw [second.cells a, first.cells a]
    by_cases mem₁ : a ∈ new₁
    · have notNew : a ∉ new := by
        intro mem
        obtain ⟨c, cell, mark⟩ := first.isMarked_new mem
        have fresh := second.fresh a mem₁
        simp [Heap.unmarked, cell, mark] at fresh
      simp [mem₁, notNew]
    · by_cases mem : a ∈ new <;> simp [mem₁, mem]
  fresh a mem := by
    rcases List.mem_append.mp mem with mem₁ | mem
    · exact first.unmarked_le (second.fresh a mem₁)
    · exact first.fresh a mem
  followed a mem b edge := by
    rcases List.mem_append.mp mem with mem₁ | mem
    · exact second.followed a mem₁ b (first.edge_iff.mpr edge)
    · exact second.isMarked (first.followed a mem b edge)
  swept := second.swept.trans first.swept

end Marked

section

variable {h h' : Heap O} {gc marked new : List Nat} {a : Nat}

/-- How many objects of the chain are not marked. -/
def remaining (h : Heap O) (gc : List Nat) : Nat := gc.countP h.unmarked

theorem Marked.remaining_le (m : Marked L h h' gc marked new) :
    remaining h' (gc.filter (· ∉ new)) ≤ remaining h gc := by
  rw [remaining, List.countP_filter]
  refine List.countP_mono_left fun b _ still => ?_
  rw [Bool.and_eq_true] at still
  exact m.unmarked_le still.1

theorem setMark_unmarked : (h.setMark a true).unmarked a = false := by
  simp only [Heap.unmarked, Heap.setMark, Heap.modify_cells_self]
  cases h.cells a <;> simp

theorem setMark_unmarked_le {b : Nat} (still : (h.setMark a true).unmarked b = true) :
    h.unmarked b = true := by
  by_cases eq : b = a
  · subst eq
    rw [setMark_unmarked] at still
    cases still
  · rwa [Heap.unmarked, Heap.setMark, Heap.modify_cells_of_ne eq] at still

theorem setMark_edge {x y : Nat} : Edge L (h.setMark a true) x y ↔ Edge L h x y := by
  by_cases eq : x = a
  · subst eq
    simp only [Edge, Heap.setMark, Heap.modify_cells_self]
    cases h.cells x <;> simp
  · simp only [Edge, Heap.setMark, Heap.modify_cells_of_ne eq]

/-- Setting the mark of an object leaves one object less. -/
theorem remaining_setMark (inside : a ∈ gc) (unmarked : h.unmarked a = true) :
    remaining (h.setMark a true) gc < remaining h gc := by
  obtain ⟨l₁, l₂, rfl⟩ := List.append_of_mem inside
  have le (l : List Nat) : l.countP (h.setMark a true).unmarked ≤ l.countP h.unmarked :=
    List.countP_mono_left fun b _ still => setMark_unmarked_le still
  have before := le l₁
  have after := le l₂
  simp only [remaining, List.countP_append, List.countP_cons, setMark_unmarked, unmarked]
  simp only [Bool.false_eq_true, if_false, if_true]
  omega

/-- What a marking from some objects of a list has reached. -/
structure Reaches (L : Layout O V) (h h' : Heap O) (gc marked new sources : List Nat) : Prop where
  step : Marked L h h' gc marked new
  all : ∀ a ∈ sources, h'.IsMarked a
  path : ∀ b ∈ new, ∃ a ∈ sources, Relation.ReflTransGen (Edge L h) a b

/-- The references of an object are marked one after the other. -/
theorem fold_reaches {fuel : Nat} {h : Heap O} {gc marked : List Nat}
    (one : ∀ a (h : Heap O) gc marked, Markable L h gc marked → (∃ c, h.cells a = some c) →
      remaining h gc < fuel →
      ∃ h' new, mark L fuel a h = some h' ∧ Reaches L h h' gc marked new [a])
    (sources : List Nat) (ready : Markable L h gc marked)
    (objects : ∀ a ∈ sources, ∃ c, h.cells a = some c) (enough : remaining h gc < fuel) :
    ∃ h' new, sources.foldlM (fun h a => mark L fuel a h) h = some h' ∧
      Reaches L h h' gc marked new sources := by
  induction sources generalizing h gc marked with
  | nil => exact ⟨h, [], rfl, .refl ready.chained, by simp, by simp⟩
  | cons a sources ih =>
    obtain ⟨h₁, new₁, run₁, first⟩ := one a h gc marked ready (objects a List.mem_cons_self) enough
    have objects₁ : ∀ b ∈ sources, ∃ c, h₁.cells b = some c := by
      intro b mem
      obtain ⟨c, cell⟩ := objects b (List.mem_cons_of_mem a mem)
      have now := first.step.cells b
      rw [cell] at now
      split at now <;> exact ⟨_, now⟩
    obtain ⟨h₂, new₂, run₂, second⟩ := ih (first.step.markable ready) objects₁
      (Nat.lt_of_le_of_lt first.step.remaining_le enough)
    refine ⟨h₂, new₂ ++ new₁, ?_, first.step.trans second.step, ?_, ?_⟩
    · rw [List.foldlM_cons, run₁]
      exact run₂
    · intro b mem
      rcases List.mem_cons.mp mem with rfl | later
      · exact second.step.isMarked (first.all b List.mem_cons_self)
      · exact second.all b later
    · intro b mem
      rcases List.mem_append.mp mem with mem₂ | mem₁
      · obtain ⟨s, inside, path⟩ := second.path b mem₂
        exact ⟨s, List.mem_cons_of_mem a inside,
          Relation.ReflTransGen.mono (fun x y edge => first.step.edge_iff.mp edge) _ _ path⟩
      · obtain ⟨s, inside, path⟩ := first.path b mem₁
        obtain rfl := List.mem_singleton.mp inside
        exact ⟨s, List.mem_cons_self, path⟩

/-- The object itself goes to the other chain last. -/
theorem Marked.move {c : Cell O} {h₁ : Heap O} (cell : h.cells a = some c)
    (unmarked : c.marked = false) (inside : a ∈ gc)
    (m : Marked L (h.setMark a true) h₁ gc marked new)
    (all : ∀ b ∈ L.marks c.obj, h₁.IsMarked b) :
    Marked L h ((h₁.unlink a).linkMarked a) gc marked (a :: new) := by
  have notNew : a ∉ new := fun mem => by
    have fresh := m.fresh a mem
    rw [setMark_unmarked] at fresh
    cases fresh
  have inLeft : a ∈ gc.filter (· ∉ new) := List.mem_filter.mpr ⟨inside, by simpa using notNew⟩
  have nodup := m.chained.left.nodup
  have erased : (gc.filter (· ∉ new)).erase a = gc.filter (· ∉ a :: new) := by
    rw [nodup.erase_eq_filter, List.filter_filter]
    congr 1
    funext b
    by_cases eq : b = a <;> simp [eq]
  have now {x} (ne : x ≠ a) : (h.setMark a true).cells x = h.cells x :=
    Heap.modify_cells_of_ne ne _
  have self : (h.setMark a true).cells a = some { c with marked := true } := by
    rw [Heap.setMark, Heap.modify_cells_self, cell]
    rfl
  have moved : Chained ((h₁.unlink a).linkMarked a) (gc.filter (· ∉ a :: new))
      (a :: (new ++ marked)) := by
    rw [← erased]
    exact (m.chained.unlink inLeft).linkMarked nodup.not_mem_erase (m.chained.disjoint inLeft)
  refine ⟨moved, fun x => ?_, fun x mem => ?_, fun x mem b step => ?_, m.swept⟩
  · have cells := m.cells x
    by_cases eq : x = a
    · subst eq
      rw [if_neg notNew, self] at cells
      rw [if_pos List.mem_cons_self, cell]
      exact cells
    · change h₁.cells x = _
      rw [now eq] at cells
      simpa [eq] using cells
  · rcases List.mem_cons.mp mem with rfl | mem
    · simp [Heap.unmarked, cell, unmarked]
    · exact setMark_unmarked_le (m.fresh x mem)
  · rcases List.mem_cons.mp mem with rfl | mem
    · obtain ⟨c', cell', inMarks⟩ := step
      obtain rfl := Option.some.inj (cell.symm.trans cell')
      exact all b inMarks
    · exact m.followed x mem b (setMark_edge.mpr step)

theorem Markable.setMark (ready : Markable L h gc marked) :
    Markable L (h.setMark a true) gc marked := by
  have cells {x c'} (cell' : (h.setMark a true).cells x = some c') :
      ∃ c, h.cells x = some c ∧ c'.obj = c.obj := by
    by_cases eq : x = a
    · subst eq
      rw [Heap.setMark, Heap.modify_cells_self, Option.map_eq_some_iff] at cell'
      obtain ⟨c, cell, rfl⟩ := cell'
      exact ⟨c, cell, rfl⟩
    · rw [Heap.setMark, Heap.modify_cells_of_ne eq] at cell'
      exact ⟨c', cell', rfl⟩
  have back {x c} (cell : h.cells x = some c) :
      ∃ c', (h.setMark a true).cells x = some c' ∧ (c.marked = true → c'.marked = true) := by
    by_cases eq : x = a
    · subst eq
      exact ⟨{ c with marked := true }, by simp [Heap.setMark, Heap.modify_cells_self, cell],
        fun _ => rfl⟩
    · exact ⟨c, (Heap.modify_cells_of_ne eq _).trans cell, id⟩
  refine ⟨⟨ready.chained.left, ready.chained.right, ready.chained.disjoint⟩,
    fun x c' cell' => ?_, fun x mem => ?_, fun x b edge => ?_⟩
  · obtain ⟨c, cell, -⟩ := cells cell'
    exact ready.member x c cell
  · obtain ⟨c, cell, mark⟩ := ready.done x mem
    obtain ⟨c', cell', still⟩ := back cell
    exact ⟨c', cell', still mark⟩
  · obtain ⟨c', cell', inMarks⟩ := edge
    obtain ⟨c, cell, same⟩ := cells cell'
    obtain ⟨d, object⟩ := ready.closed x b ⟨c, cell, same ▸ inMarks⟩
    obtain ⟨d', object', -⟩ := back object
    exact ⟨d', object'⟩

/-- The induction is on the fuel: an object that is marked has one unmarked object
less in front of it. -/
theorem mark_reaches (fuel a : Nat) (h : Heap O) (gc marked : List Nat)
    (ready : Markable L h gc marked) (object : ∃ c, h.cells a = some c)
    (enough : remaining h gc < fuel) :
    ∃ h' new, mark L fuel a h = some h' ∧ Reaches L h h' gc marked new [a] := by
  induction fuel generalizing a h gc marked with
  | zero => cases enough
  | succ fuel ih =>
    obtain ⟨c, cell⟩ := object
    cases mark : c.marked with
    | true =>
      refine ⟨h, [], by simp [Collector.mark, cell, mark], .refl ready.chained, ?_, by simp⟩
      intro b mem
      obtain rfl := List.mem_singleton.mp mem
      exact ⟨c, cell, mark⟩
    | false =>
      have inside : a ∈ gc := by
        refine (ready.member a c cell).resolve_right fun mem => ?_
        obtain ⟨c', cell', mark'⟩ := ready.done a mem
        rw [cell] at cell'
        obtain rfl := Option.some.inj cell'
        rw [mark] at mark'
        cases mark'
      have unmarked : h.unmarked a = true := by simp [Heap.unmarked, cell, mark]
      have less := remaining_setMark inside unmarked
      have objects : ∀ b ∈ L.marks c.obj, ∃ c', (h.setMark a true).cells b = some c' :=
        fun b mem => ready.setMark.closed a b ⟨{ c with marked := true },
          by simp [Heap.setMark, Heap.modify_cells_self, cell], mem⟩
      obtain ⟨h₁, new, run, m, all, path⟩ :=
        fold_reaches ih (L.marks c.obj) ready.setMark objects (by omega)
      refine ⟨(h₁.unlink a).linkMarked a, a :: new, ?_, m.move cell mark inside all, ?_, ?_⟩
      · simp only [Collector.mark, cell, mark, run]
        rfl
      · intro b mem
        obtain rfl := List.mem_singleton.mp mem
        exact (m.move cell mark inside all).isMarked_new List.mem_cons_self
      · intro b mem
        refine ⟨a, List.mem_cons_self, ?_⟩
        rcases List.mem_cons.mp mem with rfl | mem
        · exact .refl
        · obtain ⟨s, inMarks, path⟩ := path b mem
          exact .head ⟨c, cell, inMarks⟩
            (Relation.ReflTransGen.mono (fun _ _ edge => setMark_edge.mp edge) _ _ path)

/-- Marking from some roots: it ends, and what it marks is what the roots reach. -/
theorem markAll_reaches {fuel : Nat} (roots : List Nat) (ready : Markable L h gc [])
    (objects : ∀ a ∈ roots, ∃ c, h.cells a = some c)
    (fresh : ∀ a c, h.cells a = some c → c.marked = false) (enough : gc.length < fuel) :
    ∃ h' new, markAll L fuel roots h = some h' ∧ Marked L h h' gc [] new ∧
      ∀ a, a ∈ new ↔ ∃ r ∈ roots, Relation.ReflTransGen (Edge L h) r a := by
  have fits : remaining h gc < fuel := Nat.lt_of_le_of_lt (List.countP_le_length) enough
  obtain ⟨h', new, run, m, all, path⟩ := fold_reaches (mark_reaches fuel) roots ready objects fits
  refine ⟨h', new, run, m, fun a => ⟨path a, ?_⟩⟩
  have marked_mem {b} (marked : h'.IsMarked b) : b ∈ new := by
    obtain ⟨c, cell, mark⟩ := marked
    by_contra notNew
    rw [m.cells b, if_neg notNew] at cell
    rw [fresh b c cell] at mark
    cases mark
  rintro ⟨r, mem, reach⟩
  induction reach with
  | refl => exact marked_mem (all r mem)
  | tail _ edge ih => exact marked_mem (m.followed _ ih _ edge)

end

end Collector
