import Lavril.Sweeping
import Mathlib.Data.Finset.Max

/-!
# A collection

What the roots reach survives as it was, and is the new chain. Every other object
is freed, or finalised and on no chain; none of them is left when whatever refers
to objects is on the heap, or a root, and what finalising leaves has no cycle.
-/

universe u v

namespace Collector

variable {O : Type u} {V : Type v}

/-- A heap between two collections: all its objects are on the chain. -/
structure Consistent (L : Layout O V) (refs : O → List Nat) (G : Nat → V → Prop) (h : Heap O)
    (gc : List Nat) (out : Nat → Nat) : Prop where
  counted : Counted refs h gc.toFinset out
  chain : Doubly h.links none h.gcChain gc
  complete : ∀ a c, h.cells a = some c → a ∈ gc ∧ c.marked = false ∧ L.Aims G c.obj
  followed : ∀ a c, h.cells a = some c → L.marks c.obj ⊆ refs c.obj

/-- The roots reach an object. -/
def Reached (L : Layout O V) (h : Heap O) (roots : List Nat) (a : Nat) : Prop :=
  ∃ r ∈ roots, Relation.ReflTransGen (Edge L h) r a

/-- What has become of the heap `h`. -/
structure Collected (L : Layout O V) (refs : O → List Nat) (G : Nat → V → Prop) (h h' : Heap O)
    (gc roots : List Nat) (dom' : Finset Nat) (gc' : List Nat) (out : Nat → Nat) : Prop where
  reached : ∀ a, a ∈ gc' ↔ Reached L h roots a
  chain : Doubly h'.links none h'.gcChain gc'
  idle : h'.tchain = none
  survivors : ∀ a ∈ gc', a ∈ dom' ∧ a ∉ h'.swept ∧ ∃ c c', h.cells a = some c ∧
    h'.cells a = some c' ∧ c'.marked = false ∧ L.Evolved G a c.obj c'.obj
  others : ∀ a ∈ gc, a ∉ gc' → h'.cells a = none ∧ a ∉ dom' ∨
    a ∈ dom' ∧ a ∈ h'.swept ∧ ∃ c c', h.cells a = some c ∧ h'.cells a = some c' ∧
      0 < c'.uiRef ∧ ∃ o, L.Evolved G a c.obj o ∧ L.Evolved G a (L.finalized o) c'.obj
  counted : Counted refs h' dom' out
  sub : dom' ⊆ gc.toFinset
  frame : ∀ a, a ∉ gc → h'.cells a = none

variable {L : Layout O V} {refs : O → List Nat} {G : Nat → V → Prop} {h h' : Heap O}
  {gc t roots : List Nat} {out : Nat → Nat} {a : Nat} {c : Cell O}

theorem Consistent.markable (consistent : Consistent L refs G h gc out) :
    Markable L { h with tchain := none, swept := [] } gc [] where
  chained := ⟨consistent.chain, rfl, by simp⟩
  member a c cell := .inl (consistent.complete a c cell).1
  done a mem := by cases mem
  closed := by
    rintro a b ⟨c, cell, inMarks⟩
    have member := List.mem_toFinset.mpr (consistent.complete a c cell).1
    have inside := consistent.counted.mem_of_held member cell (consistent.followed a c cell inMarks)
    obtain ⟨d, cell', -⟩ := consistent.counted.count b inside
    exact ⟨d, cell'⟩

/-- Taking the marks off. -/
theorem unmarkAll_spec (steps : Nat) (fits : t.length ≤ steps) {before head : Option Nat}
    (chain : Doubly h.links before head t) :
    ∃ h', unmarkAll steps head h = some h' ∧ h'.links = h.links ∧ h'.tchain = h.tchain ∧
      h'.swept = h.swept ∧ ∀ x, h'.cells x =
        if x ∈ t then (h.cells x).map ({ · with marked := false }) else h.cells x := by
  induction t generalizing steps h before head with
  | nil =>
    obtain rfl := chain
    exact ⟨h, by cases steps <;> rfl, rfl, rfl, rfl, by simp⟩
  | cons a t ih =>
    obtain ⟨rfl, -, rest⟩ := chain
    cases steps with
    | zero => simp at fits
    | succ steps =>
      obtain ⟨h', run, links, tchain, swept, cells⟩ :=
        ih (h := h.setMark a false) steps (Nat.le_of_succ_le_succ fits) rest
      have notMem : a ∉ t := (List.nodup_cons.mp (Doubly.nodup ⟨rfl, rfl, rest⟩)).1
      refine ⟨h', run, links, tchain, swept, fun x => ?_⟩
      by_cases eq : x = a
      · subst eq
        rw [cells, if_neg notMem, if_pos List.mem_cons_self]
        exact Heap.modify_cells_self _
      · rw [cells, Heap.setMark, Heap.modify_cells_of_ne eq]
        simp [eq]

/-- The heap after marking, with the first unmarked object protected. -/
theorem Consistent.swept {new : List Nat} {h₁ : Heap O}
    (consistent : Consistent L refs G h gc out)
    (m : Marked L { h with tchain := none, swept := [] } h₁ gc [] new) :
    ∃ h₂, addRefTo h₁.gcChain h₁ = some h₂ ∧
      Swept L refs G h₁ h₂ gc.toFinset gc.toFinset [] [] (gc.filter (· ∉ new)) (new ++ [])
        fun x => (gc.filter (· ∉ new)).head?.toList.count x + out x := by
  have same (x) : ∀ c, h.cells x = some c →
      ∃ c', h₁.cells x = some c' ∧ c'.obj = c.obj ∧ c'.uiRef = c.uiRef := by
    intro c cell
    have now := m.cells x
    simp only [cell] at now
    split at now
    · exact ⟨_, now, rfl, rfl⟩
    · exact ⟨_, now, rfl, rfl⟩
  have ready : Ready L refs G h₁ gc.toFinset (gc.filter (· ∉ new)) (new ++ []) out := by
    refine ⟨consistent.counted.same (fun x _ => same x) fun _ => rfl, m.chained,
      fun x inside unmarked => ?_, fun x inside c' cell' => ?_⟩
    · refine List.mem_filter.mpr ⟨List.mem_toFinset.mp inside, decide_eq_true fun inNew => ?_⟩
      obtain ⟨c, cell, mark⟩ := m.isMarked_new inNew
      simp [Heap.unmarked, cell, mark] at unmarked
    · obtain ⟨c, cell, -⟩ := consistent.counted.count x inside
      obtain ⟨d, cell'', obj, -⟩ := same x c cell
      obtain rfl := Option.some.inj (cell'.symm.trans cell'')
      exact obj ▸ (consistent.complete x c cell).2.2
  have member {x} (inRest : x ∈ gc.filter (· ∉ new)) : x ∈ gc ∧ x ∉ new := by
    simpa using inRest
  obtain ⟨h₂, run, freed, -, -, ready₂⟩ := addRefTo_ready _ ready fun b first =>
    List.mem_toFinset.mpr (member (List.mem_of_mem_head? first)).1
  refine ⟨h₂, m.chained.left.head_eq ▸ run, ready₂, fun x inRest => ?_, by simp, by simp,
    fun x _ => ?_, subset_rfl, fun x inside => ?_, fun x inside outside => absurd inside outside,
    fun x outside => freed.frame x outside, fun x inside => ?_⟩
  · obtain ⟨inGc, notNew⟩ := member inRest
    have inside := List.mem_toFinset.mpr inGc
    obtain ⟨c₁, c₂, cell₁, cell₂, marked, -⟩ := freed.kept x inside
    have now := m.cells x
    rw [if_neg notNew] at now
    have fresh := (consistent.complete x c₁ (now.symm.trans cell₁)).2.1
    exact ⟨inside, by simp [Heap.unmarked, cell₂, marked, fresh]⟩
  · rw [freed.swept, m.swept]
    exact List.not_mem_nil
  · obtain ⟨c₁, c₂, cell₁, cell₂, marked, obj, -⟩ := freed.kept x inside
    refine ⟨c₁, c₂, cell₁, cell₂, marked, fun _ => obj, fun inSwept => ?_⟩
    rw [freed.swept, m.swept] at inSwept
    cases inSwept
  · rw [freed.swept, m.swept] at inside
    cases inside

theorem collect_spec {fuel : Nat} (lawful : L.Lawful refs)
    (consistent : Consistent L refs G h gc out) (objects : ∀ a ∈ roots, a ∈ gc)
    (enough : gc.length < fuel) :
    ∃ n h' dom' gc', collect L fuel roots h = some (n, h') ∧
      Collected L refs G h h' gc roots dom' gc' out := by
  have alive {x} (mem : x ∈ gc) : ∃ c, h.cells x = some c := by
    obtain ⟨c, cell, -⟩ := consistent.counted.count x (List.mem_toFinset.mpr mem)
    exact ⟨c, cell⟩
  obtain ⟨h₁, new, run₁, m, path⟩ := markAll_reaches roots consistent.markable
    (fun a mem => alive (objects a mem)) (fun a c cell => (consistent.complete a c cell).2.1) enough
  obtain ⟨h₂, run₂, s₂⟩ := consistent.swept m
  have card : gc.toFinset.card < fuel := Nat.lt_of_le_of_lt (List.toFinset_card_le gc) enough
  obtain ⟨n, h₃, dom₃, done, run₃, s₃⟩ := sweep_swept lawful card fuel
    ((List.length_filter_le _ _).trans enough.le) s₂
  have sub : new ⊆ gc := fun x mem => by
    have fresh := m.fresh x mem
    cases cell : h.cells x with
    | none => simp [Heap.unmarked, cell] at fresh
    | some c => exact (consistent.complete x c cell).1
  have marked {x} (mem : x ∈ new) : h₁.unmarked x = false := by
    obtain ⟨c, cell, mark⟩ := m.isMarked_new mem
    simp [Heap.unmarked, cell, mark]
  have right := s₃.ready.chained.right
  rw [List.append_nil] at right
  obtain ⟨h₄, run₄, links, tchain, swept, cells⟩ := unmarkAll_spec fuel
    ((right.nodup.subperm sub).length_le.trans enough.le) right
  have outside {x} (notMem : x ∉ new) : h₄.cells x = h₃.cells x := by
    rw [cells, if_neg notMem]
  refine ⟨n, { h₄ with gcChain := h₄.tchain, tchain := none }, dom₃, new, ?_, path, ?_, rfl, fun a mem => ?_,
    fun a inGc notNew => ?_, ?_, s₃.sub, fun a notMem => ?_⟩
  · rw [← m.chained.left.head_eq] at run₃
    simp only [collect, run₁, run₂, run₃, run₄, Option.bind_eq_bind, Option.bind_some]
    rfl
  · change Doubly h₄.links none h₄.tchain new
    rwa [links, tchain]
  · have inDom : a ∈ dom₃ := by
      by_contra notMem
      have gone := (s₃.gone a (List.mem_toFinset.mpr (sub mem)) notMem).1
      rw [marked mem] at gone
      cases gone
    have notSwept : a ∉ h₃.swept := fun inSwept => by
      have fresh := (s₃.swept a inSwept).2
      rw [marked mem] at fresh
      cases fresh
    obtain ⟨c, cell⟩ := alive (sub mem)
    obtain ⟨c₁, c₃, cell₁, cell₃, -, obj, -⟩ := s₃.kept a inDom
    have now := m.cells a
    simp only [if_pos mem, cell, cell₁] at now
    obtain rfl := Option.some.inj now
    refine ⟨inDom, swept ▸ notSwept, c, { c₃ with marked := false }, cell, ?_, rfl, obj notSwept⟩
    change h₄.cells a = _
    rw [cells, if_pos mem, cell₃]
    rfl
  · by_cases inDom : a ∈ dom₃
    · obtain ⟨c₁, c₃, cell₁, cell₃, same, -, obj⟩ := s₃.kept a inDom
      have now := m.cells a
      rw [if_neg notNew, cell₁] at now
      have fresh := (consistent.complete a c₁ now.symm).2.1
      have inDone := s₃.ready.linked a inDom (by simp [Heap.unmarked, cell₃, same, fresh])
      simp only [List.append_nil] at inDone
      obtain ⟨inSwept, d, cell', pos⟩ := s₃.done a inDone
      obtain rfl := Option.some.inj (cell₃.symm.trans cell')
      exact .inr ⟨inDom, swept ▸ inSwept, c₁, c₃, now.symm, (outside notNew).trans cell₃, pos, obj inSwept⟩
    · obtain ⟨-, gone⟩ := s₃.gone a (List.mem_toFinset.mpr inGc) inDom
      exact .inl ⟨(outside notNew).trans gone, inDom⟩
  · refine s₃.ready.counted.same (fun x _ c cell => ?_) fun x => by simp
    by_cases mem : x ∈ new
    · refine ⟨{ c with marked := false }, ?_, rfl, rfl⟩
      change h₄.cells x = _
      rw [cells, if_pos mem, cell]
      rfl
    · exact ⟨c, (outside mem).trans cell, rfl, rfl⟩
  · have notNew : a ∉ new := fun mem => notMem (sub mem)
    have now := m.cells a
    rw [if_neg notNew] at now
    refine (outside notNew).trans ((s₃.frame a (by simpa using notMem)).trans (now.trans ?_))
    by_contra some
    obtain ⟨c, cell⟩ := Option.ne_none_iff_exists'.mp some
    exact notMem (consistent.complete a c cell).1

section

variable {o o' : O} {b : Nat}

theorem Evolved.refs_mem (lawful : L.Lawful refs) (evolved : L.Evolved G a o o')
    (mem : b ∈ refs o') : b ∈ refs o ∨ ∃ value, G a value ∧ b ∈ L.address value := by
  induction evolved with
  | refl => exact .inl mem
  | @tail o₁ _ _ step ih =>
    obtain ⟨value, given, rfl⟩ := step
    have balance := lawful.receive o₁ value b
    have pos := List.count_pos_iff.mpr mem
    by_cases held : b ∈ refs o₁
    · exact ih held
    · rw [List.count_eq_zero.mpr held] at balance
      have fromValue : b ∈ (L.address value).toList := List.count_pos_iff.mp (by omega)
      exact .inr ⟨value, given, Option.mem_toList.mp fromValue⟩

theorem Evolved.eq (none : ∀ value, ¬ G a value) (evolved : L.Evolved G a o o') : o' = o := by
  induction evolved with
  | refl => rfl
  | tail _ step _ =>
    obtain ⟨value, given, -⟩ := step
    exact absurd given (none value)

theorem Evolved.finalized_subset (lawful : L.Lawful refs) (evolved : L.Evolved G a o o') :
    refs (L.finalized o') ⊆ refs (L.finalized o) := by
  induction evolved with
  | refl => exact List.Subset.refl _
  | tail _ step ih =>
    obtain ⟨value, -, rfl⟩ := step
    exact List.Subset.trans (lawful.finalized_receive _ value) ih

end

/-- Of the objects that the roots do not reach none is left: one that is left has a
count, and whatever holds the reference is left as well and comes before it. -/
theorem Collected.none_left {dom' : Finset Nat} {gc' : List Nat} {ρ : Type*} [LinearOrder ρ]
    (lawful : L.Lawful refs) (collected : Collected L refs G h h' gc roots dom' gc' out)
    (closed : ∀ a c, h.cells a = some c → Reached L h roots a →
      ∀ b ∈ refs c.obj, Reached L h roots b)
    (given : ∀ a value, G a value → Reached L h roots a →
      ∀ b ∈ L.address value, Reached L h roots b)
    (outside : ∀ a, 0 < out a → Reached L h roots a) (rank : Nat → ρ)
    (ranked : ∀ a c, h.cells a = some c → ∀ b ∈ refs (L.finalized c.obj), rank b < rank a)
    (given_ranked : ∀ a value, G a value → ∀ b ∈ L.address value, rank b < rank a) :
    dom' = gc'.toFinset := by
  refine Finset.Subset.antisymm (fun a inside => ?_) fun a mem =>
    (collected.survivors a (List.mem_toFinset.mp mem)).1
  by_contra notMem
  obtain ⟨x, left, highest⟩ := Finset.exists_max_image ( dom' \ gc'.toFinset) rank
    ⟨a, Finset.mem_sdiff.mpr ⟨inside, notMem⟩⟩
  obtain ⟨inDom, notReached⟩ := Finset.mem_sdiff.mp left
  rw [List.mem_toFinset] at notReached
  rcases collected.others x (List.mem_toFinset.mp (collected.sub inDom)) notReached with
    ⟨-, gone⟩ | ⟨-, -, c, c', cell, cell', pos, -⟩
  · exact gone inDom
  have notRoot : out x = 0 := by
    by_contra positive
    exact notReached ((collected.reached x).mpr (outside x (Nat.pos_of_ne_zero positive)))
  obtain ⟨d, cell'', count⟩ := collected.counted.count x inDom
  obtain rfl := Option.some.inj (cell'.symm.trans cell'')
  rw [notRoot, Nat.add_zero] at count
  obtain ⟨y, inside, held⟩ := Finset.exists_ne_zero_of_sum_ne_zero (Nat.ne_of_gt (count ▸ pos))
  have holder := List.count_pos_iff.mp (Nat.pos_of_ne_zero held)
  by_cases reached : y ∈ gc'
  · obtain ⟨-, -, e, e', source, source', -, evolved⟩ := collected.survivors y reached
    rw [source', Option.elim_some] at holder
    have path := (collected.reached y).mp reached
    refine notReached ((collected.reached x).mpr ?_)
    rcases Evolved.refs_mem lawful evolved holder with own | ⟨value, gift, fromValue⟩
    · exact closed y e source path x own
    · exact given y value gift path x fromValue
  · rcases collected.others y (List.mem_toFinset.mp (collected.sub inside)) reached with
      ⟨-, gone⟩ | ⟨-, -, e, e', source, source', -, o, before, after⟩
    · exact gone inside
    · rw [source', Option.elim_some] at holder
      have lower : rank x < rank y := by
        rcases Evolved.refs_mem lawful after holder with own | ⟨value, gift, fromValue⟩
        · exact ranked y e source x (Evolved.finalized_subset lawful before own)
        · exact given_ranked y value gift x fromValue
      have le := highest y (Finset.mem_sdiff.mpr ⟨inside, by simpa using reached⟩)
      exact absurd lower (not_lt.mpr le)

end Collector
