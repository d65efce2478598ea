import Lavril.Counting

/-!
# Freeing objects

Releasing references ends, frees objects that nothing refers to and leaves every
other object as it is, on the chain it was on. The fuel it takes is one more than
the objects that there are.
-/

universe u v

namespace Collector

variable {O : Type u} {V : Type v}

/-- The result of releasing references: the references left outside are `out`. -/
def Ends (L : Layout O V) (refs : O → List Nat) (G : Nat → V → Prop) (h : Heap O) (dom : Finset Nat)
    (gc t : List Nat) (out : Nat → Nat) (result : Option (Heap O)) : Prop :=
  ∃ h' dom', result = some h' ∧ Freed L G h h' dom dom' ∧
    Ready L refs G h' dom' (stay gc dom dom') t out

/-- `release` is right on heaps of less than `n` objects. -/
def Releases (L : Layout O V) (refs : O → List Nat) (G : Nat → V → Prop) (n : Nat)
    (release : Nat → Heap O → Option (Heap O)) : Prop :=
  ∀ {h : Heap O} {dom gc t out a c}, dom.card < n → Ready L refs G h dom gc t out → a ∈ dom →
    h.cells a = some c → c.uiRef = 0 → c.marked = false →
    ∃ h' dom', release a h = some h' ∧ Freed L G h h' dom dom' ∧ a ∉ dom' ∧
      Ready L refs G h' dom' (stay gc dom dom') t out

variable {L : Layout O V} {refs : O → List Nat} {G : Nat → V → Prop} {h h' : Heap O}
  {dom dom' : Finset Nat} {gc t : List Nat} {out out' : Nat → Nat} {a : Nat} {c : Cell O}

theorem stay_self : stay gc dom dom = gc :=
  List.filter_eq_self.mpr fun x _ => by simp [em]

namespace Freed

theorem refl (counted : Counted refs h dom out) : Freed L G h h dom dom where
  sub := subset_rfl
  gone x inside outside := absurd inside outside
  kept x inside := by
    obtain ⟨c, cell, -⟩ := counted.count x inside
    exact ⟨c, c, cell, cell, rfl, .refl, fun positive _ => positive⟩
  frame _ _ := rfl
  swept := rfl

theorem modify {f : Cell O → Cell O} (counted : Counted refs h dom out) (mem : a ∈ dom)
    (cell : h.cells a = some c) (marked : (f c).marked = c.marked)
    (obj : L.Evolved G a c.obj (f c).obj)
    (pos : 0 < c.uiRef → c.marked = false → 0 < (f c).uiRef) :
    Freed L G h (h.modify a f) dom dom where
  sub := subset_rfl
  gone x inside outside := absurd inside outside
  kept x inside := by
    obtain ⟨d, cell', -⟩ := counted.count x inside
    by_cases eq : x = a
    · subst eq
      exact ⟨c, f c, cell, by rw [Heap.modify_cells_self, cell, Option.map_some], marked, obj, pos⟩
    · exact ⟨d, d, cell', (Heap.modify_cells_of_ne eq f).trans cell', rfl, .refl,
        fun positive _ => positive⟩
  frame x outside := Heap.modify_cells_of_ne (fun eq : x = a => outside (eq ▸ mem)) f
  swept := rfl

/-- The count of an object that is freed does not matter. -/
theorem of_decRef (freed : Freed L G (h.decRef a) h' dom dom') (mem : a ∈ dom) (notMem : a ∉ dom') :
    Freed L G h h' dom dom' where
  sub := freed.sub
  gone x inside outside := by
    obtain ⟨unmarked, cell⟩ := freed.gone x inside outside
    refine ⟨?_, cell⟩
    by_cases eq : x = a
    · subst eq
      rw [Heap.unmarked, Heap.decRef, Heap.modify_cells_self] at unmarked
      rw [Heap.unmarked]
      cases cell' : h.cells x with
      | none => simp [cell'] at unmarked
      | some c => simpa [cell'] using unmarked
    · rwa [Heap.unmarked, Heap.decRef, Heap.modify_cells_of_ne eq] at unmarked
  kept x inside := by
    have ne : x ≠ a := fun eq => notMem (eq ▸ inside)
    have kept := freed.kept x inside
    rwa [Heap.decRef, Heap.modify_cells_of_ne ne] at kept
  frame x outside :=
    (freed.frame x outside).trans (Heap.modify_cells_of_ne (fun eq : x = a => outside (eq ▸ mem)) _)
  swept := freed.swept

end Freed

theorem drop_ends {n : Nat} {release : Nat → Heap O → Option (Heap O)}
    (releases : Releases L refs G n release) (small : dom.card < n)
    (ready : Ready L refs G h dom gc t fun x => [a].count x + out x) :
    Ends L refs G h dom gc t out (drop release a h) := by
  have mem : a ∈ dom := ready.counted.mem_of_pos (by rw [List.count_singleton_self]; omega)
  obtain ⟨c, cell, -⟩ := ready.counted.count a mem
  have now : (h.decRef a).cells a = some { c with uiRef := c.uiRef - 1 } := by
    rw [Heap.decRef, Heap.modify_cells_self, cell, Option.map_some]
  by_cases last : c.uiRef - 1 = 0 ∧ c.marked = false
  · obtain ⟨h', dom', run, freed, notMem, ready'⟩ :=
      releases small ready.decRef mem now last.1 last.2
    refine ⟨h', dom', ?_, freed.of_decRef mem notMem, ready'⟩
    simpa only [drop, cell, if_pos last] using run
  · refine ⟨h.decRef a, dom, ?_, .modify ready.counted mem cell rfl .refl ?_, ?_⟩
    · simp only [drop, cell, if_neg last]
    · intro _ unmarked
      exact Nat.pos_of_ne_zero fun zero => last ⟨zero, unmarked⟩
    · rw [stay_self]
      exact ready.decRef

namespace Ends

variable {out₁ : Nat → Nat} {result : Option (Heap O)}

theorem same (ready : Ready L refs G h dom gc t out) : Ends L refs G h dom gc t out (some h) :=
  ⟨h, dom, rfl, .refl ready.counted, by rwa [stay_self]⟩

theorem after (freed : Freed L G h h' dom dom')
    (rest : Ends L refs G h' dom' (stay gc dom dom') t out result) :
    Ends L refs G h dom gc t out result := by
  obtain ⟨h₂, dom₂, run, freed₂, ready₂⟩ := rest
  refine ⟨h₂, dom₂, run, freed.trans freed₂, ?_⟩
  rwa [stay_stay freed.sub freed₂.sub] at ready₂

theorem bind {first : Option (Heap O)} {next : Heap O → Option (Heap O)}
    (ends : Ends L refs G h dom gc t out₁ first)
    (rest : ∀ h' dom' gc', dom' ⊆ dom → Ready L refs G h' dom' gc' t out₁ →
      Ends L refs G h' dom' gc' t out (next h')) :
    Ends L refs G h dom gc t out (first >>= next) := by
  obtain ⟨h', dom', rfl, freed, ready⟩ := ends
  exact after freed (rest h' dom' _ freed.sub ready)

end Ends

theorem addRefTo_ready (target : Option Nat) (ready : Ready L refs G h dom gc t out)
    (object : ∀ b ∈ target, b ∈ dom) :
    ∃ h', addRefTo target h = some h' ∧ Freed L G h h' dom dom ∧
      (∀ x, (h'.cells x).map (·.obj) = (h.cells x).map (·.obj)) ∧ h'.links = h.links ∧
      Ready L refs G h' dom gc t fun x => target.toList.count x + out x := by
  cases target with
  | none =>
    exact ⟨h, rfl, .refl ready.counted, fun _ => rfl, rfl, ready.congr fun x => by simp⟩
  | some b =>
    have mem := object b rfl
    obtain ⟨c, cell, -⟩ := ready.counted.count b mem
    refine ⟨h.addRef b, by simp [addRefTo, cell],
      .modify ready.counted mem cell rfl .refl fun _ _ => Nat.succ_pos _, fun x => ?_, rfl,
      ready.addRef mem⟩
    by_cases eq : x = b
    · subst eq
      rw [Heap.addRef, Heap.modify_cells_self, cell]
      rfl
    · rw [Heap.addRef, Heap.modify_cells_of_ne eq]

section

variable (lawful : L.Lawful refs) {n : Nat} {release : Nat → Heap O → Option (Heap O)}
  (releases : Releases L refs G n release)

include lawful releases

/-- Storing a value: the object and the value are held by references released later. -/
theorem give_ends {value : V} (small : dom.card < n) (target : G a value)
    (ready : Ready L refs G h dom gc t out) (mem : a ∈ dom)
    (valueMem : ∀ b ∈ L.address value, b ∈ dom) :
    Ends L refs G h dom gc t out (perform L release h (.give a value)) := by
  obtain ⟨c, cell, -⟩ := ready.counted.count a mem
  obtain ⟨h₁, run, freed, objs, -, ready₁⟩ := addRefTo_ready _ ready valueMem
  obtain ⟨c₁, cell₁, -⟩ := ready₁.counted.count a mem
  have obj : c₁.obj = c.obj := by simpa [cell, cell₁] using objs a
  have balance (x) : (refs (L.receive c.obj value)).count x +
      ((L.replaced c.obj value).toList.count x + out x) =
      (refs c₁.obj).count x + ((L.address value).toList.count x + out x) := by
    have := lawful.receive c.obj value x
    rw [obj]
    omega
  have stored : Ready L refs G (h₁.setObj a (L.receive c.obj value)) dom gc t
      fun x => (L.replaced c.obj value).toList.count x + out x :=
    ready₁.setObj mem cell₁ (fun aims => obj ▸ lawful.aims_receive G c₁.obj value aims) balance
  have freed₁ : Freed L G h (h₁.setObj a (L.receive c.obj value)) dom dom :=
    freed.trans (.modify ready₁.counted mem cell₁ rfl
      (.single ⟨value, target, obj ▸ rfl⟩) fun positive _ => positive)
  refine .after freed₁ ?_
  rw [stay_self]
  simp only [perform, cell, run]
  cases replaced : L.replaced c.obj value with
  | none => exact .same (stored.congr fun x => by simp [replaced])
  | some b => exact drop_ends releases small (stored.congr fun x => by simp [replaced])

theorem performAll_ends (actions : List (Action V)) (covered : L.Covered actions)
    (aims : ∀ a value, .give a value ∈ actions → G a value) (small : dom.card < n)
    (ready : Ready L refs G h dom gc t fun x => (drops actions).count x + out x) :
    Ends L refs G h dom gc t out (performAll L release actions h) := by
  induction actions generalizing h dom gc with
  | nil => exact .same (ready.congr fun x => by simp [drops])
  | cons action rest ih =>
    have aims' a value (mem : .give a value ∈ rest) := aims a value (List.mem_cons_of_mem _ mem)
    have step (covered' : L.Covered rest)
        (first : Ends L refs G h dom gc t (fun x => (drops rest).count x + out x)
          (perform L release h action)) :
        Ends L refs G h dom gc t out (performAll L release (action :: rest) h) := by
      rw [performAll, List.foldlM_cons]
      refine first.bind fun h' dom' gc' sub ready' => ?_
      exact ih covered' aims' (Nat.lt_of_le_of_lt (Finset.card_le_card sub) small) ready'
    cases action with
    | drop a =>
      refine step covered (drop_ends releases small (ready.congr fun x => ?_))
      simp only [drops, List.count_cons, List.count_nil]
      omega
    | give a value =>
      obtain ⟨target, held, covered'⟩ := covered
      have inside {b} (mem : b ∈ drops rest) : b ∈ dom := by
        have pos : 0 < (drops rest).count b := List.count_pos_iff.mpr mem
        exact ready.counted.mem_of_pos (by simp only [drops]; omega)
      exact step covered' (give_ends lawful releases small (aims a value List.mem_cons_self) ready
        (inside target) fun b mem => inside (held b mem))

end

theorem Ready.erase (ready : Ready L refs G h dom gc t out) (mem : a ∈ dom)
    (cell : h.cells a = some c) (zero : c.uiRef = 0) :
    Ready L refs G h (dom.erase a) gc t fun x => (refs c.obj).count x + out x :=
  ⟨ready.counted.erase mem cell zero, ready.chained,
    fun x inside => ready.linked x (Finset.mem_of_mem_erase inside),
    fun x inside => ready.aims x (Finset.mem_of_mem_erase inside)⟩

theorem Ready.unlink (ready : Ready L refs G h dom gc t out) (mem : a ∈ gc) (outside : a ∉ dom) :
    Ready L refs G (h.unlink a) dom (gc.erase a) t out :=
  ⟨ready.counted.congr (fun _ _ => rfl) fun _ => rfl, ready.chained.unlink mem,
    fun x inside unmarked => (List.mem_erase_of_ne fun eq : x = a => outside (eq ▸ inside)).mpr
      (ready.linked x inside unmarked), ready.aims⟩

theorem Ready.free (ready : Ready L refs G h dom gc t out) (outside : a ∉ dom) :
    Ready L refs G (h.free a) dom gc t out := by
  have same (x) (inside : x ∈ dom) : (h.free a).cells x = h.cells x :=
    Function.update_of_ne (fun eq : x = a => outside (eq ▸ inside)) _ _
  refine ⟨ready.counted.congr same fun _ => rfl,
    ⟨ready.chained.left, ready.chained.right, ready.chained.disjoint⟩,
    fun x inside unmarked => ready.linked x inside ?_, fun x inside c cell => ?_⟩
  · rwa [Heap.unmarked, same x inside] at unmarked
  · rw [same x inside] at cell
    exact ready.aims x inside c cell

/-- The chain after an object has been taken off it between two rounds of freeing. -/
theorem stay_unlink {dom₁ dom₂ : Finset Nat} (nodup : gc.Nodup) (mem : a ∈ dom)
    (sub₁ : dom₁ ⊆ dom.erase a) (sub₂ : dom₂ ⊆ dom₁) :
    stay ((stay gc (dom.erase a) dom₁).erase a) dom₁ dom₂ = stay gc dom dom₂ := by
  rw [stay, stay, stay, (nodup.filter _).erase_eq_filter, List.filter_filter, List.filter_filter]
  refine List.filter_congr fun x _ => ?_
  have h₁ : x ∈ dom₁ → x ≠ a ∧ x ∈ dom := fun inside => Finset.mem_erase.mp (sub₁ inside)
  have h₂ : x ∈ dom₂ → x ∈ dom₁ := fun inside => sub₂ inside
  rw [Bool.eq_iff_iff]
  simp only [Bool.and_eq_true, decide_eq_true_eq, bne_iff_ne, Finset.mem_erase]
  by_cases eq : x = a
  · subst eq
    tauto
  · tauto

theorem Freed.free (freed : Freed L G h h' (dom.erase a) dom') (mem : a ∈ dom)
    (unmarked : h.unmarked a = true) : Freed L G h (h'.free a) dom dom' where
  sub := freed.sub.trans (Finset.erase_subset a dom)
  gone x inside outside := by
    by_cases eq : x = a
    · subst eq
      exact ⟨unmarked, Function.update_self _ _ _⟩
    · obtain ⟨unmarked, cell⟩ := freed.gone x (Finset.mem_erase.mpr ⟨eq, inside⟩) outside
      exact ⟨unmarked, (Function.update_of_ne eq _ _).trans cell⟩
  kept x inside := by
    obtain ⟨c, c', cell, cell', rest⟩ := freed.kept x inside
    have ne : x ≠ a := (Finset.mem_erase.mp (freed.sub inside)).1
    exact ⟨c, c', cell, (Function.update_of_ne ne _ _).trans cell', rest⟩
  frame x outside := by
    have ne : x ≠ a := fun eq => outside (eq ▸ mem)
    refine (Function.update_of_ne ne _ _).trans (freed.frame x fun inside => ?_)
    exact outside (Finset.mem_of_mem_erase inside)
  swept := freed.swept

/-- The induction is on the fuel: what an object refers to is freed with the object
itself left out. -/
theorem release_releases (lawful : L.Lawful refs) (fuel : Nat) :
    Releases L refs G fuel (release L fuel) := by
  induction fuel with
  | zero => exact fun small => absurd small (Nat.not_lt_zero _)
  | succ fuel ih =>
    intro h dom gc t out a c small ready mem cell zero unmarked
    have card : (dom.erase a).card < fuel := by
      have := Finset.card_erase_lt_of_mem mem
      omega
    have fresh : h.unmarked a = true := by simp [Heap.unmarked, cell, unmarked]
    have inChain : a ∈ gc := ready.linked a mem fresh
    obtain ⟨-, coveredBefore, coveredAfter⟩ := lawful.covered c.obj
    have aims := ready.aims a mem c cell
    have start : Ready L refs G h (dom.erase a) gc t fun x =>
        (drops (L.before c.obj)).count x + ((drops (L.after c.obj)).count x + out x) :=
      (ready.erase mem cell zero).congr fun x => by
        have := lawful.release c.obj x
        omega
    obtain ⟨h₁, dom₁, run₁, freed₁, ready₁⟩ :=
      performAll_ends lawful ih _ coveredBefore
        (fun b value inBefore => aims b value (by simp [inBefore])) card start
    have notMem₁ : a ∉ dom₁ := fun inside => Finset.notMem_erase a dom (freed₁.sub inside)
    have linked₁ : a ∈ stay gc (dom.erase a) dom₁ := List.mem_filter.mpr ⟨inChain, by simp⟩
    obtain ⟨h₂, dom₂, run₂, freed₂, ready₂⟩ :=
      performAll_ends lawful ih _ coveredAfter
        (fun b value inAfter => aims b value (by simp [inAfter]))
        (Nat.lt_of_le_of_lt (Finset.card_le_card freed₁.sub) card)
        (ready₁.unlink linked₁ notMem₁)
    have notMem₂ : a ∉ dom₂ := fun inside => notMem₁ (freed₂.sub inside)
    refine ⟨h₂.free a, dom₂, ?_, ?_, notMem₂, ?_⟩
    · simp only [release, cell, unmarked, Bool.false_eq_true, if_false]
      rw [run₁, Option.bind_eq_bind, Option.bind_some, run₂]
      rfl
    · have unlinked : Freed L G h (h₁.unlink a) (dom.erase a) dom₁ :=
        ⟨freed₁.sub, freed₁.gone, freed₁.kept, freed₁.frame, freed₁.swept⟩
      exact (unlinked.trans freed₂).free mem fresh
    · rw [stay_unlink ready.chained.left.nodup mem freed₁.sub freed₂.sub] at ready₂
      exact ready₂.free notMem₂

end Collector
