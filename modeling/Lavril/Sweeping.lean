import Lavril.Freeing

/-!
# The sweep

While the chain is swept it consists of objects that have been finalised and still
have a count, of the one being visited, which an extra reference protects, and of
those still to come.
-/

universe u v

namespace Collector

variable {O : Type u} {V : Type v}

/-- The heap `h` in the course of the sweep of `h₀`. -/
structure Swept (L : Layout O V) (refs : O → List Nat) (G : Nat → V → Prop) (h₀ h : Heap O)
    (dom₀ dom : Finset Nat) (done current rest t : List Nat) (out : Nat → Nat) : Prop where
  ready : Ready L refs G h dom (done ++ current ++ rest) t out
  mem : ∀ x ∈ done ++ current ++ rest, x ∈ dom ∧ h.unmarked x = true
  done : ∀ x ∈ done, x ∈ h.swept ∧ ∃ c, h.cells x = some c ∧ 0 < c.uiRef
  current : ∀ x ∈ current, x ∈ h.swept
  rest : ∀ x ∈ rest, x ∉ h.swept
  sub : dom ⊆ dom₀
  kept : ∀ x ∈ dom, ∃ c₀ c, h₀.cells x = some c₀ ∧ h.cells x = some c ∧ c.marked = c₀.marked ∧
    (x ∉ h.swept → L.Evolved G x c₀.obj c.obj) ∧
    (x ∈ h.swept → ∃ o, L.Evolved G x c₀.obj o ∧ L.Evolved G x (L.finalized o) c.obj)
  gone : ∀ x ∈ dom₀, x ∉ dom → h₀.unmarked x = true ∧ h.cells x = none
  frame : ∀ x, x ∉ dom₀ → h.cells x = h₀.cells x
  swept : ∀ x ∈ h.swept, x ∈ dom₀ ∧ h₀.unmarked x = true

variable {L : Layout O V} {refs : O → List Nat} {G : Nat → V → Prop} {h₀ h h' : Heap O}
  {dom₀ dom dom' : Finset Nat} {done current rest t : List Nat} {out out' : Nat → Nat} {a : Nat}
  {c : Cell O}

theorem mem_stay {gc : List Nat} (inside : a ∈ dom) :
    a ∈ stay gc dom dom' ↔ a ∈ gc ∧ a ∈ dom' := by
  simp [stay, inside]

theorem stay_append {l₁ l₂ : List Nat} :
    stay (l₁ ++ l₂) dom dom' = stay l₁ dom dom' ++ stay l₂ dom dom' := List.filter_append ..

namespace Swept

theorem unmarked_iff (s : Swept L refs G h₀ h dom₀ dom done current rest t out) (inside : a ∈ dom) :
    h.unmarked a = h₀.unmarked a := by
  obtain ⟨c₀, c, cell₀, cell, marked, -⟩ := s.kept a inside
  simp only [Heap.unmarked, cell₀, cell, Option.any_some, marked]

/-- Freeing leaves a sweep in its course. -/
theorem freed (s : Swept L refs G h₀ h dom₀ dom done current rest t out)
    (freed : Freed L G h h' dom dom')
    (ready : Ready L refs G h' dom' (stay (done ++ current ++ rest) dom dom') t out') :
    Swept L refs G h₀ h' dom₀ dom' (stay done dom dom') (stay current dom dom')
      (stay rest dom dom') t out' where
  ready := by simpa only [stay_append] using ready
  mem x inside := by
    rw [← stay_append, ← stay_append] at inside
    have member := s.mem x (List.mem_of_mem_filter inside)
    have alive := ((mem_stay member.1).mp inside).2
    obtain ⟨c, c', cell, cell', marked, -⟩ := freed.kept x alive
    refine ⟨alive, ?_⟩
    simpa only [Heap.unmarked, cell, cell', Option.any_some, marked] using member.2
  done x inside := by
    have inDone := List.mem_of_mem_filter inside
    have member := s.mem x (by simp [inDone])
    obtain ⟨swept, c₁, cell₁, pos⟩ := s.done x inDone
    obtain ⟨c, c', cell, cell', -, -, still⟩ := freed.kept x ((mem_stay member.1).mp inside).2
    obtain rfl := Option.some.inj (cell₁.symm.trans cell)
    refine ⟨freed.swept ▸ swept, c', cell', still pos ?_⟩
    simpa [Heap.unmarked, cell] using member.2
  current x inside := freed.swept ▸ s.current x (List.mem_of_mem_filter inside)
  rest x inside := freed.swept ▸ s.rest x (List.mem_of_mem_filter inside)
  sub := freed.sub.trans s.sub
  kept x inside := by
    obtain ⟨c, c', cell, cell', marked', obj', -⟩ := freed.kept x inside
    obtain ⟨c₀, c₁, cell₀, cell₁, marked, before, after⟩ := s.kept x (freed.sub inside)
    obtain rfl := Option.some.inj (cell.symm.trans cell₁)
    rw [freed.swept]
    refine ⟨c₀, c', cell₀, cell', marked'.trans marked, fun fresh => (before fresh).trans obj', ?_⟩
    intro inSwept
    obtain ⟨o, first, second⟩ := after inSwept
    exact ⟨o, first, second.trans obj'⟩
  gone x inside outside := by
    by_cases mem : x ∈ dom
    · obtain ⟨unmarked, cell⟩ := freed.gone x mem outside
      exact ⟨(s.unmarked_iff mem).symm.trans unmarked, cell⟩
    · obtain ⟨unmarked, cell⟩ := s.gone x inside mem
      exact ⟨unmarked, (freed.frame x mem).trans cell⟩
  frame x outside :=
    (freed.frame x fun mem => outside (s.sub mem)).trans (s.frame x outside)
  swept x inside := s.swept x (freed.swept ▸ inside)

/-- The object that is visited is finalised. -/
theorem finalise (s : Swept L refs G h₀ h dom₀ dom done [] (a :: rest) t out)
    (lawful : L.Lawful refs) (cell : h.cells a = some c) :
    Swept L refs G h₀ (h.finalise a (L.finalized c.obj)) dom₀ dom done [a] rest t
      fun x => (drops (L.finalize c.obj)).count x + out x := by
  have nodup : (done ++ [] ++ a :: rest).Nodup := s.ready.chained.left.nodup
  have notDone : a ∉ done := fun inDone => by
    have := List.disjoint_of_nodup_append nodup (by simpa using inDone)
    exact this List.mem_cons_self
  have notRest : a ∉ rest := (List.nodup_cons.mp (List.nodup_append.mp nodup).2.1).1
  have notSwept : a ∉ h.swept := s.rest a List.mem_cons_self
  have inDom : a ∈ dom := (s.mem a (by simp)).1
  have self : (h.setObj a (L.finalized c.obj)).cells a = some { c with obj := L.finalized c.obj } := by
    rw [Heap.setObj, Heap.modify_cells_self, cell, Option.map_some]
  have others {x} (ne : x ≠ a) : (h.setObj a (L.finalized c.obj)).cells x = h.cells x :=
    Heap.modify_cells_of_ne ne _
  have unmarked (x) : (h.finalise a (L.finalized c.obj)).unmarked x = h.unmarked x := by
    by_cases eq : x = a
    · subst eq
      simp only [Heap.finalise, Heap.unmarked, self, cell, Option.any_some]
    · simp only [Heap.finalise, Heap.unmarked, others eq]
  have same : done ++ [a] ++ rest = done ++ [] ++ a :: rest := by simp
  have ready : Ready L refs G (h.setObj a (L.finalized c.obj)) dom (done ++ [] ++ a :: rest) t
      fun x => (drops (L.finalize c.obj)).count x + out x :=
    s.ready.setObj inDom cell (lawful.aims_finalized G c.obj) fun x => by
      have := lawful.finalize c.obj x
      omega
  refine ⟨?_, fun x inside => ?_, fun x inDone => ?_, ?_, fun x inRest mem => ?_, s.sub,
    fun x inside => ?_, fun x inside outside => ?_, fun x outside => ?_, fun x mem => ?_⟩
  · rw [same]
    exact ⟨ready.counted.congr (fun _ _ => rfl) fun _ => rfl,
      ⟨ready.chained.left, ready.chained.right, ready.chained.disjoint⟩, ready.linked, ready.aims⟩
  · rw [unmarked]
    exact s.mem x (same ▸ inside)
  · have ne : x ≠ a := fun eq => notDone (eq ▸ inDone)
    obtain ⟨swept, d, cell', pos⟩ := s.done x inDone
    exact ⟨List.mem_cons_of_mem a swept, d, (others ne).trans cell', pos⟩
  · simp [Heap.finalise]
  · rcases List.mem_cons.mp mem with rfl | swept
    · exact notRest inRest
    · exact s.rest x (List.mem_cons_of_mem a inRest) swept
  · obtain ⟨c₀, d, cell₀, cell', marked, before, after⟩ := s.kept x inside
    by_cases eq : x = a
    · subst eq
      obtain rfl := Option.some.inj (cell.symm.trans cell')
      exact ⟨c₀, _, cell₀, self, marked, fun fresh => absurd List.mem_cons_self fresh,
        fun _ => ⟨c.obj, before notSwept, .refl⟩⟩
    · refine ⟨c₀, d, cell₀, (others eq).trans cell', marked, fun fresh => ?_, fun inSwept => ?_⟩
      · exact before fun inSwept => fresh (List.mem_cons_of_mem a inSwept)
      · exact after ((List.mem_cons.mp inSwept).resolve_left eq)
  · obtain ⟨unmarked, gone⟩ := s.gone x inside outside
    exact ⟨unmarked, (others fun eq : x = a => outside (eq ▸ inDom)).trans gone⟩
  · exact (others fun eq : x = a => outside (s.sub (eq ▸ inDom))).trans (s.frame x outside)
  · rcases List.mem_cons.mp mem with rfl | swept
    · exact ⟨s.sub inDom, (s.unmarked_iff inDom).symm.trans (s.mem x (by simp)).2⟩
    · exact s.swept x swept

/-- The visited object, if it is still there, joins those that are done. -/
theorem next (s : Swept L refs G h₀ h dom₀ dom done current rest t out)
    (pos : ∀ x ∈ current, ∃ c, h.cells x = some c ∧ 0 < c.uiRef) :
    Swept L refs G h₀ h dom₀ dom (done ++ current) [] rest t out where
  ready := by simpa only [List.append_nil] using s.ready
  mem := by simpa only [List.append_nil] using s.mem
  done x inside := by
    rcases List.mem_append.mp inside with inDone | inCurrent
    · exact s.done x inDone
    · exact ⟨s.current x inCurrent, pos x inCurrent⟩
  current := by simp
  rest := s.rest
  sub := s.sub
  kept := s.kept
  gone := s.gone
  frame := s.frame
  swept := s.swept

end Swept

theorem stay_singleton (inside : a ∈ dom') : stay [a] dom dom' = [a] := by
  simp [stay, inside]

/-- A protected object stays in front. -/
theorem head_stay (inside : ∀ x ∈ rest.head?, x ∈ dom') :
    (stay rest dom dom').head? = rest.head? := by
  cases rest with
  | nil => rfl
  | cons x rest =>
    have := inside x rfl
    simp [stay, this]

/-- One step: the next object is protected, and the visited one is freed or done. -/
theorem visit_swept {fuel : Nat} (lawful : L.Lawful refs) (enough : dom₀.card < fuel)
    (s : Swept L refs G h₀ h dom₀ dom done [] (a :: rest) t fun x => [a].count x + out x) :
    ∃ h' dom' done' rest', visit L fuel a h = some (rest'.head?, h') ∧
      rest'.length ≤ rest.length ∧
      Swept L refs G h₀ h' dom₀ dom' done' [] rest' t
        fun x => rest'.head?.toList.count x + out x := by
  have inDom : a ∈ dom := (s.mem a (by simp)).1
  obtain ⟨c₀, c, -, cell, -⟩ := s.kept a inDom
  have releases : Releases L refs G fuel (release L fuel) := release_releases lawful fuel
  have small {d : Finset Nat} (sub : d ⊆ dom₀) : d.card < fuel :=
    Nat.lt_of_le_of_lt (Finset.card_le_card sub) enough
  have s₁ := s.finalise lawful cell
  obtain ⟨h₂, dom₂, run₂, freed₂, ready₂⟩ :=
    performAll_ends lawful releases _ (lawful.covered c.obj).1
      (fun b value mem => s.ready.aims a inDom c cell b value (by simp [mem])) (small s.sub) s₁.ready
  have s₂ := s₁.freed freed₂ ready₂
  have inDom₂ : a ∈ dom₂ := s₂.ready.counted.mem_of_pos (by rw [List.count_singleton_self]; omega)
  rw [stay_singleton inDom₂] at s₂
  have nx : h₂.links.next a = (stay rest dom dom₂).head? := by
    have left := s₂.ready.chained.left
    rw [List.append_assoc] at left
    exact left.next_eq
  obtain ⟨h₃, run₃, freed₃, -, -, ready₃⟩ :=
    addRefTo_ready (h₂.links.next a) s₂.ready fun b mem =>
      (s₂.mem b (by simp [List.mem_of_mem_head? (nx ▸ mem)])).1
  rw [nx] at ready₃
  have s₃ := s₂.freed freed₃ (by rwa [stay_self])
  simp only [stay_self] at s₃
  have held : Ready L refs G h₃ dom₂ _ t fun x =>
      [a].count x + ((stay rest dom dom₂).head?.toList.count x + out x) :=
    ready₃.congr fun x => by omega
  obtain ⟨h₄, dom₄, run₄, freed₄, ready₄⟩ := drop_ends releases (small s₃.sub) held
  have s₄ := s₃.freed freed₄ ready₄
  have first : (stay (stay rest dom dom₂) dom₂ dom₄).head? = (stay rest dom dom₂).head? :=
    head_stay fun x mem => ready₄.counted.mem_of_pos <| by
      rw [Option.mem_def.mp mem, Option.toList_some, List.count_singleton_self]
      omega
  refine ⟨h₄, dom₄, _, _, ?_, ?_, first ▸ s₄.next ?_⟩
  · simp only [visit, cell, run₂, run₃, run₄, Option.bind_eq_bind, Option.bind_some]
    rw [first, nx]
    rfl
  · exact (List.length_filter_le _ _).trans (List.length_filter_le _ _)
  · intro x mem
    obtain rfl := List.mem_singleton.mp (List.mem_of_mem_filter mem)
    obtain ⟨c₃, cell₃, count⟩ := s₃.ready.counted.count x inDom₂
    obtain ⟨c₃', c₄, cell₃', cell₄, -, -, pos⟩ := freed₄.kept x ((mem_stay inDom₂).mp mem).2
    obtain rfl := Option.some.inj (cell₃.symm.trans cell₃')
    refine ⟨c₄, cell₄, pos ?_ ?_⟩
    · simp only [List.count_singleton_self] at count
      omega
    · have unmarked := (s₃.mem x (by simp)).2
      simpa [Heap.unmarked, cell₃] using unmarked

theorem sweep_swept {fuel : Nat} (lawful : L.Lawful refs) (enough : dom₀.card < fuel)
    (steps : Nat) (fits : rest.length ≤ steps)
    (s : Swept L refs G h₀ h dom₀ dom done [] rest t fun x => rest.head?.toList.count x + out x) :
    ∃ n h' dom' done', sweep L fuel steps rest.head? h = some (n, h') ∧
      Swept L refs G h₀ h' dom₀ dom' done' [] [] t out := by
  induction steps generalizing h dom done rest with
  | zero =>
    obtain rfl := List.length_eq_zero_iff.mp (Nat.le_zero.mp fits)
    exact ⟨0, h, dom, done, rfl, by simpa using s⟩
  | succ steps ih =>
    cases rest with
    | nil => exact ⟨0, h, dom, done, rfl, by simpa using s⟩
    | cons a rest =>
      obtain ⟨h₁, dom₁, done₁, rest₁, run₁, shorter, s₁⟩ := visit_swept lawful enough s
      obtain ⟨n, h', dom', done', run, s'⟩ :=
        ih (shorter.trans (Nat.le_of_succ_le_succ fits)) s₁
      refine ⟨n + 1, h', dom', done', ?_, s'⟩
      simp only [List.head?_cons, sweep, run₁, run, Option.bind_eq_bind, Option.bind_some]
      rfl

end Collector
