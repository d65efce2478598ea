import Lavril.Relocation

/-!
# Closures that share a variable

Closures that capture the same slot have the same outer until it is closed, and
a closed outer keeps the value of its slot. The pointers do what `LVVM.findOuter`
and `LVVM.closeOuters` do with the list of addresses and slots.
-/

namespace Lavril

namespace OuterVM

variable {v v' : OuterVM} {os : List (Nat × Int)} {slot : Int} {p : Nat}

/-- An outer that was closed with that value, unless it has been deleted. -/
structure ClosedWith (v : OuterVM) (p : Nat) (value : LVObject) : Prop where
  content : ∀ o, v.outers p = some o → o.valptr = .value ∧ o.value = value
  used : p < v.next

theorem Disciplined.notMem {value : LVObject} (d : v.Disciplined os)
    (closed : v.ClosedWith p value) : p ∉ os.map Prod.fst := by
  intro mem
  obtain ⟨x, inside, rfl⟩ := List.mem_map.mp mem
  obtain ⟨o, found, -, points⟩ := d.isOpen x inside
  rw [(closed.content o found).1] at points
  cases points

/-- What is the same of an outer that is neither closed nor set. -/
def SameContent (v v' : OuterVM) (p : Nat) : Prop :=
  ∀ o', v'.outers p = some o' →
    ∃ o, v.outers p = some o ∧ o'.valptr = o.valptr ∧ o'.value = o.value

theorem ClosedWith.of_content {value : LVObject} (closed : v.ClosedWith p value)
    (used : v.next ≤ v'.next) (kept : SameContent v v' p) : v'.ClosedWith p value where
  content o' found' := by
    obtain ⟨o, found, valptr, eq⟩ := kept o' found'
    obtain ⟨own, same⟩ := closed.content o found
    exact ⟨valptr.trans own, eq.trans same⟩
  used := closed.used.trans_le used

theorem ClosedWith.same {value : LVObject} (closed : v.ClosedWith p value)
    (used : v.next ≤ v'.next) (kept : v'.outers p = v.outers p) : v'.ClosedWith p value :=
  closed.of_content used fun o' found' => ⟨o', kept ▸ found', rfl, rfl⟩

theorem insertOuter_content {stackindex : Int} {prev : Option Nat} (ne : p ≠ v.next) :
    SameContent v (v.insertOuter stackindex prev).2 p := by
  intro o' found
  unfold insertOuter at found
  cases prev with
  | none =>
    simp only [Function.update_of_ne ne] at found
    exact ⟨o', found, rfl, rfl⟩
  | some q =>
    by_cases eq : p = q
    · subst eq
      simp only [Function.update_self] at found
      obtain ⟨o, old, rfl⟩ := Option.map_eq_some_iff.mp found
      exact ⟨o, old, rfl, rfl⟩
    · simp only [Function.update_of_ne eq, Function.update_of_ne ne] at found
      exact ⟨o', found, rfl, rfl⟩

theorem hold_content (q : Nat) : SameContent v (v.hold q) p := by
  intro o' found
  by_cases eq : p = q
  · subst eq
    simp only [hold, Function.update_self] at found
    obtain ⟨o, old, rfl⟩ := Option.map_eq_some_iff.mp found
    exact ⟨o, old, rfl, rfl⟩
  · simp only [hold, Function.update_of_ne eq] at found
    exact ⟨o', found, rfl, rfl⟩

theorem release_content (q : Nat) : SameContent v (v.release q) p := by
  intro o' found
  by_cases eq : p = q
  · subst eq
    simp only [release, Function.update_self] at found
    obtain ⟨o, old, kept⟩ := Option.bind_eq_some_iff.mp found
    split at kept
    · cases kept
    · cases kept
      exact ⟨o, old, rfl, rfl⟩
  · simp only [release, Function.update_of_ne eq] at found
    exact ⟨o', found, rfl, rfl⟩

theorem insertOuter_next {stackindex : Int} {prev : Option Nat} :
    (v.insertOuter stackindex prev).2.next = v.next + 1 := by
  cases prev <;> rfl

/-- A closed outer has the same value after a step that does not set it. -/
theorem Step.closed {ev : Event} {value : LVObject} (step : Step ev v v') (d : v.Disciplined os)
    (closed : v.ClosedWith p value) (other : ev ≠ .setOuter p) : v'.ClosedWith p value := by
  have notMem := d.notMem closed
  have ne : p ≠ v.next := closed.used.ne
  cases step with
  | @findOuter _ _ slot q run =>
    by_cases captured : ∃ x ∈ os, x.2 = slot
    · obtain ⟨⟨r, _⟩, mem, rfl⟩ := captured
      rw [d.findOuter_found mem] at run
      cases run
      exact closed.of_content (le_refl _) (hold_content _)
    · have absent : ∀ x ∈ os, x.2 ≠ slot := fun x mem eq => captured ⟨x, mem, eq⟩
      obtain ⟨hi, lo, rfl, higher, lower, found⟩ := d.findOuter_new absent
      rw [found] at run
      cases run
      have next : (v.insertOuter (v.addr slot) (hi.map Prod.fst).getLast?).2.next = v.next + 1 :=
        insertOuter_next
      have grown : v.next ≤ (v.insertOuter (v.addr slot) (hi.map Prod.fst).getLast?).2.next := by
        omega
      exact closed.of_content grown (insertOuter_content ne)
  | @closeOuters _ _ slot run =>
    obtain ⟨w, eq, closes⟩ := d.closeOuters slot
    rw [eq] at run
    cases run
    refine closed.same ?_ (closes.kept p fun x mem eq => ?_)
    · rw [closes.same]
    · exact absurd (eq ▸ List.mem_map_of_mem mem) notMem
  | setOuter q o =>
    have apart : p ≠ q := by
      rintro rfl
      exact other rfl
    unfold setOuterValue
    split
    · exact closed.same (le_refl _) rfl
    · exact closed.same (le_refl _) (Function.update_of_ne apart _ _)
    · exact closed
  | hold q held => exact closed.of_content (le_refl _) (hold_content q)
  | release q held => exact closed.of_content (le_refl _) (release_content q)
  | store memory top nmetamethodscall next le => exact closed.same le rfl
  | @enterFrame _ _ newtop vals run =>
    obtain ⟨w, eq, -, next, kept⟩ := d.enterFrame newtop vals
    rw [eq] at run
    cases run
    exact closed.same next.ge (kept p notMem)
  | lv_reservestack nsize vals =>
    rcases @reservestack_eq v nsize vals with same | ⟨-, -, eq⟩
    · rwa [same]
    · rw [eq]
      exact closed.same (le_refl _) rfl

theorem Runs.closed {Allowed : OuterVM → Event → Prop} {value : LVObject}
    (runs : Runs Allowed v v') (d : v.Disciplined os) (closed : v.ClosedWith p value)
    (allowed : ∀ w ev, Allowed w ev → w.Keeps ev ∧ ev ≠ .setOuter p) : v'.ClosedWith p value := by
  induction runs with
  | refl => exact closed
  | tail runs allows step ih =>
    obtain ⟨os', d'⟩ := runs.disciplined d fun w ev h => (allowed w ev h).1
    exact step.closed d' ih (allowed _ _ allows).2

/-- An outer stays open until `CloseOuters` reaches its slot. -/
theorem Runs.stays_open {Allowed : OuterVM → Event → Prop} (runs : Runs Allowed v v')
    (d : v.Disciplined os) (mem : (p, slot) ∈ os)
    (allowed : ∀ w ev, Allowed w ev → w.Keeps ev ∧ ∀ s, ev = .closeOuters s → slot < s) :
    ∃ os', v'.Disciplined os' ∧ (p, slot) ∈ os' := by
  induction runs with
  | refl => exact ⟨os, d, mem⟩
  | tail runs allows step ih =>
    obtain ⟨os', d', mem'⟩ := ih
    obtain ⟨keeps, above⟩ := allowed _ _ allows
    obtain ⟨os'', d'', kept⟩ := step.disciplined d' keeps
    exact ⟨os'', d'', kept _ mem' above⟩

/-- The open outers, in the order of the list, with the slots they point to. -/
structure Opens (v : OuterVM) (os : List (Nat × Int)) : Prop where
  linked : Linked v.nextOf v.openouters (os.map Prod.fst)
  points : ∀ x ∈ os, v.valptr x.1 = some (.stack (v.addr x.2))

theorem Disciplined.opens (d : v.Disciplined os) : v.Opens os :=
  ⟨d.linked, fun _ mem => d.valptr mem⟩

/-- What `FindOuter` finds for a slot, and what it finds again. -/
structure Shares (v : OuterVM) (os : List (Nat × Int)) (slot : Int) (p : Nat) (v' : OuterVM) :
    Prop where
  run : v.findOuter (v.addr slot) = some (p, v')
  found : ∀ q, (q, slot) ∈ os → p = q
  shared : ∀ w, Runs (fun u ev => u.Keeps ev ∧ ∀ s, ev = .closeOuters s → slot < s) v' w →
    ∃ w', w.findOuter (w.addr slot) = some (p, w')

/-- What `CloseOuters` leaves open, and the values that the others have from then
on, until they are set through the outers. -/
structure ClosesOnly (v : OuterVM) (os : List (Nat × Int)) (slot : Int) (v' : OuterVM) : Prop where
  run : v.closeOuters (v.addr slot) = some v'
  opens : v'.Opens (os.filter (·.2 < slot))
  value : ∀ x ∈ os, slot ≤ x.2 →
    ∀ w o, Runs (fun u ev => u.Keeps ev ∧ ev ≠ .setOuter x.1) v' w → w.outers x.1 = some o →
      o.valptr = .value ∧ o.value = v.memory (v.addr x.2)

theorem Disciplined.shares (d : v.Disciplined os) (slot : Int) :
    ∃ p v', Shares v os slot p v' := by
  by_cases captured : ∃ x ∈ os, x.2 = slot
  · obtain ⟨⟨p, _⟩, mem, rfl⟩ := captured
    refine ⟨p, v.hold p, d.findOuter_found mem, fun q memQ => ?_, fun w runs => ?_⟩
    · have same := d.eq_of_slot mem memQ rfl
      exact congrArg Prod.fst same
    · obtain ⟨os', d', mem'⟩ := runs.stays_open (d.hold p) mem fun _ _ h => h
      exact ⟨_, d'.findOuter_found mem'⟩
  · have absent : ∀ x ∈ os, x.2 ≠ slot := fun x mem eq => captured ⟨x, mem, eq⟩
    obtain ⟨hi, lo, rfl, higher, lower, found⟩ := d.findOuter_new absent
    refine ⟨_, _, found, fun q memQ => absurd rfl (absent _ memQ), fun w runs => ?_⟩
    have inside : (v.next, slot) ∈ hi ++ (v.next, slot) :: lo := by simp
    obtain ⟨os', d', mem'⟩ := runs.stays_open (d.insertOuter higher lower) inside fun _ _ h => h
    exact ⟨_, d'.findOuter_found mem'⟩

theorem Disciplined.closesOnly (d : v.Disciplined os) (slot : Int) :
    ∃ v', ClosesOnly v os slot v' := by
  obtain ⟨v', run, closes⟩ := d.closeOuters slot
  refine ⟨v', run, closes.disciplined.opens, fun x mem reached w o runs found => ?_⟩
  have closed : v'.ClosedWith x.1 (v.memory (v.addr x.2)) := by
    constructor
    · intro o' found'
      rw [closes.closes x mem reached] at found'
      obtain ⟨o, -, eq⟩ := Option.bind_eq_some_iff.mp found'
      simp only [LVOuter.close] at eq
      split at eq
      · cases eq
      · cases eq
        exact ⟨rfl, rfl⟩
    · rw [closes.same]
      exact d.lt_next (List.mem_map_of_mem mem)
  exact (runs.closed closes.disciplined closed fun _ _ h => h).content o found

/-- The machine `w` has the slots and the open outers of `v`. -/
structure Represents (v : OuterVM) (os : List (Nat × Int)) (w : LVVM) : Prop where
  disciplined : v.Disciplined os
  openouters : w.openouters = os
  stack : ∀ s, w.stack s = v.memory (v.addr s)
  isOpen : ∀ x ∈ os, w.heap x.1 = some (.outer none)
  closed : ∀ p o, v.outers p = some o → p ∉ os.map Prod.fst → w.heap p = some (.outer (some o.value))
  next : w.next = v.next

theorem takeWhile_split {hi lo : List (Nat × Int)} (higher : ∀ x ∈ hi, slot < x.2)
    (lower : ∀ x ∈ lo, x.2 < slot) :
    (hi ++ lo).takeWhile (slot ≤ ·.2) = hi ∧ (hi ++ lo).dropWhile (slot ≤ ·.2) = lo := by
  have above : ∀ x ∈ hi, decide (slot ≤ x.2) = true := by
    intro x mem
    exact decide_eq_true (higher x mem).le
  have first : lo.takeWhile (slot ≤ ·.2) = [] ∧ lo.dropWhile (slot ≤ ·.2) = lo := by
    cases lo with
    | nil => exact ⟨rfl, rfl⟩
    | cons x lo =>
      have below := lower x List.mem_cons_self
      have stop : ¬ decide (slot ≤ x.2) = true := by
        simp only [decide_eq_true_eq]
        omega
      exact ⟨List.takeWhile_cons_of_neg stop, List.dropWhile_cons_of_neg stop⟩
  rw [List.takeWhile_append_of_pos above, List.dropWhile_append_of_pos above, first.1, first.2]
  exact ⟨List.append_nil hi, rfl⟩

theorem dropWhile_eq_filter (sorted : os.Pairwise fun x y => y.2 < x.2) :
    os.dropWhile (slot ≤ ·.2) = os.filter (·.2 < slot) := by
  induction os with
  | nil => rfl
  | cons x os ih =>
    obtain ⟨below, sorted⟩ := List.pairwise_cons.mp sorted
    by_cases reached : slot ≤ x.2
    · rw [List.dropWhile_cons_of_pos (by simpa using reached),
        List.filter_cons_of_neg (by simpa using reached)]
      exact ih sorted
    · rw [List.dropWhile_cons_of_neg (by simpa using reached), eq_comm, List.filter_eq_self]
      intro y mem
      rcases List.mem_cons.mp mem with rfl | mem
      · simpa using reached
      · have := below y mem
        simp only [decide_eq_true_eq]
        omega

/-- The outers whose values matter are the same apart from their references. -/
theorem Represents.content {w : LVVM} (rep : Represents v os w) (d : v'.Disciplined os)
    (memory : ∀ s, v'.memory (v'.addr s) = v.memory (v.addr s)) (next : v'.next = v.next)
    (same : ∀ p, SameContent v v' p) : Represents v' os w where
  disciplined := d
  openouters := rep.openouters
  stack s := (rep.stack s).trans (memory s).symm
  isOpen := rep.isOpen
  closed p o found notMem := by
    obtain ⟨o', found', -, value⟩ := same p o found
    rw [rep.closed p o' found' notMem, value]
  next := rep.next.trans next.symm

/-- `FindOuter` on the pointers and on the list. -/
theorem Represents.findOuter {w : LVVM} (rep : Represents v os w)
    (run : v.findOuter (v.addr slot) = some (p, v')) :
    (w.findOuter slot).1 = .ofAddress .OT_OUTER p ∧ ∃ os', Represents v' os' (w.findOuter slot).2 := by
  have d := rep.disciplined
  by_cases captured : ∃ x ∈ os, x.2 = slot
  · obtain ⟨⟨q, _⟩, mem, rfl⟩ := captured
    rw [d.findOuter_found mem] at run
    cases run
    have inside := LVVM.mem_takeWhile_of_sorted d.sorted mem (le_refl _)
    have held : Represents (v.hold p) os w :=
      rep.content (d.hold p) (fun _ => rfl) rfl fun q => hold_content p
    simp only [LVVM.findOuter, rep.openouters]
    split
    · rename_i r s found
      have same := d.eq_of_slot ((List.takeWhile_subset _) (List.mem_of_find?_eq_some found)) mem
        (by simpa using List.find?_some found)
      obtain ⟨rfl, -⟩ := Prod.mk.inj same
      exact ⟨rfl, os, held⟩
    · rename_i absent
      rw [List.find?_eq_none] at absent
      exact absurd (decide_eq_true rfl) (absent _ inside)
  · have absent : ∀ x ∈ os, x.2 ≠ slot := fun x mem eq => captured ⟨x, mem, eq⟩
    obtain ⟨hi, lo, rfl, higher, lower, found⟩ := d.findOuter_new absent
    rw [found, Option.some.injEq] at run
    have first : v.next = p := congrArg Prod.fst run
    have state : (v.insertOuter (v.addr slot) (hi.map Prod.fst).getLast?).2 = v' :=
      congrArg Prod.snd run
    subst first state
    obtain ⟨above, below⟩ := takeWhile_split higher lower
    have none : (hi.find? (·.2 = slot)) = none := by
      rw [List.find?_eq_none]
      intro x mem
      simpa using absent x (List.mem_append_left lo mem)
    have made := d.insertOuter higher lower
    simp only [LVVM.findOuter, rep.openouters, above, below, none, LVVM.create, rep.next]
    refine ⟨trivial, _, made, rfl, fun s => ?_, fun x mem => ?_, fun q o found notMem => ?_, ?_⟩
    · rw [rep.stack]
      cases (hi.map Prod.fst).getLast? <;> rfl
    · by_cases eq : x.1 = v.next
      · simp only [eq, Function.update_self]
      · have old : x ∈ hi ++ lo := by
          simp only [List.mem_append, List.mem_cons] at mem ⊢
          rcases mem with mem | rfl | mem
          · exact .inl mem
          · exact absurd rfl eq
          · exact .inr mem
        simp only [Function.update_of_ne eq]
        exact rep.isOpen x old
    · simp only [List.map_append, List.map_cons, List.mem_append, List.mem_cons, not_or] at notMem
      obtain ⟨o', found', -, value⟩ := insertOuter_content notMem.2.1 o found
      simp only [Function.update_of_ne notMem.2.1]
      rw [value]
      refine rep.closed q o' found' ?_
      rw [List.map_append, List.mem_append, not_or]
      exact ⟨notMem.1, notMem.2.2⟩
    · exact insertOuter_next.symm

/-- `CloseOuters` on the pointers and on the list. -/
theorem Represents.closeOuters {w : LVVM} (rep : Represents v os w) (wf : w.WF)
    (run : v.closeOuters (v.addr slot) = some v') : ∃ os', Represents v' os' (w.closeOuters slot) := by
  have d := rep.disciplined
  obtain ⟨u, eq, closes⟩ := d.closeOuters slot
  rw [eq] at run
  cases run
  have same := closes.same
  have left : (w.closeOuters slot).openouters = os.filter (·.2 < slot) := by
    simp only [LVVM.closeOuters, rep.openouters]
    exact dropWhile_eq_filter d.sorted
  refine ⟨_, closes.disciplined, left, fun s => ?_, fun x mem => ?_, fun p o found notMem => ?_, ?_⟩
  · rw [same]
    exact rep.stack s
  · obtain ⟨inside, below⟩ := List.mem_filter.mp mem
    have isOpen : x ∈ w.openouters := rep.openouters ▸ inside
    rw [wf.open_heap isOpen (by simpa using below)]
    exact rep.isOpen x inside
  · by_cases inside : p ∈ os.map Prod.fst
    · obtain ⟨x, mem, rfl⟩ := List.mem_map.mp inside
      have reached : slot ≤ x.2 := by
        by_contra below
        refine notMem (List.mem_map_of_mem (List.mem_filter.mpr ⟨mem, ?_⟩))
        simpa using below
      have isOpen : x ∈ w.openouters := rep.openouters ▸ mem
      rw [wf.closeOuters_mem isOpen reached, rep.stack]
      rw [closes.closes x mem reached] at found
      obtain ⟨o', -, closed⟩ := Option.bind_eq_some_iff.mp found
      simp only [LVOuter.close] at closed
      split at closed
      · cases closed
      · cases closed
        rfl
    · have kept : v'.outers p = v.outers p := closes.kept p fun x mem eq =>
        absurd (eq ▸ List.mem_map_of_mem mem) inside
      have notOpen : p ∉ w.openouters.map Prod.fst := rep.openouters ▸ inside
      rw [LVVM.closeOuters_notMem notOpen]
      exact rep.closed p o (kept ▸ found) inside
  · rw [same]
    exact rep.next

end OuterVM

end Lavril
