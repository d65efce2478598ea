import Lavril.OpenOuters

/-!
# Moving the stack

`EnterFrame` and `lv_reservestack` make the stack larger, which may move it.
`Step` is what the machine does to captured variables and to the stack.
-/

namespace Lavril

namespace OuterVM

variable {v v' : OuterVM} {os : List (Nat × Int)} {slot : Int} {p : Nat}

/-- What `RelocateOuters` makes of an outer. -/
def relocated (v : OuterVM) (o : LVOuter) : LVOuter := { o with valptr := .stack (v.addr o.idx) }

theorem relocateLoop_spec {l : List Nat} {head : Option Nat} {fuel : Nat}
    (linked : Linked v.nextOf head l) (alive : ∀ p ∈ l, ∃ o, v.outers p = some o)
    (lt : l.length < fuel) : ∃ outers,
      relocateLoop fuel head v = some { v with outers := outers } ∧
      (∀ p ∈ l, outers p = (v.outers p).map v.relocated) ∧ ∀ p ∉ l, outers p = v.outers p := by
  induction l generalizing head v fuel with
  | nil =>
    obtain ⟨fuel, rfl⟩ := Nat.exists_eq_succ_of_ne_zero (by omega : fuel ≠ 0)
    have empty : head = none := linked
    exact ⟨v.outers, by rw [empty, relocateLoop], List.forall_mem_nil _, fun _ _ => rfl⟩
  | cons q l ih =>
    rw [List.length_cons] at lt
    obtain ⟨fuel, rfl⟩ := Nat.exists_eq_succ_of_ne_zero (by omega : fuel ≠ 0)
    have nodup := List.nodup_cons.mp linked.nodup
    obtain ⟨first, rest⟩ := linked
    obtain ⟨o, found⟩ := alive q List.mem_cons_self
    have next : v.nextOf q = o.next := by simp [nextOf, found]
    have others : ∀ p ∈ l, p ≠ q := by
      rintro p mem rfl
      exact nodup.1 mem
    set w : OuterVM := { v with outers := Function.update v.outers q (some (v.relocated o)) }
    have linked' : Linked w.nextOf o.next l := by
      rw [← next]
      refine rest.congr fun p mem => ?_
      simp only [nextOf, w, Function.update_of_ne (others p mem)]
    have alive' : ∀ p ∈ l, ∃ o, w.outers p = some o := by
      intro p mem
      obtain ⟨o', found'⟩ := alive p (List.mem_cons_of_mem q mem)
      exact ⟨o', by simpa only [w, Function.update_of_ne (others p mem)] using found'⟩
    have enough : l.length < fuel := by omega
    obtain ⟨outers, run, moved, kept⟩ := ih linked' alive' enough
    refine ⟨outers, ?_, fun p mem => ?_, fun p notMem => ?_⟩
    · rw [first, relocateLoop, found]
      exact run
    · rcases List.mem_cons.mp mem with rfl | mem
      · rw [kept p nodup.1, found]
        exact Function.update_self ..
      · rw [moved p mem]
        simp only [w, Function.update_of_ne (others p mem)]
        rfl
    · rw [List.mem_cons, not_or] at notMem
      rw [kept p notMem.2]
      exact Function.update_of_ne notMem.1 _ _

namespace Disciplined

/-- The storage has been moved and the outers with it. -/
theorem relocateOuters {vals : Int} {size allocated top : Nat} {memory : Int → LVObject}
    (d : v.Disciplined os) : ∃ w, OuterVM.relocateOuters
      { v with vals := vals, size := size, allocated := allocated, memory := memory, top := top } =
        some w ∧ w.Disciplined os ∧ w.next = v.next ∧
      ∀ p ∉ os.map Prod.fst, w.outers p = v.outers p := by
  set m : OuterVM :=
    { v with vals := vals, size := size, allocated := allocated, memory := memory, top := top }
  have alive : ∀ p ∈ os.map Prod.fst, ∃ o, m.outers p = some o := by
    intro p mem
    obtain ⟨x, inside, rfl⟩ := List.mem_map.mp mem
    obtain ⟨o, found, -⟩ := d.isOpen x inside
    exact ⟨o, found⟩
  have linked : Linked m.nextOf m.openouters (os.map Prod.fst) := d.linked
  have enough : (os.map Prod.fst).length < m.next + 1 := by
    have := d.length_le
    simp only [m]
    omega
  obtain ⟨outers, run, moved, kept⟩ := relocateLoop_spec linked alive enough
  have same : ∀ p o, outers p = some o → ∃ o', v.outers p = some o' ∧ o.idx = o'.idx ∧
      o.next = o'.next ∧ o.uiRef = o'.uiRef ∧ (p ∉ os.map Prod.fst → o.valptr = o'.valptr) := by
    intro p o found
    by_cases mem : p ∈ os.map Prod.fst
    · rw [moved p mem] at found
      obtain ⟨o', found', rfl⟩ := Option.map_eq_some_iff.mp found
      exact ⟨o', found', rfl, rfl, rfl, fun notMem => absurd mem notMem⟩
    · rw [kept p mem] at found
      exact ⟨o, found, rfl, rfl, rfl, fun _ => rfl⟩
  refine ⟨{ m with outers := outers }, run, ?_, rfl, kept⟩
  constructor
  · refine linked.congr fun p mem => ?_
    simp only [nextOf, moved p mem, Option.bind_map]
    rfl
  · intro x mem
    obtain ⟨o, found, idx, -⟩ := d.isOpen x mem
    refine ⟨m.relocated o, ?_, idx, ?_⟩
    · simp only [moved x.1 (List.mem_map_of_mem mem), m, found, Option.map_some]
    · simp only [relocated, idx, addr]
  · exact d.sorted
  · intro p o found notMem
    obtain ⟨o', found', -, -, -, valptr⟩ := same p o found
    exact (valptr notMem).trans (d.closed p o' found' notMem)
  · intro p o found
    obtain ⟨o', found', -, -, uiRef, -⟩ := same p o found
    exact uiRef.trans (d.counted p o' found')
  · intro p le
    cases found : outers p with
    | none => exact found
    | some o =>
      obtain ⟨o', found', -⟩ := same p o found
      rw [d.fresh p le] at found'
      cases found'

/-- Steps that leave the outers alone. -/
theorem store {memory : Int → LVObject} {size allocated top nmetamethodscall next : Nat}
    (d : v.Disciplined os) (le : v.next ≤ next) :
    { v with
      memory := memory, size := size, allocated := allocated, top := top
      nmetamethodscall := nmetamethodscall, next := next }.Disciplined os :=
  ⟨d.linked, d.isOpen, d.sorted, d.closed, d.counted, fun p above => d.fresh p (le.trans above)⟩

theorem enterFrame (d : v.Disciplined os) (newtop : Nat) (vals : Int) :
    ∃ v', v.enterFrame newtop vals = some v' ∧ v'.Disciplined os ∧ v'.next = v.next ∧
      ∀ p ∉ os.map Prod.fst, v'.outers p = v.outers p := by
  have entered : { v with top := newtop }.Disciplined os := d.store (le_refl _)
  unfold OuterVM.enterFrame
  split
  · split
    · exact ⟨_, rfl, entered, rfl, fun _ _ => rfl⟩
    · exact d.relocateOuters
  · exact ⟨_, rfl, entered, rfl, fun _ _ => rfl⟩

end Disciplined

/-! ## Runs -/

inductive Event where
  | findOuter (slot : Int) (p : Nat)
  | closeOuters (slot : Int)
  | setOuter (p : Nat)
  | lv_reservestack (nsize : Nat) (vals : Int)
  | other

/-- A step of the machine. The slots of the stack may change in any way, objects
of other kinds be created, and references to outers be copied and dropped. -/
inductive Step : Event → OuterVM → OuterVM → Prop
  | findOuter {v v' : OuterVM} {slot p} (run : v.findOuter (v.addr slot) = some (p, v')) :
      Step (.findOuter slot p) v v'
  | closeOuters {v v' : OuterVM} {slot} (run : v.closeOuters (v.addr slot) = some v') :
      Step (.closeOuters slot) v v'
  | setOuter {v : OuterVM} (p : Nat) (o : LVObject) : Step (.setOuter p) v (v.setOuterValue p o)
  | hold {v : OuterVM} (p : Nat) (held : 0 < v.held p) : Step .other v (v.hold p)
  | release {v : OuterVM} (p : Nat) (held : 0 < v.held p) : Step .other v (v.release p)
  | store {v : OuterVM} (memory : Int → LVObject) (top nmetamethodscall next : Nat) (le : v.next ≤ next) :
      Step .other v { v with
        memory := memory, top := top, nmetamethodscall := nmetamethodscall, next := next }
  | enterFrame {v v' : OuterVM} {newtop vals} (run : v.enterFrame newtop vals = some v') : Step .other v v'
  | lv_reservestack {v : OuterVM} (nsize : Nat) (vals : Int) :
      Step (.lv_reservestack nsize vals) v (v.lv_reservestack nsize vals)

inductive Runs (Allowed : OuterVM → Event → Prop) : OuterVM → OuterVM → Prop
  | refl {v : OuterVM} : Runs Allowed v v
  | tail {v w w' : OuterVM} {ev} (runs : Runs Allowed v w) (allowed : Allowed w ev) (step : Step ev w w') :
      Runs Allowed v w'

/-- No variable is captured yet. -/
structure Initial (v : OuterVM) : Prop where
  openouters : v.openouters = none
  outers : ∀ p, v.outers p = none

/-- `lv_reservestack` moves the stack while there are open outers. -/
structure Strands (v : OuterVM) (nsize : Nat) (vals : Int) : Prop where
  larger : v.allocated < v.top + nsize
  grows : v.size < v.top + nsize
  outside : v.nmetamethodscall = 0
  moved : vals ≠ v.vals
  isOpen : v.openouters ≠ none

/-- An event that does not do so. -/
def Keeps (v : OuterVM) : Event → Prop
  | .lv_reservestack nsize vals => ¬ v.Strands nsize vals
  | _ => True

/-- Every open outer points to its slot. -/
def Located (v : OuterVM) : Prop :=
  ∃ l, Linked v.nextOf v.openouters l ∧
    ∀ p ∈ l, ∃ o, v.outers p = some o ∧ o.valptr = .stack (v.addr o.idx)

theorem Disciplined.located (d : v.Disciplined os) : v.Located := by
  refine ⟨os.map Prod.fst, d.linked, fun p mem => ?_⟩
  obtain ⟨x, inside, rfl⟩ := List.mem_map.mp mem
  obtain ⟨o, found, idx, points⟩ := d.isOpen x inside
  exact ⟨o, found, idx ▸ points⟩

theorem Initial.disciplined (initial : v.Initial) : v.Disciplined [] where
  linked := initial.openouters
  isOpen := List.forall_mem_nil _
  sorted := .nil
  closed p o found := by
    rw [initial.outers p] at found
    cases found
  counted p o found := by
    rw [initial.outers p] at found
    cases found
  fresh p _ := initial.outers p

theorem reservestack_eq (nsize : Nat) (vals : Int) :
    v.lv_reservestack nsize vals = v ∨
      v.size < v.top + nsize ∧ v.nmetamethodscall = 0 ∧
      v.lv_reservestack nsize vals = v.resize (v.top + nsize) vals := by
  unfold lv_reservestack
  split
  · rename_i grows
    split
    · exact .inl rfl
    · rename_i outside
      have total : v.size + (v.top + nsize - v.size) = v.top + nsize := by omega
      exact .inr ⟨by omega, by omega, by rw [total]⟩
  · exact .inl rfl

/-- Storage that stays where it is. -/
theorem Disciplined.resize (d : v.Disciplined os) {newsize : Nat} {vals : Int}
    (stays : v.allocated < newsize → vals = v.vals) : (v.resize newsize vals).Disciplined os := by
  have same : (if v.allocated < newsize then vals else v.vals) = v.vals := by
    split
    · exact stays ‹_›
    · rfl
  simp only [OuterVM.resize, same]
  exact d.store (le_refl _)

/-- Without open outers it may be moved. -/
theorem Disciplined.move (d : v.Disciplined []) (newsize : Nat) (vals : Int) :
    (v.resize newsize vals).Disciplined [] :=
  ⟨d.linked, List.forall_mem_nil _, .nil, d.closed, d.counted, d.fresh⟩

theorem Disciplined.nil_of_empty (d : v.Disciplined os) (empty : v.openouters = none) : os = [] := by
  have linked := d.linked
  rw [empty] at linked
  exact List.map_eq_nil_iff.mp (linked.unique rfl)

theorem Disciplined.lv_reservestack (d : v.Disciplined os) {nsize : Nat} {vals : Int}
    (keeps : ¬ v.Strands nsize vals) : (v.lv_reservestack nsize vals).Disciplined os := by
  rcases @reservestack_eq v nsize vals with same | ⟨grows, outside, eq⟩
  · rwa [same]
  · rw [eq]
    by_cases empty : v.openouters = none
    · obtain rfl := d.nil_of_empty empty
      exact d.move _ _
    · refine d.resize fun larger => ?_
      by_contra moved
      exact keeps ⟨larger, grows, outside, moved, empty⟩

/-- The open outers after a step, which only `CloseOuters` removes. -/
theorem Step.disciplined {ev : Event} (step : Step ev v v') (d : v.Disciplined os)
    (keeps : v.Keeps ev) : ∃ os', v'.Disciplined os' ∧
      ∀ x ∈ os, (∀ s, ev = .closeOuters s → x.2 < s) → x ∈ os' := by
  cases step with
  | @findOuter _ _ slot p run =>
    by_cases captured : ∃ x ∈ os, x.2 = slot
    · obtain ⟨⟨q, _⟩, mem, rfl⟩ := captured
      rw [d.findOuter_found mem] at run
      cases run
      exact ⟨os, d.hold _, fun x mem _ => mem⟩
    · have absent : ∀ x ∈ os, x.2 ≠ slot := fun x mem eq => captured ⟨x, mem, eq⟩
      obtain ⟨hi, lo, rfl, higher, lower, found⟩ := d.findOuter_new absent
      rw [found] at run
      cases run
      refine ⟨_, d.insertOuter higher lower, fun x mem _ => ?_⟩
      rw [List.mem_append] at mem ⊢
      exact mem.imp_right (List.mem_cons_of_mem _)
  | @closeOuters _ _ slot run =>
    obtain ⟨w, closed, closes⟩ := d.closeOuters slot
    rw [closed] at run
    cases run
    refine ⟨_, closes.disciplined, fun x mem below => ?_⟩
    rw [List.mem_filter]
    exact ⟨mem, by simpa using below slot rfl⟩
  | setOuter p o => exact ⟨os, d.setOuterValue p o, fun x mem _ => mem⟩
  | hold p held => exact ⟨os, d.hold p, fun x mem _ => mem⟩
  | release p held => exact ⟨os, d.release held, fun x mem _ => mem⟩
  | store memory top nmetamethodscall next le => exact ⟨os, d.store le, fun x mem _ => mem⟩
  | @enterFrame _ _ newtop vals run =>
    obtain ⟨w, entered, d', -⟩ := d.enterFrame newtop vals
    rw [entered] at run
    cases run
    exact ⟨os, d', fun x mem _ => mem⟩
  | lv_reservestack nsize vals => exact ⟨os, d.lv_reservestack keeps, fun x mem _ => mem⟩

theorem Runs.disciplined {Allowed : OuterVM → Event → Prop} (runs : Runs Allowed v v')
    (d : v.Disciplined os) (keeps : ∀ w ev, Allowed w ev → w.Keeps ev) :
    ∃ os', v'.Disciplined os' := by
  induction runs with
  | refl => exact ⟨os, d⟩
  | tail runs allowed step ih =>
    obtain ⟨os', d'⟩ := ih
    obtain ⟨os'', d'', -⟩ := step.disciplined d' (keeps _ _ allowed)
    exact ⟨os'', d''⟩

/-! ## Stranded outers -/

/-- When `lv_reservestack` moves the stack, the open outers point to where it was. -/
theorem Strands.not_located {nsize : Nat} {vals : Int} (strands : v.Strands nsize vals)
    (d : v.Disciplined os) : ¬ (v.lv_reservestack nsize vals).Located := by
  obtain ⟨larger, grows, outside, moved, isOpen⟩ := strands
  have eq : v.lv_reservestack nsize vals = v.resize (v.top + nsize) vals := by
    have total : v.size + (v.top + nsize - v.size) = v.top + nsize := by omega
    rw [OuterVM.lv_reservestack, if_pos grows, if_neg (not_not.mpr outside), total]
  rw [eq]
  rintro ⟨l, linked, points⟩
  cases os with
  | nil => exact isOpen d.linked
  | cons x os =>
    have first : v.openouters = some x.1 := d.linked.1
    obtain ⟨o, found, idx, valptr⟩ := d.isOpen x List.mem_cons_self
    have head : (v.resize (v.top + nsize) vals).openouters = some x.1 := first
    rw [head] at linked
    have mem : x.1 ∈ l := by
      cases l with
      | nil => cases linked
      | cons q l =>
        obtain rfl := Option.some.inj linked.1
        exact List.mem_cons_self
    obtain ⟨o', found', valptr'⟩ := points x.1 mem
    have same : o' = o := Option.some.inj (found'.symm.trans found)
    rw [same, valptr, ValPtr.stack.injEq] at valptr'
    simp only [addr, OuterVM.resize, if_pos larger, idx, OBJECT_SIZE] at valptr'
    omega

/-- Every open outer points to its slot of the stack where that is now, as long as
`lv_reservestack` does not move the stack under one; when it does, it does not. -/
theorem outers_located {v₀ : OuterVM} (initial : v₀.Initial) (runs : Runs Keeps v₀ v) :
    v.Located ∧ ∀ nsize vals, (v.lv_reservestack nsize vals).Located ↔ ¬ v.Strands nsize vals := by
  obtain ⟨os, d⟩ := runs.disciplined initial.disciplined fun _ _ keeps => keeps
  refine ⟨d.located, fun nsize vals => ?_⟩
  constructor
  · intro located strands
    exact strands.not_located d located
  · intro keeps
    exact (d.lv_reservestack keeps).located

/-- The stack of a running function, at address 4096. -/
def runningStack : OuterVM where
  vals := 4096
  size := 64
  allocated := 64
  memory _ := .integer 7
  top := 10
  nmetamethodscall := 0
  outers _ := none
  openouters := none
  next := 1
  held _ := 0

/-- A closure has captured the variable in slot 5. -/
theorem outers_located_runningStack : ∃ v', runningStack.Initial ∧
    Runs Keeps runningStack v' ∧ v'.Located ∧ (v'.lv_reservestack 1000 4096).Located := by
  have run : Runs Keeps runningStack _ := .tail .refl (by trivial) (@Step.findOuter _ _ 5 1 rfl)
  refine ⟨_, ⟨rfl, fun _ => rfl⟩, run, (outers_located ⟨rfl, fun _ => rfl⟩ run).1, ?_⟩
  refine ((outers_located ⟨rfl, fun _ => rfl⟩ run).2 1000 4096).mpr fun strands => ?_
  exact strands.moved rfl

/-- A native function that the closure calls reserves a thousand slots, and the
stack is moved to address 65536. -/
theorem reservestack_strands : runningStack.Initial ∧ ∃ v' v'',
    Runs (fun _ _ => True) runningStack v' ∧ v'.valptr 1 = some (.stack (v'.addr 5)) ∧
    Step (.lv_reservestack 1000 65536) v' v'' ∧ v''.valptr 1 = some (.stack (v'.addr 5)) ∧
    v''.addr 5 ≠ v'.addr 5 ∧ ¬ v''.Located := by
  have run : Runs (fun _ _ => True) runningStack _ :=
    .tail .refl trivial (@Step.findOuter _ _ 5 1 rfl)
  refine ⟨⟨rfl, fun _ => rfl⟩, _, _, run, rfl, .lv_reservestack 1000 65536, rfl, by decide, ?_⟩
  rintro ⟨l, linked, points⟩
  cases l with
  | nil => cases linked
  | cons q l =>
    obtain rfl := Option.some.inj linked.1
    obtain ⟨o, found, valptr⟩ := points _ List.mem_cons_self
    cases found
    exact absurd valptr (by decide)

end OuterVM

end Lavril
