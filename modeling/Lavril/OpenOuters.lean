import Lavril.Linked
import Lavril.Outers

/-!
# The list of open outers

Here an `LVOuter` is a node of a linked list with its pointer, and the stack is
storage at an address, which a vector may move when it grows. `release` is
`__ObjRelease`. `held` records the references from elsewhere, and `next` is the
first address not in use.
-/

namespace Lavril

/-- `_valptr`: a place in the storage of the stack, or the outer's own `_value`. -/
inductive ValPtr where
  | stack (address : Int)
  | value
  deriving DecidableEq

structure LVOuter where
  valptr : ValPtr
  idx : Int
  value : LVObject
  next : Option Nat
  uiRef : Nat

/-- An outer with the value it gets in `CloseOuters`, once the list has given up
its reference. -/
def LVOuter.close (o : LVOuter) (value : LVObject) : Option LVOuter :=
  if o.uiRef = 1 then none
  else some { o with valptr := .value, value := value, uiRef := o.uiRef - 1 }

/-- What is the same of an outer when it gets another one behind it. -/
def LVOuter.own (o : LVOuter) : ValPtr × Int × Nat := (o.valptr, o.idx, o.uiRef)

structure OuterVM where
  /-- `_stack._vals`. -/
  vals : Int
  /-- `_stack.size()`. -/
  size : Nat
  allocated : Nat
  memory : Int → LVObject
  top : Nat
  nmetamethodscall : Nat
  outers : Nat → Option LVOuter
  openouters : Option Nat
  next : Nat
  held : Nat → Nat

/-- `sizeof(LVObjectPtr)`. -/
def OBJECT_SIZE : Int := 16

namespace OuterVM

variable (v : OuterVM)

/-- `&_stack._vals[slot]`. -/
def addr (slot : Int) : Int := v.vals + OBJECT_SIZE * slot

def nextOf (p : Nat) : Option Nat := (v.outers p).bind (·.next)

def valptr (p : Nat) : Option ValPtr := (v.outers p).map (·.valptr)

/-- `p->_valptr >= stackindex`, for an outer that is open. -/
def reaches (stackindex : Int) (p : Nat) : Bool :=
  match v.valptr p with
  | some (.stack address) => decide (stackindex ≤ address)
  | _ => false

/-- Whether the loop of `FindOuter` goes no further than `p`. -/
def stops (stackindex : Int) (p : Nat) : Bool :=
  !v.reaches stackindex p || decide (v.valptr p = some (.stack stackindex))

/-- `*(p->_valptr)`. -/
def outerValue (p : Nat) : Option LVObject :=
  match v.outers p with
  | some ⟨.stack address, _, _, _, _⟩ => some (v.memory address)
  | some ⟨.value, _, value, _, _⟩ => some value
  | none => none

/-- `*(p->_valptr) = o`. -/
def setOuterValue (p : Nat) (o : LVObject) : OuterVM :=
  match v.outers p with
  | some ⟨.stack address, _, _, _, _⟩ => { v with memory := Function.update v.memory address o }
  | some otr => { v with outers := Function.update v.outers p (some { otr with value := o }) }
  | none => v

/-- Another reference to an outer. -/
def hold (p : Nat) : OuterVM :=
  { v with
    outers := Function.update v.outers p ((v.outers p).map fun o => { o with uiRef := o.uiRef + 1 })
    held := Function.update v.held p (v.held p + 1) }

/-- The outer that `FindOuter` creates: it has a reference from the list and one
from `target`. -/
def newOuter (stackindex : Int) (next : Option Nat) : LVOuter where
  valptr := .stack stackindex
  idx := (stackindex - v.vals) / OBJECT_SIZE
  value := .null
  next := next
  uiRef := 2

/-- The end of `FindOuter`; `pp` is `&prev->_next`, or `&_openouters` when there is
no `prev`. -/
def insertOuter (stackindex : Int) (prev : Option Nat) : Nat × OuterVM :=
  let held := Function.update v.held v.next 1
  (v.next,
    match prev with
    | none =>
      let otr := v.newOuter stackindex v.openouters
      { v with
        outers := Function.update v.outers v.next (some otr)
        openouters := some v.next
        next := v.next + 1
        held := held }
    | some q =>
      let otr := v.newOuter stackindex (v.nextOf q)
      let before := (v.outers q).map ({ · with next := some v.next })
      { v with
        outers := Function.update (Function.update v.outers v.next (some otr)) q before
        next := v.next + 1
        held := held })

/-- `FindOuter`, with the outer that `target` refers to then. -/
def findOuter (stackindex : Int) : Option (Nat × OuterVM) :=
  match Linked.search v.nextOf (v.stops stackindex) (v.next + 1) none v.openouters with
  | none => none
  | some (prev, none) => some (v.insertOuter stackindex prev)
  | some (prev, some p) =>
    if v.valptr p = some (.stack stackindex) then some (p, v.hold p)
    else some (v.insertOuter stackindex prev)

/-- The loop of `CloseOuters`. -/
def closeLoop (stackindex : Int) : Nat → OuterVM → Option OuterVM
  | 0, _ => none
  | fuel + 1, v =>
    match v.openouters with
    | none => some v
    | some p =>
      match v.outers p with
      | none => none
      | some o =>
        if v.reaches stackindex p then
          closeLoop stackindex fuel { v with
            outers := Function.update v.outers p
              (o.close ((v.outerValue p).getD .null))
            openouters := o.next }
        else some v

/-- There are no more outers than addresses in use. -/
def closeOuters (stackindex : Int) : Option OuterVM := closeLoop stackindex (v.next + 1) v

/-- `__ObjRelease` of a reference from elsewhere. -/
def release (p : Nat) : OuterVM :=
  { v with
    outers := Function.update v.outers p ((v.outers p).bind fun o =>
      if o.uiRef = 1 then none else some { o with uiRef := o.uiRef - 1 })
    held := Function.update v.held p (v.held p - 1) }

/-- `_stack.resize(newsize)`. When there is not enough room, `vals` is where
`LV_REALLOC` puts the storage. -/
def resize (newsize : Nat) (vals : Int) : OuterVM :=
  let vals := if v.allocated < newsize then vals else v.vals
  { v with
    vals := vals
    size := newsize
    allocated := max v.allocated newsize
    memory := fun address =>
      let slot := (address - vals) / OBJECT_SIZE
      if 0 ≤ slot ∧ slot < newsize then
        if slot < v.size then v.memory (v.addr slot) else .null
      else v.memory address }

/-- The loop of `RelocateOuters`. -/
def relocateLoop : Nat → Option Nat → OuterVM → Option OuterVM
  | 0, _, _ => none
  | _ + 1, none, v => some v
  | fuel + 1, some p, v =>
    match v.outers p with
    | none => none
    | some o => relocateLoop fuel o.next { v with
        outers := Function.update v.outers p (some { o with valptr := .stack (v.addr o.idx) }) }

def relocateOuters : Option OuterVM := relocateLoop (v.next + 1) v.openouters v

/-- `EnterFrame` once the frame is there: `_top` and the size of the stack, which
stays as it is in a metamethod. -/
def enterFrame (newtop : Nat) (vals : Int) : Option OuterVM :=
  let v₁ := { v with top := newtop }
  if (newtop : Int) + MIN_STACK_OVERHEAD > v.size then
    if v.nmetamethodscall ≠ 0 then some v₁
    else
      (v₁.resize (newtop + 4 * MIN_STACK_OVERHEAD.toNat) vals).relocateOuters
  else some v₁

def lv_reservestack (nsize : Nat) (vals : Int) : OuterVM :=
  if v.top + nsize > v.size then
    if v.nmetamethodscall ≠ 0 then v
    else v.resize (v.size + ((v.top + nsize) - v.size)) vals
  else v

/-! ## The list -/

/-- The open outers with their slots are `os`: each points to its slot and is in
the list once, the highest slot first. The others have their values themselves. -/
structure Disciplined (os : List (Nat × Int)) : Prop where
  linked : Linked v.nextOf v.openouters (os.map Prod.fst)
  isOpen : ∀ x ∈ os, ∃ o, v.outers x.1 = some o ∧ o.idx = x.2 ∧ o.valptr = .stack (v.addr x.2)
  sorted : os.Pairwise fun x y => y.2 < x.2
  closed : ∀ p o, v.outers p = some o → p ∉ os.map Prod.fst → o.valptr = .value
  counted : ∀ p o, v.outers p = some o →
    o.uiRef = v.held p + if p ∈ os.map Prod.fst then 1 else 0
  fresh : ∀ p, v.next ≤ p → v.outers p = none

variable {v} {v' : OuterVM} {os : List (Nat × Int)} {slot : Int} {p : Nat} {x : Nat × Int}

theorem addr_le_iff {s : Int} : v.addr slot ≤ v.addr s ↔ slot ≤ s := by
  simp only [addr, OBJECT_SIZE]
  omega

theorem addr_inj {s : Int} (eq : v.addr slot = v.addr s) : slot = s := by
  simp only [addr, OBJECT_SIZE] at eq
  omega

theorem addr_slot : (v.addr slot - v.vals) / OBJECT_SIZE = slot := by
  simp only [addr, OBJECT_SIZE]
  omega

namespace Disciplined

theorem valptr (d : v.Disciplined os) (mem : x ∈ os) :
    v.valptr x.1 = some (.stack (v.addr x.2)) := by
  obtain ⟨o, found, -, points⟩ := d.isOpen x mem
  simp [OuterVM.valptr, found, points]

theorem reaches (d : v.Disciplined os) (mem : x ∈ os) :
    v.reaches (v.addr slot) x.1 = decide (slot ≤ x.2) := by
  simp only [OuterVM.reaches, d.valptr mem, addr_le_iff]

theorem value (d : v.Disciplined os) (mem : x ∈ os) :
    v.outerValue x.1 = some (v.memory (v.addr x.2)) := by
  obtain ⟨⟨valptr, idx, value, next, uiRef⟩, found, -, points⟩ := d.isOpen x mem
  simp only at points
  simp [OuterVM.outerValue, found, points]

theorem lt_next (d : v.Disciplined os) (mem : p ∈ os.map Prod.fst) : p < v.next := by
  obtain ⟨x, inside, rfl⟩ := List.mem_map.mp mem
  obtain ⟨o, found, -⟩ := d.isOpen x inside
  by_contra outside
  rw [d.fresh x.1 (by omega)] at found
  cases found

theorem length_le (d : v.Disciplined os) : (os.map Prod.fst).length ≤ v.next := by
  have inside : os.map Prod.fst ⊆ List.range v.next := by
    intro p mem
    exact List.mem_range.mpr (d.lt_next mem)
  simpa using (d.linked.nodup.subperm inside).length_le

/-- A slot has one open outer at most. -/
theorem eq_of_slot {y : Nat × Int} (d : v.Disciplined os) (memX : x ∈ os) (memY : y ∈ os)
    (same : x.2 = y.2) : x = y := by
  have distinct : (os.map Prod.snd).Nodup := by
    refine List.pairwise_map.mpr (d.sorted.imp fun lt => ?_)
    omega
  exact List.inj_on_of_nodup_map distinct memX memY same

/-- The list above a slot and the rest of it. -/
theorem split (d : v.Disciplined os) (slot : Int) : ∃ hi lo, os = hi ++ lo ∧
    (∀ x ∈ hi, slot < x.2) ∧ ∀ x ∈ lo, x.2 ≤ slot := by
  have sorted := d.sorted
  clear d
  induction os with
  | nil => exact ⟨[], [], rfl, List.forall_mem_nil _, List.forall_mem_nil _⟩
  | cons x os ih =>
    obtain ⟨below, sorted⟩ := List.pairwise_cons.mp sorted
    by_cases above : slot < x.2
    · obtain ⟨hi, lo, rfl, higher, lower⟩ := ih sorted
      exact ⟨x :: hi, lo, rfl, List.forall_mem_cons.mpr ⟨above, higher⟩, lower⟩
    · refine ⟨[], x :: os, rfl, List.forall_mem_nil _, List.forall_mem_cons.mpr ⟨?_, ?_⟩⟩
      · omega
      · intro y mem
        have := below y mem
        omega

/-- Where the loop of `FindOuter` stops. -/
theorem search {hi lo : List (Nat × Int)} (d : v.Disciplined (hi ++ lo))
    (higher : ∀ x ∈ hi, slot < x.2) (lower : ∀ x ∈ lo, x.2 ≤ slot) :
    Linked.search v.nextOf (v.stops (v.addr slot)) (v.next + 1) none v.openouters =
      some ((hi.map Prod.fst).getLast?, lo.head?.map Prod.fst) := by
  have linked := d.linked
  have length := d.length_le
  have passed : ∀ p ∈ hi.map Prod.fst, v.stops (v.addr slot) p = false := by
    intro p mem
    obtain ⟨x, own, rfl⟩ := List.mem_map.mp mem
    have above := higher x own
    have inside : x ∈ hi ++ lo := List.mem_append_left lo own
    have other : v.addr x.2 ≠ v.addr slot := fun eq => by
      have := addr_inj eq
      omega
    simp [stops, d.reaches inside, d.valptr inside, above.le, other]
  rw [List.map_append] at linked length
  rw [List.length_append] at length
  cases lo with
  | nil =>
    rw [List.map_nil, List.append_nil] at linked
    rw [linked.search_none passed (by omega) none, Option.or_none]
    rfl
  | cons x lo =>
    have inside : x ∈ hi ++ x :: lo := List.mem_append_right hi (List.mem_cons_self)
    have stops : v.stops (v.addr slot) x.1 = true := by
      have below := lower x List.mem_cons_self
      rw [OuterVM.stops, d.reaches inside, d.valptr inside]
      by_cases same : slot = x.2
      · simp [same]
      · simp only [Bool.or_eq_true, Bool.not_eq_true', decide_eq_false_iff_not]
        left
        omega
    rw [linked.search_found passed stops (by omega) none, Option.or_none]
    rfl

/-- A slot that is captured already. -/
theorem findOuter_found (d : v.Disciplined os) (mem : (p, slot) ∈ os) :
    v.findOuter (v.addr slot) = some (p, v.hold p) := by
  obtain ⟨hi, lo, rfl, higher, lower⟩ := d.split slot
  have found := d.search higher lower
  have rest : (p, slot) ∈ lo := by
    rcases List.mem_append.mp mem with above | rest
    · have := higher _ above
      simp only [lt_self_iff_false] at this
    · exact rest
  cases lo with
  | nil => cases rest
  | cons x lo =>
    have first : x = (p, slot) := by
      have inside : x ∈ hi ++ x :: lo := List.mem_append_right hi (List.mem_cons_self)
      rcases List.mem_cons.mp rest with eq | later
      · exact eq.symm
      · have sorted := (List.pairwise_append.mp d.sorted).2.1
        have below := (List.pairwise_cons.mp sorted).1 _ later
        have := lower x List.mem_cons_self
        simp only at below
        omega
    subst first
    simp only [OuterVM.findOuter, found, List.head?_cons, Option.map_some, d.valptr mem, if_true]

theorem findOuter_new (d : v.Disciplined os) (absent : ∀ x ∈ os, x.2 ≠ slot) :
    ∃ hi lo, os = hi ++ lo ∧ (∀ x ∈ hi, slot < x.2) ∧ (∀ x ∈ lo, x.2 < slot) ∧
      v.findOuter (v.addr slot) =
        some (v.insertOuter (v.addr slot) (hi.map Prod.fst).getLast?) := by
  obtain ⟨hi, lo, rfl, higher, lower⟩ := d.split slot
  have found := d.search higher lower
  refine ⟨hi, lo, rfl, higher, fun x mem => ?_, ?_⟩
  · have := lower x mem
    have := absent x (List.mem_append_right hi mem)
    omega
  · rw [OuterVM.findOuter, found]
    cases lo with
    | nil => rfl
    | cons x lo =>
      have inside : x ∈ hi ++ x :: lo := List.mem_append_right hi (List.mem_cons_self)
      have other : v.addr x.2 ≠ v.addr slot := fun eq => absent x inside (addr_inj eq)
      simp [d.valptr inside, other]

/-- Outers of which only the references, and the values they have themselves, are
others than before. -/
theorem rewrite (d : v.Disciplined os) {outers : Nat → Option LVOuter} {held : Nat → Nat}
    (kept : ∀ p o, outers p = some o → ∃ o', v.outers p = some o' ∧
      o.valptr = o'.valptr ∧ o.idx = o'.idx ∧ o.next = o'.next ∧
      o.uiRef + v.held p = o'.uiRef + held p)
    (alive : ∀ p ∈ os.map Prod.fst, (outers p).isSome) :
    { v with outers := outers, held := held }.Disciplined os where
  linked := by
    refine d.linked.congr fun p mem => ?_
    obtain ⟨o, found⟩ := Option.isSome_iff_exists.mp (alive p mem)
    obtain ⟨o', found', -, -, next, -⟩ := kept p o found
    simp [nextOf, found, found', next]
  isOpen x mem := by
    obtain ⟨o, found⟩ := Option.isSome_iff_exists.mp (alive x.1 (List.mem_map_of_mem mem))
    obtain ⟨o', found', valptr, idx, -, -⟩ := kept x.1 o found
    obtain ⟨o'', found'', idx', valptr'⟩ := d.isOpen x mem
    obtain rfl := Option.some.inj (found'.symm.trans found'')
    exact ⟨o, found, idx.trans idx', valptr.trans valptr'⟩
  sorted := d.sorted
  closed p o found notMem := by
    obtain ⟨o', found', valptr, -⟩ := kept p o found
    exact valptr.trans (d.closed p o' found' notMem)
  counted p o found := by
    obtain ⟨o', found', -, -, -, count⟩ := kept p o found
    have := d.counted p o' found'
    simp only
    omega
  fresh p le := by
    cases found : outers p with
    | none => exact found
    | some o =>
      obtain ⟨o', found', -⟩ := kept p o found
      rw [d.fresh p le] at found'
      cases found'

theorem hold (d : v.Disciplined os) (p : Nat) : (v.hold p).Disciplined os := by
  refine d.rewrite (fun q o found => ?_) fun q mem => ?_
  · by_cases eq : q = p
    · subst eq
      rw [Function.update_self, Option.map_eq_some_iff] at found
      obtain ⟨o', found', rfl⟩ := found
      refine ⟨o', found', rfl, rfl, rfl, ?_⟩
      simp only [Function.update_self]
      omega
    · rw [Function.update_of_ne eq] at found
      exact ⟨o, found, rfl, rfl, rfl, by rw [Function.update_of_ne eq]⟩
  · obtain ⟨x, inside, rfl⟩ := List.mem_map.mp mem
    obtain ⟨o, found, -⟩ := d.isOpen x inside
    by_cases eq : x.1 = p
    · rw [eq, Function.update_self, ← eq, found]
      rfl
    · rw [Function.update_of_ne eq, found]
      rfl

theorem release (d : v.Disciplined os) (held : 0 < v.held p) : (v.release p).Disciplined os := by
  refine d.rewrite (fun q o found => ?_) fun q mem => ?_
  · by_cases eq : q = p
    · subst eq
      rw [Function.update_self, Option.bind_eq_some_iff] at found
      obtain ⟨o', found', kept⟩ := found
      have count := d.counted q o' found'
      split at kept
      · cases kept
      · cases kept
        refine ⟨o', found', rfl, rfl, rfl, ?_⟩
        simp only [Function.update_self]
        omega
    · rw [Function.update_of_ne eq] at found
      exact ⟨o, found, rfl, rfl, rfl, by rw [Function.update_of_ne eq]⟩
  · obtain ⟨x, inside, rfl⟩ := List.mem_map.mp mem
    obtain ⟨o, found, -⟩ := d.isOpen x inside
    by_cases eq : x.1 = p
    · have count := d.counted x.1 o found
      rw [if_pos mem, eq] at count
      rw [eq, Function.update_self, ← eq, found, Option.bind_some, if_neg (by omega)]
      rfl
    · rw [Function.update_of_ne eq, found]
      rfl

theorem setOuterValue (d : v.Disciplined os) (p : Nat) (o : LVObject) :
    (v.setOuterValue p o).Disciplined os := by
  unfold OuterVM.setOuterValue
  split
  · exact ⟨d.linked, d.isOpen, d.sorted, d.closed, d.counted, d.fresh⟩
  · rename_i otr _ found
    refine d.rewrite (fun q o' found' => ?_) fun q mem => ?_
    · by_cases eq : q = p
      · subst eq
        rw [Function.update_self, Option.some.injEq] at found'
        subst found'
        exact ⟨otr, found, rfl, rfl, rfl, rfl⟩
      · rw [Function.update_of_ne eq] at found'
        exact ⟨o', found', rfl, rfl, rfl, rfl⟩
    · by_cases eq : q = p
      · rw [eq, Function.update_self]
        rfl
      · obtain ⟨x, inside, rfl⟩ := List.mem_map.mp mem
        obtain ⟨o', found', -⟩ := d.isOpen x inside
        rw [Function.update_of_ne eq, found']
        rfl
  · exact d

/-- A new outer behind the last one above its slot. -/
theorem insertOuter {hi lo : List (Nat × Int)} (d : v.Disciplined (hi ++ lo))
    (higher : ∀ x ∈ hi, slot < x.2) (lower : ∀ x ∈ lo, x.2 < slot) :
    (v.insertOuter (v.addr slot) (hi.map Prod.fst).getLast?).2.Disciplined
      (hi ++ (v.next, slot) :: lo) := by
  have unused : v.next ∉ (hi ++ lo).map Prod.fst := fun mem => by
    have := d.lt_next mem
    omega
  have linked := d.linked
  have sorted := d.sorted
  rw [List.map_append] at linked unused
  obtain ⟨outers, eq, link, made, kept⟩ : ∃ outers,
      (v.insertOuter (v.addr slot) (hi.map Prod.fst).getLast?).2 =
        { v with
          outers := outers
          openouters := if hi = [] then some v.next else v.openouters
          next := v.next + 1
          held := Function.update v.held v.next 1 } ∧
      Linked (fun p => (outers p).bind (·.next))
        (if hi = [] then some v.next else v.openouters)
        (hi.map Prod.fst ++ v.next :: lo.map Prod.fst) ∧
      (outers v.next).map (·.own) = some (.stack (v.addr slot), slot, 2) ∧
      ∀ p, p ≠ v.next → (outers p).map (·.own) = (v.outers p).map (·.own) := by
    rcases List.eq_nil_or_concat hi with rfl | ⟨hi, z, rfl⟩
    · refine ⟨Function.update v.outers v.next (some (v.newOuter (v.addr slot) v.openouters)),
        rfl, ?_, ?_, fun p ne => ?_⟩
      · refine (linked.push unused).congr fun p mem => ?_
        by_cases eq : p = v.next
        · rw [eq, Function.update_self, Function.update_self]
          rfl
        · rw [Function.update_of_ne eq, Function.update_of_ne eq]
          rfl
      · simp [LVOuter.own, newOuter, addr_slot]
      · rw [Function.update_of_ne ne]
    · rw [List.concat_eq_append] at linked unused d ⊢
      have last : ((hi ++ [z]).map Prod.fst).getLast? = some z.1 := by simp
      have before : v.next ≠ z.1 := by
        intro eq
        rw [eq] at unused
        simp at unused
      have inside : z ∈ hi ++ [z] ++ lo := by simp
      obtain ⟨oz, foundZ, -⟩ := d.isOpen z inside
      rw [last]
      refine ⟨Function.update
        (Function.update v.outers v.next (some (v.newOuter (v.addr slot) (v.nextOf z.1)))) z.1
        ((v.outers z.1).map ({ · with next := some v.next })), ?_, ?_, ?_, fun p ne => ?_⟩
      · rw [if_neg (by simp)]
        rfl
      · rw [List.map_append, List.map_singleton, List.append_assoc, List.singleton_append]
          at linked unused
        rw [List.map_append, List.map_singleton, List.append_assoc, List.singleton_append,
          if_neg (by simp)]
        refine (linked.insert unused).congr fun p mem => ?_
        by_cases eqZ : p = z.1
        · rw [eqZ, Function.update_self, Function.update_self, foundZ]
          rfl
        · rw [Function.update_of_ne eqZ, Function.update_of_ne eqZ]
          by_cases eq : p = v.next
          · rw [eq, Function.update_self, Function.update_self]
            rfl
          · rw [Function.update_of_ne eq, Function.update_of_ne eq]
            rfl
      · simp [Function.update_of_ne before, LVOuter.own, newOuter, addr_slot]
      · by_cases eqZ : p = z.1
        · rw [eqZ, Function.update_self, foundZ]
          rfl
        · rw [Function.update_of_ne eqZ, Function.update_of_ne ne]
  obtain ⟨new, found, points⟩ := Option.map_eq_some_iff.mp made
  simp only [LVOuter.own, Prod.mk.injEq] at points
  obtain ⟨valptr, idx, uiRef⟩ := points
  have old : ∀ p o, p ≠ v.next → outers p = some o → ∃ o', v.outers p = some o' ∧
      o.valptr = o'.valptr ∧ o.idx = o'.idx ∧ o.uiRef = o'.uiRef := by
    intro p o ne found
    have same := kept p ne
    rw [found, Option.map_some] at same
    obtain ⟨o', found', eq⟩ := Option.map_eq_some_iff.mp same.symm
    simp only [LVOuter.own, Prod.mk.injEq] at eq
    exact ⟨o', found', eq.1.symm, eq.2.1.symm, eq.2.2.symm⟩
  rw [eq]
  constructor
  · rw [List.map_append, List.map_cons]
    exact link
  · intro x mem
    by_cases first : x = (v.next, slot)
    · subst first
      exact ⟨new, found, idx, valptr⟩
    · have inside : x ∈ hi ++ lo := by
        simp only [List.mem_append, List.mem_cons, first, false_or] at mem ⊢
        exact mem
      have ne : x.1 ≠ v.next := by
        have := d.lt_next (List.mem_map_of_mem inside)
        omega
      obtain ⟨o', found', idx', valptr'⟩ := d.isOpen x inside
      have same := kept x.1 ne
      rw [found', Option.map_some] at same
      obtain ⟨o, found, eq⟩ := Option.map_eq_some_iff.mp same
      simp only [LVOuter.own, Prod.mk.injEq] at eq
      exact ⟨o, found, eq.2.1.trans idx', eq.1.trans valptr'⟩
  · obtain ⟨above, below, across⟩ := List.pairwise_append.mp sorted
    refine List.pairwise_append.mpr ⟨above, List.pairwise_cons.mpr ⟨lower, below⟩, ?_⟩
    intro x memX y memY
    rcases List.mem_cons.mp memY with rfl | memY
    · exact higher x memX
    · exact across x memX y memY
  · intro p o found notMem
    simp only [List.map_append, List.map_cons, List.mem_append, List.mem_cons, not_or] at notMem
    obtain ⟨o', found', valptr', -⟩ := old p o notMem.2.1 found
    refine valptr'.trans (d.closed p o' found' ?_)
    rw [List.map_append, List.mem_append, not_or]
    exact ⟨notMem.1, notMem.2.2⟩
  · intro p o found'
    by_cases first : p = v.next
    · subst first
      obtain rfl := Option.some.inj (found.symm.trans found')
      simp [uiRef]
    · obtain ⟨o', found', -, -, same⟩ := old p o first found'
      have := d.counted p o' found'
      simp only [List.map_append, List.map_cons, List.mem_append, List.mem_cons, first, false_or,
        Function.update_of_ne first] at this ⊢
      omega
  · intro p le
    simp only at le
    have ne : p ≠ v.next := by omega
    have same := kept p ne
    rw [d.fresh p (by omega), Option.map_none, Option.map_eq_none_iff] at same
    exact same

/-- The first of the list is closed. -/
theorem closeFirst {o : LVOuter} (d : v.Disciplined (x :: os)) (found : v.outers x.1 = some o)
    (value : LVObject) : { v with
      outers := Function.update v.outers x.1 (o.close value)
      openouters := o.next }.Disciplined os := by
  have linked := d.linked
  have nodup := linked.nodup
  rw [List.map_cons, List.nodup_cons] at nodup
  have ne : ∀ p ∈ os.map Prod.fst, p ≠ x.1 := by
    intro p mem eq
    exact nodup.1 (eq ▸ mem)
  have closing : ∀ o', o.close value = some o' →
      o'.valptr = .value ∧ o'.uiRef + 1 = o.uiRef := by
    intro o' eq
    have count := d.counted x.1 o found
    rw [List.map_cons, if_pos List.mem_cons_self] at count
    simp only [LVOuter.close] at eq
    split at eq
    · cases eq
    · cases eq
      refine ⟨rfl, ?_⟩
      simp only
      omega
  constructor
  · have rest := linked.2
    have next : v.nextOf x.1 = o.next := by simp [nextOf, found]
    rw [next] at rest
    refine rest.congr fun p mem => ?_
    simp only [nextOf, Function.update_of_ne (ne p mem)]
  · intro y mem
    obtain ⟨o', found', points⟩ := d.isOpen y (List.mem_cons_of_mem x mem)
    have other := ne y.1 (List.mem_map_of_mem mem)
    exact ⟨o', by simpa only [Function.update_of_ne other] using found', points⟩
  · exact (List.pairwise_cons.mp d.sorted).2
  · intro p o' found' notMem
    by_cases eq : p = x.1
    · subst eq
      simp only [Function.update_self] at found'
      exact (closing o' found').1
    · simp only [Function.update_of_ne eq] at found'
      refine d.closed p o' found' ?_
      rw [List.map_cons, List.mem_cons, not_or]
      exact ⟨eq, notMem⟩
  · intro p o' found'
    by_cases eq : p = x.1
    · subst eq
      simp only [Function.update_self] at found'
      have count := d.counted x.1 o found
      have less := (closing o' found').2
      rw [List.map_cons, if_pos List.mem_cons_self] at count
      rw [if_neg nodup.1]
      simp only
      omega
    · simp only [Function.update_of_ne eq] at found'
      have count := d.counted p o' found'
      simpa only [List.map_cons, List.mem_cons, eq, false_or] using count
  · intro p le
    have old := d.fresh p le
    have other : p ≠ x.1 := by
      rintro rfl
      rw [found] at old
      cases old
    simpa only [Function.update_of_ne other] using old

/-- What `CloseOuters` does: the outers from the slot on have their values, and
everything else is as it was. -/
structure Closes (v : OuterVM) (os : List (Nat × Int)) (slot : Int) (v' : OuterVM) : Prop where
  same : v' = { v with outers := v'.outers, openouters := v'.openouters }
  disciplined : v'.Disciplined (os.filter (·.2 < slot))
  kept : ∀ p, (∀ x ∈ os, x.1 = p → x.2 < slot) → v'.outers p = v.outers p
  closes : ∀ x ∈ os, slot ≤ x.2 →
    v'.outers x.1 = (v.outers x.1).bind (·.close (v.memory (v.addr x.2)))

theorem closeLoop (d : v.Disciplined os) (slot : Int) {fuel : Nat} (lt : os.length < fuel) :
    ∃ v', OuterVM.closeLoop (v.addr slot) fuel v = some v' ∧ Closes v os slot v' := by
  induction os generalizing v fuel with
  | nil =>
    obtain ⟨fuel, rfl⟩ := Nat.exists_eq_succ_of_ne_zero (by omega : fuel ≠ 0)
    have empty : v.openouters = none := d.linked
    refine ⟨v, by rw [OuterVM.closeLoop, empty], rfl, d, fun _ _ => rfl, List.forall_mem_nil _⟩
  | cons x os ih =>
    rw [List.length_cons] at lt
    obtain ⟨fuel, rfl⟩ := Nat.exists_eq_succ_of_ne_zero (by omega : fuel ≠ 0)
    have first : v.openouters = some x.1 := d.linked.1
    obtain ⟨o, found, -⟩ := d.isOpen x List.mem_cons_self
    have below := (List.pairwise_cons.mp d.sorted).1
    simp only [OuterVM.closeLoop, first, found, d.reaches List.mem_cons_self,
      d.value List.mem_cons_self, Option.getD_some]
    by_cases reached : slot ≤ x.2
    · rw [if_pos (by simpa using reached)]
      set w : OuterVM := { v with
        outers := Function.update v.outers x.1 (o.close (v.memory (v.addr x.2)))
        openouters := o.next }
      have rest : w.Disciplined os := d.closeFirst found (v.memory (v.addr x.2))
      have enough : os.length < fuel := by omega
      obtain ⟨v', run, same, disciplined, kept, closes⟩ := ih rest enough
      have addr : ∀ s, w.addr s = v.addr s := fun s => rfl
      have others : ∀ y ∈ os, y.1 ≠ x.1 := by
        intro y mem eq
        have nodup := d.linked.nodup
        rw [List.map_cons, List.nodup_cons] at nodup
        exact nodup.1 (eq ▸ List.mem_map_of_mem mem)
      refine ⟨v', run, ?_, ?_, fun p lower => ?_, fun y mem le => ?_⟩
      · rw [same]
      · rw [List.filter_cons_of_neg (by simpa using reached)]
        exact disciplined
      · have other : p ≠ x.1 := by
          rintro rfl
          have := lower x List.mem_cons_self rfl
          omega
        rw [kept p fun y mem => lower y (List.mem_cons_of_mem x mem)]
        exact Function.update_of_ne other _ _
      · rcases List.mem_cons.mp mem with rfl | mem
        · rw [kept y.1 fun z memZ eq => absurd eq (others z memZ), found, Option.bind_some]
          exact Function.update_self ..
        · rw [closes y mem le]
          simp only [w, Function.update_of_ne (others y mem)]
          rfl
    · rw [if_neg (by simpa using reached)]
      have all : (x :: os).filter (·.2 < slot) = x :: os := by
        rw [List.filter_eq_self]
        intro y mem
        rcases List.mem_cons.mp mem with rfl | mem
        · simpa using reached
        · have := below y mem
          simp only [decide_eq_true_eq]
          omega
      refine ⟨v, rfl, rfl, all.symm ▸ d, fun _ _ => rfl, fun y mem le => ?_⟩
      rw [List.filter_eq_self] at all
      have := all y mem
      simp only [decide_eq_true_eq] at this
      omega

theorem closeOuters (d : v.Disciplined os) (slot : Int) :
    ∃ v', v.closeOuters (v.addr slot) = some v' ∧ Closes v os slot v' := by
  apply d.closeLoop slot
  have := d.length_le
  rw [List.length_map] at this
  omega

end Disciplined

end OuterVM

end Lavril
