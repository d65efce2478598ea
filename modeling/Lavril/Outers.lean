import Lavril.Frames
import Mathlib.Data.List.TakeWhile

/-!
# Captured variables

A closure reaches a variable of an enclosing function through an outer. While
the frame of the variable is running the outer is open and refers to the
register; `CloseOuters` moves the value into the outer itself.
-/

namespace Lavril

namespace LVVM

variable (v : LVVM)

/-- The slot an open outer refers to. -/
def outerSlot (address : Nat) : Option Int :=
  (v.openouters.find? (·.1 = address)).map (·.2)

/-- `*(otr->_valptr)`. -/
def outerValue (address : Nat) : Option LVObject :=
  match v.heap address with
  | some (.outer (some value)) => some value
  | some (.outer none) => (v.outerSlot address).map v.stack
  | _ => none

/-- `*(otr->_valptr) = o`. -/
def setOuterValue (address : Nat) (o : LVObject) : LVVM :=
  match v.outerSlot address with
  | some slot => v.setSlot slot o
  | none => { v with heap := Function.update v.heap address (some (.outer (some o))) }

/-- `FindOuter`: the open outer of a slot, a new one if there is none. -/
def findOuter (slot : Int) : LVObject × LVVM :=
  let above := v.openouters.takeWhile (slot ≤ ·.2)
  match above.find? (·.2 = slot) with
  | some (address, _) => (.ofAddress .OT_OUTER address, v)
  | none =>
    let (o, v₁) := v.create .OT_OUTER (.outer none)
    (o, { v₁ with
      openouters := above ++ (v.next, slot) :: v.openouters.dropWhile (slot ≤ ·.2) })

/-- The closure of the running frame. -/
def currentClosure : Option LVClosure :=
  match v.callsstack with
  | [] => none
  | ci :: _ =>
    match v.lookup ci.closure with
    | some (.closure k) => some k
    | _ => none

/-- The outer in `_outervalues[n]` of the running closure. -/
def currentOuter (n : Nat) : Option Nat := do
  let k ← v.currentClosure
  let o ← k.outervalues[n]?
  match v.lookup o, o.unVal with
  | some (.outer _), .raw bits => some bits.toNat
  | _, _ => none

/-- `GETOUTER`. -/
def getOuterOp (i : LVInstruction) : Option LVVM := do
  let address ← v.currentOuter i.arg1.toNat
  return v.setSlot (v.stackbase + i.arg0) (← v.outerValue address)

/-- `SETOUTER`. -/
def setOuterOp (i : LVInstruction) : Option LVVM := do
  let address ← v.currentOuter i.arg1.toNat
  let v₁ := v.setOuterValue address (v.register i.arg2)
  return if i.arg0 ≠ 0xFF then v₁.setSlot (v₁.stackbase + i.arg0) (v₁.register i.arg2) else v₁

/-- `CLOSE`. -/
def closeOp (i : LVInstruction) : LVVM := v.closeOuters (v.stackbase + i.arg1)

/-- `_outervalues` of a new closure that `k` creates. -/
def captureOuters (k : LVClosure) : LVVM → List LVOuterVar → List LVObject × LVVM
  | v, [] => ([], v)
  | v, outer :: rest =>
    let (o, v₁) :=
      match outer.type with
      | .otLOCAL => v.findOuter (v.stackbase + outer.src)
      | .otOUTER => (k.outervalues.getD outer.src .null, v)
    let (os, v₂) := captureOuters k v₁ rest
    (o :: os, v₂)

/-- `CLOSURE_OP`. -/
def closureOp (k : LVClosure) (i : LVInstruction) (func : FunctionPrototype) : Option LVVM :=
  if h : 0 < func.parameters.length then
    let address := v.next
    let closure : LVClosure := {
      function := func, this := h, env := none, outervalues := [], defaultparams := [] }
    let (clo, v₁) := v.create .OT_CLOSURE (.closure closure)
    let (outervalues, v₂) := captureOuters k v₁ func.outervalues
    let closure : LVClosure := { closure with
      outervalues := outervalues
      defaultparams := func.defaultparams.map fun spos => v₂.register spos }
    some ({ v₂ with heap := Function.update v₂.heap address (some (.closure closure)) }.setSlot
      (v.stackbase + i.arg0) clo)
  else none

/-! ## Open and closed outers -/

/-- Addresses from `next` on are not in use. The open outers are sorted by their
slots, no two are the same, and none has a value of its own. -/
structure WF : Prop where
  fresh : ∀ a, v.next ≤ a → v.heap a = none
  outers : ∀ o ∈ v.openouters, v.heap o.1 = some (.outer none)
  sorted : v.openouters.Pairwise fun o o' => o'.2 < o.2
  nodup : (v.openouters.map Prod.fst).Nodup

variable {v}

theorem foldl_close_of_notMem (stack : Int → LVObject) {os : List (Nat × Int)} {a : Nat}
    (notMem : a ∉ os.map Prod.fst) (heap : Nat → Option HeapObject) :
    os.foldl (fun (heap : Nat → Option HeapObject) o =>
      Function.update heap o.1 (some (.outer (some (stack o.2))))) heap a = heap a := by
  induction os generalizing heap with
  | nil => rfl
  | cons o os ih =>
    simp only [List.map_cons, List.mem_cons, not_or] at notMem
    rw [List.foldl_cons, ih notMem.2, Function.update_of_ne notMem.1]

theorem foldl_close_of_mem (stack : Int → LVObject) {os : List (Nat × Int)} {o : Nat × Int}
    (nodup : (os.map Prod.fst).Nodup) (mem : o ∈ os) (heap : Nat → Option HeapObject) :
    os.foldl (fun (heap : Nat → Option HeapObject) o =>
      Function.update heap o.1 (some (.outer (some (stack o.2))))) heap o.1 =
        some (.outer (some (stack o.2))) := by
  induction os generalizing heap with
  | nil => cases mem
  | cons o' os ih =>
    simp only [List.map_cons, List.nodup_cons] at nodup
    rw [List.foldl_cons]
    rcases List.mem_cons.mp mem with rfl | mem
    · rw [foldl_close_of_notMem stack nodup.1, Function.update_self]
    · exact ih nodup.2 mem _

theorem mem_takeWhile_of_sorted {os : List (Nat × Int)} {o : Nat × Int} {slot : Int}
    (sorted : os.Pairwise fun o o' => o'.2 < o.2) (mem : o ∈ os) (le : slot ≤ o.2) :
    o ∈ os.takeWhile (slot ≤ ·.2) := by
  induction os with
  | nil => cases mem
  | cons o' os ih =>
    obtain ⟨above, sorted⟩ := List.pairwise_cons.mp sorted
    rcases List.mem_cons.mp mem with rfl | mem
    · rw [List.takeWhile_cons_of_pos (by simpa using le)]
      exact List.mem_cons_self
    · have := above o mem
      rw [List.takeWhile_cons_of_pos (by simp; omega)]
      exact List.mem_cons_of_mem _ (ih sorted mem)

/-- `CloseOuters` gives the outers from the slot on the values they refer to. -/
theorem WF.closeOuters_mem (wf : v.WF) {slot : Int} {o : Nat × Int} (mem : o ∈ v.openouters)
    (le : slot ≤ o.2) : (v.closeOuters slot).heap o.1 = some (.outer (some (v.stack o.2))) :=
  foldl_close_of_mem v.stack (wf.nodup.sublist ((List.takeWhile_sublist _).map _))
    (mem_takeWhile_of_sorted wf.sorted mem le) v.heap

theorem closeOuters_notMem {slot : Int} {a : Nat} (notMem : a ∉ v.openouters.map Prod.fst) :
    (v.closeOuters slot).heap a = v.heap a :=
  foldl_close_of_notMem v.stack
    (fun mem => notMem (((List.takeWhile_sublist _).map _).subset mem)) v.heap

/-- The other outers stay open. -/
theorem WF.mem_closeOuters (wf : v.WF) {slot : Int} {o : Nat × Int} :
    o ∈ (v.closeOuters slot).openouters ↔ o ∈ v.openouters ∧ o.2 < slot := by
  simp only [closeOuters]
  have sorted := wf.sorted
  generalize v.openouters = os at sorted ⊢
  induction os with
  | nil => simp
  | cons o' os ih =>
    obtain ⟨above, sorted⟩ := List.pairwise_cons.mp sorted
    by_cases le : slot ≤ o'.2
    · rw [List.dropWhile_cons_of_pos (by simpa using le), List.mem_cons]
      refine (ih sorted).trans ?_
      constructor
      · exact fun h => ⟨.inr h.1, h.2⟩
      · rintro ⟨rfl | mem, lt⟩
        · omega
        · exact ⟨mem, lt⟩
    · rw [List.dropWhile_cons_of_neg (by simpa using le)]
      constructor
      · intro mem
        refine ⟨mem, ?_⟩
        rcases List.mem_cons.mp mem with rfl | mem
        · omega
        · have := above o mem
          omega
      · exact And.left

theorem WF.open_heap (wf : v.WF) {slot : Int} {o : Nat × Int} (mem : o ∈ v.openouters)
    (lt : o.2 < slot) : (v.closeOuters slot).heap o.1 = v.heap o.1 := by
  refine foldl_close_of_notMem v.stack (fun closed => ?_) v.heap
  obtain ⟨o', mem', eq⟩ := List.mem_map.mp closed
  have same : o' = o :=
    List.inj_on_of_nodup_map wf.nodup ((List.takeWhile_sublist _).subset mem') mem eq
  subst same
  have := List.mem_takeWhile_imp mem'
  simp only [decide_eq_true_eq] at this
  omega

theorem WF.closeOuters (wf : v.WF) (slot : Int) : (v.closeOuters slot).WF where
  fresh a le := by
    rw [closeOuters_notMem]
    · exact wf.fresh a le
    · intro mem
      obtain ⟨o, isOpen, rfl⟩ := List.mem_map.mp mem
      have open_ := wf.outers o isOpen
      rw [wf.fresh _ le] at open_
      cases open_
  outers o mem := by
    obtain ⟨mem, lt⟩ := wf.mem_closeOuters.mp mem
    rw [wf.open_heap mem lt]
    exact wf.outers o mem
  sorted := wf.sorted.sublist (List.dropWhile_sublist _)
  nodup := wf.nodup.sublist ((List.dropWhile_sublist _).map _)

/-- The stack and the frames have no part in it. -/
theorem WF.of_eq {v' : LVVM} (wf : v.WF) (heap : v'.heap = v.heap) (next : v'.next = v.next)
    (outers : v'.openouters = v.openouters) : v'.WF := by
  refine ⟨?_, ?_, ?_, ?_⟩
  · rw [heap, next]
    exact wf.fresh
  · rw [heap, outers]
    exact wf.outers
  · rw [outers]
    exact wf.sorted
  · rw [outers]
    exact wf.nodup

theorem WF.ne_next (wf : v.WF) {o : Nat × Int} (mem : o ∈ v.openouters) : o.1 ≠ v.next := by
  intro eq
  have open_ := wf.outers o mem
  rw [eq, wf.fresh _ (le_refl _)] at open_
  cases open_

/-- An object that is no open outer can be replaced. -/
theorem WF.replace {a : Nat} (wf : v.WF) (old : v.heap a ≠ none)
    (notOpen : a ∉ v.openouters.map Prod.fst) (o : HeapObject) :
    { v with heap := Function.update v.heap a (some o) }.WF where
  fresh b le := by
    have ne : b ≠ a := by
      rintro rfl
      exact old (wf.fresh b le)
    simp only [Function.update_of_ne ne]
    exact wf.fresh b le
  outers o' mem := by
    have ne : o'.1 ≠ a := by
      rintro rfl
      exact notOpen (List.mem_map_of_mem mem)
    simp only [Function.update_of_ne ne]
    exact wf.outers o' mem
  sorted := wf.sorted
  nodup := wf.nodup

theorem WF.notOpen {a : Nat} (wf : v.WF) (other : v.heap a ≠ some (.outer none)) :
    a ∉ v.openouters.map Prod.fst := by
  intro mem
  obtain ⟨o, isOpen, rfl⟩ := List.mem_map.mp mem
  exact other (wf.outers o isOpen)

theorem outerSlot_none {a : Nat} (closed : v.outerSlot a = none) :
    a ∉ v.openouters.map Prod.fst := by
  simp only [outerSlot, Option.map_eq_none_iff, List.find?_eq_none, decide_eq_true_eq] at closed
  intro mem
  obtain ⟨o, mem, eq⟩ := List.mem_map.mp mem
  exact closed o mem eq

theorem WF.create (wf : v.WF) (type : LVObjectType) (o : HeapObject) :
    (v.create type o).2.WF where
  fresh b le := by
    simp only [LVVM.create] at le ⊢
    rw [Function.update_of_ne (by omega)]
    exact wf.fresh b (by omega)
  outers o' mem := by
    simp only [LVVM.create]
    rw [Function.update_of_ne (wf.ne_next mem)]
    exact wf.outers o' mem
  sorted := wf.sorted
  nodup := wf.nodup

theorem create_heap_next (type : LVObjectType) (o : HeapObject) :
    (v.create type o).2.heap v.next = some o := Function.update_self ..

theorem WF.create_heap (wf : v.WF) (type : LVObjectType) (o : HeapObject) {a : Nat}
    (some : v.heap a ≠ none) : (v.create type o).2.heap a = v.heap a := by
  have ne : a ≠ v.next := by
    rintro rfl
    exact some (wf.fresh _ (le_refl _))
  simp only [LVVM.create, Function.update_of_ne ne]

theorem WF.findOuter_heap (wf : v.WF) (slot : Int) {a : Nat} (some : v.heap a ≠ none) :
    (v.findOuter slot).2.heap a = v.heap a := by
  simp only [LVVM.findOuter]
  split
  · rfl
  · exact wf.create_heap .OT_OUTER _ some

theorem WF.findOuter (wf : v.WF) (slot : Int) : (v.findOuter slot).2.WF := by
  simp only [LVVM.findOuter]
  split
  · exact wf
  · rename_i absent
    rw [List.find?_eq_none] at absent
    have split_ := List.takeWhile_append_dropWhile (p := fun o => decide (slot ≤ o.2)) (l := v.openouters)
    have sorted := wf.sorted
    have nodup := wf.nodup
    rw [← split_] at sorted nodup
    obtain ⟨sortedAbove, sortedBelow, across⟩ := List.pairwise_append.mp sorted
    have above : ∀ o ∈ v.openouters.takeWhile (slot ≤ ·.2), slot < o.2 := by
      intro o mem
      have le := List.mem_takeWhile_imp mem
      have ne := absent o mem
      simp only [decide_eq_true_eq] at le ne
      omega
    have below : ∀ o ∈ v.openouters.dropWhile (slot ≤ ·.2), o.2 < slot := fun o mem =>
      (wf.mem_closeOuters.mp mem).2
    have created := wf.create .OT_OUTER (.outer none)
    refine ⟨created.fresh, fun o mem => ?_, ?_, ?_⟩
    · rcases List.mem_append.mp mem with mem | mem
      · exact created.outers o ((List.takeWhile_subset _) mem)
      · rcases List.mem_cons.mp mem with rfl | mem
        · simp [LVVM.create]
        · exact created.outers o ((List.dropWhile_subset _) mem)
    · refine List.pairwise_append.mpr ⟨sortedAbove, List.pairwise_cons.mpr ⟨below, sortedBelow⟩, ?_⟩
      intro o mem o' mem'
      rcases List.mem_cons.mp mem' with rfl | mem'
      · exact above o mem
      · exact across o mem o' mem'
    · rw [List.map_append, List.map_cons, List.nodup_middle]
      rw [List.map_append] at nodup
      refine List.nodup_cons.mpr ⟨fun mem => ?_, nodup⟩
      rw [← List.map_append, split_] at mem
      obtain ⟨o, mem, eq⟩ := List.mem_map.mp mem
      exact wf.ne_next mem eq

/-- Capturing variables creates outers only. -/
theorem WF.capture (wf : v.WF) (k : LVClosure) (outers : List LVOuterVar) :
    (captureOuters k v outers).2.WF ∧
      ∀ a, v.heap a ≠ none → (captureOuters k v outers).2.heap a = v.heap a := by
  induction outers generalizing v with
  | nil => exact ⟨wf, fun _ _ => rfl⟩
  | cons outer rest ih =>
    simp only [LVVM.captureOuters]
    cases outer.type with
    | otLOCAL =>
      have same := @WF.findOuter_heap v wf (v.stackbase + outer.src)
      obtain ⟨wf', heap⟩ := ih (wf.findOuter (v.stackbase + outer.src))
      refine ⟨wf', fun a some => ?_⟩
      rw [heap a (by rwa [same some]), same some]
    | otOUTER => exact ih wf

end LVVM

end Lavril
