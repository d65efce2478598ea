import Lavril.Metamethod
import Lavril.Potential
import Mathlib.Algebra.Group.Int.Defs
import Mathlib.Algebra.Group.Prod

/-!
# The operands of metamethods

Every operation leaves `_top` and `_nmetamethodscall` as they were, apart from
the three operands of each `_set` metamethod that fails with null.
-/

namespace Lavril

open Potential

namespace MetaVM

variable {Heap : Type}

/-- The calls of `_set` metamethods that have failed with null. -/
def notFoundSets (calls : List MetaCall) : Nat :=
  calls.countP fun c => c.mm = .MT_SET && c.notFound

def AllKept (s : MetaVM Heap) : Prop := ∀ c ∈ s.calls, c.kept

/-- What the operations leave alone. -/
def balance (s : MetaVM Heap) : ℤ × ℤ :=
  (s.top - 3 * notFoundSets s.calls, s.nmetamethodscall)

end MetaVM

namespace ObjectM

open MetaVM

variable {Heap α : Type} {W : Objects Heap}

/-- A computation that shifts `_top` by `k`. -/
abbrev Moves (k : ℤ) (m : ObjectM Heap α) : Prop := Shifts AllKept balance (k, 0) m

theorem push_moves (o : LVObject) : Moves 1 (push o : ObjectM Heap Unit) := by
  refine Shifts.modify (fun s kept => kept) (fun s => ?_)
  simp only [balance, LVVM.push, LVVM.setSlot, Prod.mk_add_mk, Prod.mk.injEq]
  omega

/-- An operand, before the rest. -/
theorem push_then {β : Type} {k : ℤ} {f : Unit → ObjectM Heap β} (o : LVObject)
    (rest : ∀ u, Moves (k - 1) (f u)) : Moves k (push o >>= f) := by
  refine ((push_moves o).bind rest).congr ?_
  simp only [Prod.mk_add_mk, Prod.mk.injEq]
  omega

theorem setObjects_moves (objects : Heap) : Moves 0 (setObjects objects) := by
  refine Shifts.modify (fun s kept => kept) (fun s => ?_)
  simp [balance]

theorem raise_moves (text : String) : Moves 0 (raise text : ObjectM Heap (Option α)) := by
  refine Shifts.after (Shifts.modify (fun s kept => kept) (fun s => ?_)) fun _ => Shifts.pure _
  simp [balance]

/-- A call is recorded, and one that is kept leaves `_top` and the counter. -/
theorem call_spec {mm : LVMetaMethod} {closure : LVObject} {nparams : Nat} {s s' : MetaVM Heap}
    {result : Option LVObject} (run : call W mm closure nparams s = some (result, s')) :
    ∃ c : MetaCall, s'.calls = s.calls ++ [c] ∧ c.mm = mm ∧
      c.notFound = (result.isNone && s'.lasterror.type = .OT_NULL) ∧
      (c.kept → s'.top = s.top ∧ s'.nmetamethodscall = s.nmetamethodscall) := by
  cases run
  refine ⟨_, rfl, rfl, rfl, fun kept => ?_⟩
  simpa only [Bool.and_eq_true, decide_eq_true_eq] using kept

/-- After the call of a metamethod other than a `_set` that was not found, all
that is left to do is to pop its operands and to leave it. -/
theorem call_balance {mm : LVMetaMethod} {closure : LVObject} {nparams : Nat} {s s₁ : MetaVM Heap}
    {result : Option LVObject} (run : call W mm closure nparams s = some (result, s₁))
    (kept : AllKept s₁) (found : mm ≠ .MT_SET ∨ result.isSome ∨ s₁.lasterror.type ≠ .OT_NULL) :
    AllKept s ∧ s₁.balance = s.balance := by
  obtain ⟨c, calls, mmEq, notFound, keeps⟩ := call_spec run
  simp only [AllKept, calls] at kept
  obtain ⟨top, count⟩ := keeps (kept c (by simp))
  refine ⟨fun c' mem => kept c' (List.mem_append_left _ mem), ?_⟩
  have sets : notFoundSets s₁.calls = notFoundSets s.calls := by
    have no : (decide (c.mm = .MT_SET) && c.notFound) = false := by
      rw [notFound, mmEq]
      rcases found with ne | some | error
      · simp [ne]
      · cases result with
        | none => cases some
        | some value => simp
      · simp [error]
    simp [notFoundSets, calls, no]
  simp only [balance, top, count, sets]

theorem callMetaMethod_moves {mm : LVMetaMethod} (closure : LVObject) (nparams : Nat)
    (ne : mm ≠ .MT_SET) : Moves (-nparams) (CallMetaMethod W closure mm nparams) := by
  intro s a s' run kept
  obtain ⟨_, s₀, enter, run⟩ := run_bind.mp run
  cases enter
  obtain ⟨outres, s₁, called, run⟩ := run_bind.mp run
  cases run
  obtain ⟨startKept, same⟩ := call_balance called kept (.inl ne)
  refine ⟨startKept, ?_⟩
  simp only [balance, LVVM.pop, LVVM.nullSlots, Prod.mk.injEq, Prod.mk_add_mk] at same ⊢
  omega

theorem getMetaMethod_moves (self key : LVObject) : Moves 0 (getMetaMethod W self key) := by
  refine Shifts.read fun s => ?_
  split
  · exact Shifts.pure _
  · refine push_then self fun _ => push_then key fun _ => ?_
    intro s a s' run kept
    obtain ⟨_, s₀, enter, run⟩ := run_bind.mp run
    cases enter
    obtain ⟨result, s₁, called, run⟩ := run_bind.mp run
    cases result with
    | none =>
      cases run
      obtain ⟨startKept, same⟩ := call_balance called kept (.inl (by decide))
      refine ⟨startKept, ?_⟩
      simp only [balance, LVVM.pop, LVVM.nullSlots, Prod.mk.injEq, Prod.mk_add_mk] at same ⊢
      omega
    | some dest =>
      cases run
      obtain ⟨startKept, same⟩ := call_balance called kept (.inl (by decide))
      refine ⟨startKept, ?_⟩
      simp only [balance, LVVM.pop, LVVM.nullSlots, Prod.mk.injEq, Prod.mk_add_mk] at same ⊢
      omega

/-- The operands that a `_set` metamethod leaves are counted by the potential. -/
theorem setMetaMethod_moves (self key val : LVObject) : Moves 0 (setMetaMethod W self key val) := by
  refine Shifts.read fun s => ?_
  split
  · exact Shifts.pure _
  · refine push_then self fun _ => push_then key fun _ => push_then val fun _ => ?_
    intro s a s' run kept
    obtain ⟨_, s₀, enter, run⟩ := run_bind.mp run
    cases enter
    obtain ⟨result, s₁, called, run⟩ := run_bind.mp run
    cases result with
    | some dest =>
      cases run
      obtain ⟨startKept, same⟩ := call_balance called kept (.inr (.inl rfl))
      refine ⟨startKept, ?_⟩
      simp only [balance, LVVM.pop, LVVM.nullSlots, Prod.mk.injEq, Prod.mk_add_mk] at same ⊢
      omega
    | none =>
      obtain ⟨_, s₂, read, run⟩ := run_bind.mp run
      cases read
      split at run
      case isTrue error =>
        cases run
        obtain ⟨startKept, same⟩ := call_balance called kept (.inr (.inr error))
        refine ⟨startKept, ?_⟩
        simp only [balance, LVVM.pop, LVVM.nullSlots, Prod.mk.injEq, Prod.mk_add_mk] at same ⊢
        omega
      case isFalse null =>
        cases run
        obtain ⟨c, calls, mm, notFound, keeps⟩ := call_spec called
        simp only [AllKept, calls] at kept
        obtain ⟨top, count⟩ := keeps (kept c (by simp))
        dsimp only at top count
        refine ⟨fun c' mem => kept c' (List.mem_append_left _ mem), ?_⟩
        have counted : (decide (c.mm = .MT_SET) && c.notFound) = true := by
          simp only [ne_eq, Decidable.not_not] at null
          simp [mm, notFound, null]
        simp only [balance, notFoundSets, calls, List.countP_append, List.countP_singleton, counted,
          Prod.mk.injEq, Prod.mk_add_mk, if_true]
        omega

/-! ## The operations -/

theorem fallBackGet_moves {getDelegate : LVObject → ObjectM Heap (Option LVObject)}
    (delegate : ∀ d, Moves 0 (getDelegate d)) (self key : LVObject) :
    Moves 0 (FallBackGet W getDelegate self key) := by
  simp only [FallBackGet]
  split
  · refine Shifts.read fun s => ?_
    split
    · exact Shifts.pure _
    · refine (delegate _).after fun found => ?_
      split
      · exact Shifts.pure _
      · exact getMetaMethod_moves self key
  · refine Shifts.read fun s => ?_
    split
    · exact Shifts.pure _
    · refine (delegate _).after fun found => ?_
      split
      · exact Shifts.pure _
      · exact getMetaMethod_moves self key
  · exact getMetaMethod_moves self key
  · exact Shifts.pure _

theorem get_moves (fuel : Nat) (self key : LVObject) (raw quiet selfidx0 : Bool) :
    Moves 0 (Get W fuel self key raw quiet selfidx0) := by
  induction fuel generalizing self raw quiet selfidx0 with
  | zero => exact Shifts.failure
  | succ fuel ih =>
    have noSlot : Moves 0 (noIndex W quiet key) := .ite (.pure _) (raise_moves _)
    refine Shifts.read fun s => ?_
    split
    · exact Shifts.pure _
    · exact noSlot
    · have fallback : Moves 0
          (getFallback W raw (fun d => Get W fuel d key false false false) self key) :=
        .ite (.pure _) (fallBackGet_moves (fun d => ih d false false false) self key)
      refine fallback.after fun result => ?_
      split
      · exact Shifts.pure _
      · exact Shifts.pure _
      · refine Shifts.read fun s => ?_
        split
        · exact Shifts.pure _
        · split
          · exact noSlot
          · refine (ih _ false false false).after fun found => ?_
            split
            · exact Shifts.pure _
            · exact noSlot

theorem setObjects_last {β : Type} (objects : Heap) (b : β) :
    Moves 0 (do setObjects objects; Pure.pure b) :=
  (setObjects_moves objects).last fun _ => b

theorem fallBackSet_moves {setDelegate : LVObject → ObjectM Heap (Option Unit)}
    (delegate : ∀ d, Moves 0 (setDelegate d)) (self key val : LVObject) :
    Moves 0 (FallBackSet W setDelegate self key val) := by
  simp only [FallBackSet]
  split
  · refine Shifts.read fun s => ?_
    split
    · exact setMetaMethod_moves self key val
    · refine (delegate _).after fun done => ?_
      split
      · exact Shifts.pure _
      · exact setMetaMethod_moves self key val
  · exact setMetaMethod_moves self key val
  · exact setMetaMethod_moves self key val
  · exact Shifts.pure _

theorem setFallback_moves {setDelegate : LVObject → ObjectM Heap (Option Unit)}
    (delegate : ∀ d, Moves 0 (setDelegate d)) (self key val : LVObject) (selfidx0 : Bool) :
    Moves 0 (setFallback W setDelegate self key val selfidx0) := by
  refine (fallBackSet_moves delegate self key val).after fun result => ?_
  split
  · exact Shifts.pure _
  · exact Shifts.pure _
  · refine Shifts.read fun s => ?_
    split
    · exact setObjects_last _ _
    · exact raise_moves _

/-- A value that has the slot takes the new value, and the rest is for one that has not. -/
theorem slotSet_moves {rest : ObjectM Heap (Option Unit)} (self key val : LVObject)
    (moves : Moves 0 rest) : Moves 0 (do
      match W.set (← get).objects self key val with
      | some objects =>
        setObjects objects
        return some ()
      | none => rest) := by
  refine Shifts.read fun s => ?_
  split
  · exact setObjects_last _ _
  · exact moves

theorem set_moves (fuel : Nat) (self key val : LVObject) (selfidx0 : Bool) :
    Moves 0 (Set W fuel self key val selfidx0) := by
  induction fuel generalizing self selfidx0 with
  | zero => exact Shifts.failure
  | succ fuel ih =>
    have fallback : Moves 0
        (setFallback W (fun d => Set W fuel d key val false) self key val selfidx0) :=
      setFallback_moves (fun d => ih d false) self key val selfidx0
    simp only [Set]
    split
    · exact slotSet_moves _ key val fallback
    · exact slotSet_moves _ key val fallback
    · exact .ite (slotSet_moves _ key val (raise_moves _)) (raise_moves _)
    · exact raise_moves _

theorem newSlot_moves (self key val : LVObject) (bstatic : Bool) :
    Moves 0 (NewSlot W self key val bstatic) := by
  have called : ∀ closure, Moves 0 (do
      push self
      push key
      push val
      return (← CallMetaMethod W closure .MT_NEWSLOT 3).map fun _ => ()) := fun closure =>
    push_then self fun _ => push_then key fun _ => push_then val fun _ =>
      (callMetaMethod_moves closure 3 (by decide)).last _
  refine Shifts.read fun s => .ite (raise_moves _) ?_
  split
  · split
    · exact called _
    · exact setObjects_last _ _
  · split
    · exact called _
    · exact raise_moves _
  · split
    · exact setObjects_last _ _
    · exact .ite (raise_moves _) (raise_moves _)
  · exact raise_moves _

theorem newSlotA_moves (self key val attrs : LVObject) (bstatic raw : Bool) :
    Moves 0 (NewSlotA W self key val attrs bstatic raw) := by
  refine .ite (raise_moves _) (Shifts.read fun s => ?_)
  split
  · exact push_then self fun _ => push_then key fun _ => push_then val fun _ =>
      push_then attrs fun _ => push_then (.bool bstatic) fun _ =>
        (callMetaMethod_moves _ 5 (by decide)).last _
  · refine (newSlot_moves self key val bstatic).after fun done => ?_
    split
    · exact Shifts.pure _
    · exact .ite (Shifts.read fun s => setObjects_last _ _) (Shifts.pure _)

theorem deleteSlot_moves (self key : LVObject) : Moves 0 (DeleteSlot W self key) := by
  refine Shifts.read fun s => .ite ?_ (raise_moves _)
  split
  · exact push_then self fun _ => push_then key fun _ => callMetaMethod_moves _ 2 (by decide)
  · refine .ite ?_ (raise_moves _)
    split
    · exact setObjects_last _ _
    · exact raise_moves _

theorem cloned_moves (self : LVObject) : Moves 0 (do
    let (newobj, objects) := W.clone (← get).objects self
    setObjects objects
    match delegateMetaMethod W objects newobj .MT_CLONED with
    | some closure =>
      push newobj
      push self
      return (← CallMetaMethod W closure .MT_CLONED 2).map fun _ => newobj
    | none => return some newobj) := by
  refine Shifts.read fun s => (setObjects_moves _).after fun _ => ?_
  split
  · exact push_then _ fun _ => push_then self fun _ => (callMetaMethod_moves _ 2 (by decide)).last _
  · exact Shifts.pure _

theorem clone_moves (self : LVObject) : Moves 0 (Clone W self) := by
  simp only [Clone]
  split
  · exact cloned_moves _
  · exact cloned_moves _
  · exact Shifts.read fun s => setObjects_last _ _
  · exact raise_moves _

/-! ## Delegates that end -/

/-- At most that many delegates follow each other. -/
def Within (W : Objects Heap) (objects : Heap) : Nat → LVObject → Prop
  | 0, o => W.delegate objects o = none
  | n + 1, o => ∀ d, W.delegate objects o = some d → Within W objects n d

theorem raise_returns (text : String) (s : MetaVM Heap) :
    Returns s (raise text : ObjectM Heap (Option α)) := .bind (.modify _) fun _ _ => .pure _

theorem setMetaMethod_returns (self key val : LVObject) (s : MetaVM Heap) :
    Returns s (setMetaMethod W self key val) := by
  refine .read ?_
  split
  · exact .pure _
  · refine .bind (.modify _) fun _ _ => .bind (.modify _) fun _ _ => .bind (.modify _) fun _ _ =>
      .bind (.modify _) fun _ _ => .bind rfl fun result _ => ?_
    split
    · exact .bind (.modify _) fun _ _ => .bind (.modify _) fun _ _ => .pure _
    · refine .read (.ite ?_ ?_)
      · exact .bind (.modify _) fun _ _ => .bind (.modify _) fun _ _ => .pure _
      · exact .bind (.modify _) fun _ _ => .pure _

theorem setFallback_returns {setDelegate : LVObject → ObjectM Heap (Option Unit)}
    {s : MetaVM Heap} {self : LVObject}
    (delegate : ∀ d, W.delegate s.objects self = some d → Returns s (setDelegate d))
    (key val : LVObject) (selfidx0 : Bool) :
    Returns s (setFallback W setDelegate self key val selfidx0) := by
  have fallback : Returns s (FallBackSet W setDelegate self key val) := by
    simp only [FallBackSet]
    split
    · refine .read ?_
      split
      · exact setMetaMethod_returns self key val s
      case h_2 d eq =>
        refine .bind (delegate d eq) fun done mid => ?_
        split
        · exact .pure _
        · exact setMetaMethod_returns self key val mid
    · exact setMetaMethod_returns self key val s
    · exact setMetaMethod_returns self key val s
    · exact .pure _
  refine .bind fallback fun result mid => ?_
  split
  · exact .pure _
  · exact .pure _
  · refine .read ?_
    split
    · exact .bind (.modify _) fun _ _ => .pure _
    · exact raise_returns _ _

/-- `Set` comes back when the delegates end and `Call` does. -/
theorem slotSet_returns {rest : ObjectM Heap (Option Unit)} {s : MetaVM Heap}
    (self key val : LVObject) (returns : Returns s rest) : Returns s (do
      match W.set (← get).objects self key val with
      | some objects =>
        setObjects objects
        return some ()
      | none => rest) := by
  refine .read ?_
  split
  · exact .bind (.modify _) fun _ _ => .pure _
  · exact returns

theorem set_returns {fuel n : Nat} {self : LVObject} {s : MetaVM Heap}
    (ends : Within W s.objects n self) (enough : n < fuel) (key val : LVObject) (selfidx0 : Bool) :
    Returns s (Set W fuel self key val selfidx0) := by
  induction fuel generalizing n self selfidx0 with
  | zero => omega
  | succ fuel ih =>
    have fallback : Returns s
        (setFallback W (fun d => Set W fuel d key val false) self key val selfidx0) := by
      refine setFallback_returns (fun d eq => ?_) key val selfidx0
      cases n with
      | zero =>
        rw [Within, eq] at ends
        cases ends
      | succ n => exact ih (ends d eq) (by omega) false
    simp only [Set]
    split
    · exact slotSet_returns _ key val fallback
    · exact slotSet_returns _ key val fallback
    · exact .ite (slotSet_returns _ key val (raise_returns _ _)) (raise_returns _ _)
    · exact raise_returns _ _

theorem stringCatWith_moves {toStr : LVObject → ObjectM Heap (Option LVObject)}
    (text : ∀ o, Moves 0 (toStr o)) (str obj : LVObject) :
    Moves 0 (stringCatWith toStr str obj) := by
  refine (text str).after fun a => ?_
  split
  · exact Shifts.pure _
  · refine (text obj).after fun b => ?_
    split
    · exact Shifts.pure _
    · exact Shifts.pure _

theorem catAll_moves {toStr : LVObject → ObjectM Heap (Option LVObject)}
    (text : ∀ o, Moves 0 (toStr o)) (pieces : List LVObject) (str : LVObject) :
    Moves 0 (catAll toStr pieces str) := by
  induction pieces generalizing str with
  | nil => exact Shifts.pure _
  | cons piece pieces ih => exact (stringCatWith_moves text str piece).after fun dest => ih _

theorem entries_moves {toStr toStrIn : LVObject → ObjectM Heap (Option LVObject)}
    (text : ∀ o, Moves 0 (toStr o)) (textIn : ∀ o, Moves 0 (toStrIn o)) (o : LVObject) (ident : Nat)
    (line : LVObject → LVObject → List LVObject) (steps refidx : Nat) (rs str : LVObject) :
    Moves 0 (entries W toStr toStrIn o ident line steps refidx rs str) := by
  induction steps generalizing refidx rs str with
  | zero => exact Shifts.failure
  | succ steps ih =>
    refine Shifts.read fun s => ?_
    split
    · exact Shifts.pure _
    · exact (textIn _).after fun rs => (catAll_moves text _ _).after fun str => ih _ _ _

theorem container_moves {toStr toStrIn : LVObject → ObjectM Heap (Option LVObject)}
    (text : ∀ o, Moves 0 (toStr o)) (textIn : ∀ o, Moves 0 (toStrIn o)) (steps : Nat) (o : LVObject)
    (ident : Nat) (first last : String) (line : LVObject → LVObject → List LVObject) :
    Moves 0 (container W toStr toStrIn steps o ident first last line) :=
  (entries_moves text textIn o ident line steps 0 .null _).after fun _ =>
    Shifts.read fun _ => (catAll_moves text _ _).after fun _ => (catAll_moves text _ _).last _

/-- The text of a value that no other case of `ToString` is for. -/
theorem objectText_moves (o : LVObject) : Moves 0 (do
    match delegateMetaMethod W (← get).objects o .MT_TOSTRING with
    | none => return some (.string ("(" ++ o.type.name ++ ")"))
    | some closure =>
      push o
      match ← CallMetaMethod W closure .MT_TOSTRING 1 with
      | none => return none
      | some res =>
        return some (if res.type = .OT_STRING then res
          else .string ("(" ++ o.type.name ++ ")"))) := by
  refine Shifts.read fun s => ?_
  split
  · exact Shifts.pure _
  · refine push_then o fun _ => ?_
    refine ((callMetaMethod_moves _ 1 (by decide)).bind (l := 0) fun res => ?_).congr (by decide)
    split
    · exact Shifts.pure _
    · exact Shifts.pure _

theorem toString_moves (fuel : Nat) (o : LVObject) (ident : Nat) :
    Moves 0 (ToString W fuel o ident) := by
  induction fuel generalizing o ident with
  | zero => exact Shifts.failure
  | succ fuel ih =>
    have text : ∀ o, Moves 0 (ToString W fuel o 0) := fun o => ih o 0
    simp only [ToString]
    split
    · exact Shifts.pure _
    · exact Shifts.pure _
    · exact Shifts.pure _
    · exact Shifts.pure _
    · exact container_moves text (fun o => ih o _) _ _ _ _ _ _
    · exact container_moves text (fun o => ih o _) _ _ _ _ _ _
    · exact Shifts.read fun s => (text _).after fun rs => (catAll_moves text _ _).last _
    · exact objectText_moves _
    · exact objectText_moves _
    · exact Shifts.pure _

theorem typeOf_moves (o : LVObject) : Moves 0 (TypeOf W o) := by
  refine Shifts.read fun s => ?_
  split
  · exact push_then o fun _ => callMetaMethod_moves _ 1 (by decide)
  · exact Shifts.pure _

theorem arithMetaMethod_moves (op : Char) (o1 o2 : LVObject) :
    Moves 0 (ArithMetaMethod W op o1 o2) := by
  have method : arithMethod op ≠ .MT_SET := by
    simp only [arithMethod]
    split <;> decide
  refine Shifts.read fun s => ?_
  split
  · exact push_then o1 fun _ => push_then o2 fun _ => callMetaMethod_moves _ 2 method
  · exact raise_moves _

theorem arithOp_moves (fuel : Nat) (op : Char) (o1 o2 : LVObject) :
    Moves 0 (ARITH_OP W fuel op o1 o2) := by
  refine .ite ?_ (.ite (.pure _) (.ite ?_ (arithMetaMethod_moves op o1 o2)))
  · split
    · exact Shifts.pure _
    · exact raise_moves _
  · exact stringCatWith_moves (fun o => toString_moves fuel o 0) o1 o2

theorem negOp_moves (o : LVObject) : Moves 0 (NEG_OP W o) := by
  simp only [NEG_OP]
  split
  · exact Shifts.pure _
  · exact Shifts.pure _
  · refine Shifts.read fun s => ?_
    split
    · exact push_then o fun _ => callMetaMethod_moves _ 1 (by decide)
    · exact raise_moves _

theorem objCmp_moves (o1 o2 : LVObject) : Moves 0 (ObjCmp W o1 o2) := by
  refine .ite (.pure _) (Shifts.read fun s => ?_)
  split
  · refine push_then o1 fun _ => push_then o2 fun _ => ?_
    refine ((callMetaMethod_moves _ 2 (by decide)).bind (l := 0) fun res => ?_).congr (by decide)
    split
    · exact Shifts.pure _
    · exact .ite (raise_moves _) (.pure _)
  · split
    · exact Shifts.pure _
    · exact raise_moves _

theorem run_moves (fuel : Nat) (op : ObjectOp) : Moves 0 (op.run W fuel) := by
  cases op with
  | get self key raw quiet selfidx0 => exact (get_moves fuel self key raw quiet selfidx0).last _
  | set self key val selfidx0 => exact (set_moves fuel self key val selfidx0).last _
  | newSlot self key val bstatic => exact (newSlot_moves self key val bstatic).last _
  | newSlotA self key val attrs bstatic raw =>
    exact (newSlotA_moves self key val attrs bstatic raw).last _
  | deleteSlot self key => exact (deleteSlot_moves self key).last _
  | clone self => exact (clone_moves self).last _
  | toString o ident => exact (toString_moves fuel o ident).last _
  | stringCat str obj =>
    exact (stringCatWith_moves (fun o => toString_moves fuel o 0) str obj).last _
  | typeOf o => exact (typeOf_moves o).last _
  | objCmp o1 o2 => exact (objCmp_moves o1 o2).last _
  | cmpOp op o1 o2 => exact ((objCmp_moves o1 o2).last _).last _
  | arithOp op o1 o2 => exact (arithOp_moves fuel op o1 o2).last _
  | negOp o => exact (negOp_moves o).last _

end ObjectM

/-- An operation whose metamethods keep their frames in order leaves `_top` and
`_nmetamethodscall` as they were, unless a `_set` metamethod fails with null. -/
theorem operands_balanced_iff {Heap : Type} (W : Objects Heap) (fuel : Nat) (op : ObjectOp)
    (s s' : MetaVM Heap) (start : s.calls = []) (run : op.run W fuel s = some ((), s'))
    (kept : ∀ c ∈ s'.calls, c.kept) :
    (s'.top = s.top ∧ s'.nmetamethodscall = s.nmetamethodscall) ↔
      ∀ c ∈ s'.calls, ¬ (c.mm = .MT_SET ∧ c.notFound) := by
  obtain ⟨-, same⟩ := ObjectM.run_moves fuel op s () s' run kept
  have none : MetaVM.notFoundSets s'.calls = 0 ↔
      ∀ c ∈ s'.calls, ¬ (c.mm = .MT_SET ∧ c.notFound) := by
    simp [MetaVM.notFoundSets, List.countP_eq_zero]
  have before : MetaVM.notFoundSets s.calls = 0 := by
    simp [MetaVM.notFoundSets, start]
  simp only [MetaVM.balance, Prod.mk_add_mk, Prod.mk.injEq, before] at same
  rw [← none]
  omega

/-- Objects whose only metamethods are `_get` and `_set`, and what calls of them answer. -/
def answering (answer : Option LVObject) : Objects Unit where
  get _ _ _ := none
  set _ _ _ _ := none
  delegate _ _ := none
  getMetaMethod _ _ mm := if mm = .MT_GET ∨ mm = .MT_SET then some (.ref .OT_CLOSURE 1) else none
  invokeDefaultDelegate _ _ _ := none
  root _ := none
  roottable := .ref .OT_TABLE 2
  newSlot _ _ _ _ _ := none
  locked _ _ := false
  setAttributes _ _ _ _ := ()
  remove _ _ _ := ()
  clone _ o := (o, ())
  next _ _ _ := none
  count _ _ := 0
  referent _ o := o
  floatText _ := ""
  floatText14 _ := ""
  floatOp _ o _ := o
  floatNeg o := o
  floatLess _ _ := false
  floatEqual _ _ := false
  call _ _ _ s := (answer, { s with lasterror := .null })

def emptyVM : MetaVM Unit where
  stack _ := .null
  stacksize := 1024
  stackbase := 0
  top := 10
  callsstack := []
  alloccallsstacksize := 4
  nmetamethodscall := 0
  nnativecalls := 0
  etraps := []
  openouters := []
  heap _ := none
  next := 0
  lasterror := .null
  objects := ()
  calls := []

/-- `x.key = 1` of an instance. -/
def setOp : ObjectOp := .set (.ref .OT_INSTANCE 3) (.string "key") (.integer 1) false

theorem operands_balanced_set_found : ∃ s',
    setOp.run (answering (some .null)) 1 emptyVM = some ((), s') ∧
    s'.top = emptyVM.top ∧ s'.nmetamethodscall = emptyVM.nmetamethodscall :=
  ⟨_, rfl, (operands_balanced_iff (answering (some .null)) 1 setOp emptyVM _ rfl rfl
    (by decide)).mpr (by decide)⟩

/-- The three operands of a `_set` that answers "not found" stay on the stack. -/
theorem set_notFound_leaves_operands : ∃ s',
    setOp.run (answering none) 1 emptyVM = some ((), s') ∧ (∀ c ∈ s'.calls, c.kept) ∧
    s'.top = emptyVM.top + 3 :=
  ⟨_, rfl, by decide, rfl⟩

end Lavril
