import Lavril.TableOperations

/-!
# What the operations answer

`NewSlot` promises to say whether it has created a slot. When the new key takes
the last free node the array is rehashed, with the key in it, and the insertion
that is tried again finds the key bound.
-/

namespace Lavril

namespace LVTable

variable (HashObj : LVObject → Nat) {t t' : LVTable} {key val : LVObject}

/-- Tables made by any sequence of operations. Only `NewSlot` asserts that its key
is not null. -/
inductive Reaches : LVTable → Prop
  | create (nInitialSize : Int) : Reaches (create nInitialSize)
  | newSlot {t t' : LVTable} {depth : Nat} {key val : LVObject} {answer : Bool}
      (before : Reaches t) (notNull : key.type ≠ .OT_NULL)
      (run : t.newSlot HashObj (depth + 2) key val = some (answer, t')) : Reaches t'
  | set {t t' : LVTable} {key val : LVObject} {answer : Bool} (before : Reaches t)
      (run : t.set HashObj key val = some (answer, t')) : Reaches t'
  | remove {t t' : LVTable} {depth : Nat} {key : LVObject} (before : Reaches t)
      (notNull : key.type ≠ .OT_NULL)
      (run : t.remove HashObj (depth + 1) key = some t') : Reaches t'
  | clear {t t' : LVTable} {depth : Nat} (before : Reaches t)
      (run : t.clear HashObj (depth + 1) = some t') : Reaches t'

variable {HashObj}

theorem Inv.set (h : Inv HashObj t) {answer : Bool}
    (run : t.set HashObj key val = some (answer, t')) : Inv HashObj t' := by
  unfold LVTable.set at run
  split at run
  · cases run
  · cases run
    exact h.setVal HashObj _ val
  · cases run
    exact h

theorem Reaches.inv (reaches : Reaches HashObj t) : Inv HashObj t := by
  induction reaches with
  | create nInitialSize => exact (create_inv HashObj nInitialSize).1
  | @newSlot t t' depth key val answer before notNull run ih =>
    obtain ⟨b, done, eq, inv, -⟩ := newSlot_spec HashObj val depth ih notNull
    obtain ⟨-, rfl⟩ := Prod.mk.inj (Option.some.inj (eq.symm.trans run))
    exact inv
  | set before run ih => exact ih.set run
  | @remove t t' depth key before notNull run ih =>
    obtain ⟨done, eq, inv, -⟩ := remove_spec HashObj depth ih notNull
    obtain rfl := Option.some.inj (eq.symm.trans run)
    exact inv
  | @clear t t' depth before run ih =>
    obtain ⟨done, eq, inv, -⟩ := clear_spec HashObj depth ih
    obtain rfl := Option.some.inj (eq.symm.trans run)
    exact inv

/-! ## Free nodes -/

/-- A node the free pointer may stop at. -/
def Free (t : LVTable) (i : Nat) : Prop := ¬ t.Live i ∧ t.next i = none

def Bound (t : LVTable) (key : LVObject) : Prop := ∃ i, i < t.numofnodes ∧ (t.nodes i).key = key

instance (t : LVTable) (key : LVObject) : Decidable (t.Bound key) :=
  inferInstanceAs (Decidable (∃ i, i < _ ∧ _))

variable (HashObj)

/-- The node that is no longer free when a new key has been stored. -/
def taken (t : LVTable) (key : LVObject) : Nat :=
  if t.Live (t.mainPosition HashObj key) then t.firstfree else t.mainPosition HashObj key

/-- A free node for the free pointer, once the key is stored. -/
def Spare (t : LVTable) (key : LVObject) : Prop :=
  ∃ i, i ≤ t.firstfree ∧ i ≠ t.taken HashObj key ∧ t.Free i

variable {HashObj}

theorem correctFirstfree_iff {f : Nat} :
    (∃ g, t.correctFirstfree f = some g) ↔ ∃ i, i ≤ f ∧ t.Free i := by
  constructor
  · rintro ⟨g, found⟩
    obtain ⟨le, dead, free, -⟩ := correctFirstfree_some found
    exact ⟨g, le, dead, free⟩
  · rintro ⟨i, le, dead, free⟩
    exact correctFirstfree_exists le dead free

theorem free_modify (i n : Nat) (f : HashNode → HashNode) :
    (t.modify n f).Free i ↔
      if i = n then (f (t.nodes n)).key.type = .OT_NULL ∧ (f (t.nodes n)).next = none
      else t.Free i := by
  by_cases same : i = n
  · subst same
    rw [if_pos rfl, Free, Live, next, modify_self, not_not]
  · rw [if_neg same, Free, Live, next, modify_other _ same, Free, Live, next]

/-- Storing a new key takes one free node and leaves the others free. -/
theorem insertionNode_free (h : Inv HashObj t) (notNull : key.type ≠ .OT_NULL) {t₁ : LVTable}
    {mp : Nat} (run : t.insertionNode HashObj key = some (t₁, mp)) (i : Nat) :
    (t₁.modify mp ({ · with key := key })).Free i ↔ i ≠ t.taken HashObj key ∧ t.Free i := by
  simp only [insertionNode] at run
  split at run
  · rename_i live
    have live : t.Live (t.mainPosition HashObj key) := live
    have used : ¬ t.Free (t.mainPosition HashObj key) := fun free => free.1 live
    have other : t.mainPosition HashObj key ≠ t.firstfree := by
      intro eq
      exact h.free_dead (eq ▸ live)
    rw [taken, if_pos live]
    split at run
    · split at run
      · -- the node of the main position moves to the free node
        rename_i othern found
        cases run
        have link : t.next othern = some (t.mainPosition HashObj key) := by
          obtain ⟨l, w, hs⟩ := search_find HashObj h.toCore
            (fun o => decide (t.next o = some (t.mainPosition HashObj key)))
            (mainPosition_lt HashObj (h.pos HashObj)
              (t.nodes (t.mainPosition HashObj key)).key)
          rw [hs, Option.some.injEq] at found
          simpa using List.find?_some found
        have linked : ¬ t.Free othern := by
          rintro ⟨-, none⟩
          rw [link] at none
          cases none
        have copied : ((t.modify othern ({ · with next := some t.firstfree })).nodes
            (t.mainPosition HashObj key)).key.type ≠ .OT_NULL := by
          by_cases same : t.mainPosition HashObj key = othern
          · rw [← same, modify_self]
            exact live
          · rw [modify_other _ same]
            exact live
        by_cases isMain : i = t.mainPosition HashObj key
        · simp [free_modify, isMain, notNull, used]
        by_cases isFirst : i = t.firstfree
        · simp [free_modify, isFirst, other.symm, copied]
        by_cases isOther : i = othern
        · subst isOther
          simp [free_modify, isMain, isFirst, linked]
        · simp [free_modify, isMain, isFirst, isOther]
      · cases run
    · cases run
      by_cases isFirst : i = t.firstfree
      · simp [free_modify, isFirst, notNull]
      by_cases isMain : i = t.mainPosition HashObj key
      · subst isMain
        simp [free_modify, other, used]
      · simp [free_modify, isFirst, isMain]
  · rename_i dead
    cases run
    have dead : ¬ t.Live (t.mainPosition HashObj key) := dead
    rw [taken, if_neg dead]
    by_cases isMain : i = t.mainPosition HashObj key
    · simp [free_modify, isMain, notNull]
    · simp [free_modify, isMain]

/-- `NewSlot` answers whether it has created a slot exactly when the key was bound or
there is a free node left once the key is stored. -/
theorem newSlot_answers_iff (reaches : Reaches HashObj t) (notNull : key.type ≠ .OT_NULL)
    (val : LVObject) (depth : Nat) :
    (∃ answer t', t.newSlot HashObj (depth + 2) key val = some (answer, t') ∧
      (answer = true ↔ ¬ t.Bound key)) ↔ t.Bound key ∨ t.Spare HashObj key := by
  have h := reaches.inv
  by_cases bound : t.Bound key
  · obtain ⟨i, lt, is⟩ := bound
    obtain ⟨run, -⟩ := newSlot_bound HashObj h notNull lt is (depth + 1) val
    refine iff_of_true ⟨false, _, run, ?_⟩ (.inl ⟨i, lt, is⟩)
    simpa using ⟨i, lt, is⟩
  have absent : ∀ i, i < t.numofnodes → (t.nodes i).key ≠ key := fun i lt is => bound ⟨i, lt, is⟩
  obtain ⟨t₁, mp, done, found, -, run, -⟩ := newSlot_absent HashObj val depth h notNull absent
  have spare : t.Spare HashObj key ↔
      ((t₁.modify mp ({ · with key := key })).correctFirstfree t.firstfree).isSome := by
    rw [Option.isSome_iff_exists, correctFirstfree_iff, Spare]
    exact exists_congr fun i => and_congr_right fun _ => (insertionNode_free h notNull found i).symm
  simp [bound, run, spare]

theorem newSlot_answers_first : ∃ answer t',
    (create 0).newSlot (fun _ => 0) 2 (.integer 7) (.bool true) = some (answer, t') ∧
      (answer = true ↔ ¬ (create 0).Bound (.integer 7)) :=
  (newSlot_answers_iff (.create 0 : Reaches (fun _ => 0) _) (by decide)
    (.bool true) 0).mpr (.inr ⟨1, by decide, by decide, by decide, rfl⟩)

/-- Hashing an integer key to itself. -/
def integerHash (key : LVObject) : Nat :=
  match key.unVal with
  | .raw bits => bits.toNat
  | .pString _ => 0

/-- The last of four new keys takes the last free node of a table of four. -/
theorem newSlot_answers_full : ∃ t t', Reaches integerHash t ∧ ¬ t.Bound (.integer 3) ∧
    t.newSlot integerHash 2 (.integer 3) .null = some (false, t') := by
  have one := @Reaches.newSlot integerHash _ _ 0 (.integer 0) .null _ (.create 4) (by decide) rfl
  have two := @Reaches.newSlot integerHash _ _ 0 (.integer 1) .null _ one (by decide) rfl
  have three := @Reaches.newSlot integerHash _ _ 0 (.integer 2) .null _ two (by decide) rfl
  exact ⟨_, _, three, by decide, rfl⟩

end LVTable

end Lavril
