import Lavril.TableOperations
import Mathlib.Data.Finmap

/-!
# The hash table as a finite map

The reference is a `Finmap` from non-null keys to values that are not weak
references. After any sequence of operations the table answers as it does, for
every hash function and every initial size.
-/

namespace Lavril

namespace LVTable

abbrev Key := { k : LVObject // k.type ≠ .OT_NULL }
abbrev Value := { v : LVObject // v.type ≠ .OT_WEAKREF }
abbrev Bindings := Finmap fun _ : Key => Value

inductive Operation where
  | newSlot (key : Key) (val : Value)
  | set (key : Key) (val : Value)
  | remove (key : Key)
  | clear

/-- What an operation means for the bindings. -/
def Operation.meaning (m : Bindings) : Operation → Bindings
  | .newSlot key val => m.insert key val
  | .set key val => if key ∈ m then m.insert key val else m
  | .remove key => m.erase key
  | .clear => ∅

def Operation.apply (HashObj : LVObject → Nat) (depth : Nat) (t : LVTable) :
    Operation → Option LVTable
  | .newSlot key val => (t.newSlot HashObj depth key val).map Prod.snd
  | .set key val => (t.set HashObj key val).map Prod.snd
  | .remove key => t.remove HashObj depth key
  | .clear => t.clear HashObj depth

structure Represents (HashObj : LVObject → Nat) (t : LVTable) (m : Bindings) : Prop where
  inv : Inv HashObj t
  binds : ∀ (k : Key) (v : Value), t.Binds k v ↔ m.lookup k = some v
  values : ∀ k v, t.Binds k v → v.type ≠ .OT_WEAKREF

variable {HashObj : LVObject → Nat} {t : LVTable} {m : Bindings}

theorem Represents.mem_iff (h : Represents HashObj t m) (k : Key) :
    k ∈ m ↔ ∃ v, t.Binds k v := by
  rw [Finmap.mem_iff]
  constructor
  · rintro ⟨v, hv⟩
    exact ⟨v, (h.binds k v).mpr hv⟩
  · rintro ⟨v, hv⟩
    exact ⟨⟨v, h.values k v hv⟩, (h.binds k _).mp hv⟩

/-- The number of live nodes is the number of keys: each key has one node. -/
theorem Represents.card (h : Represents HashObj t m) : t.liveSet.card = m.keys.card := by
  refine Finset.card_bij (fun i hi => ⟨(t.nodes i).key, (mem_liveSet.mp hi).2⟩) ?_ ?_ ?_
  · intro i hi
    rw [Finmap.mem_keys, h.mem_iff]
    exact ⟨_, i, (mem_liveSet.mp hi).1, (mem_liveSet.mp hi).2, rfl, rfl⟩
  · intro i hi j hj same
    rw [mem_liveSet] at hi hj
    exact h.inv.keys i j hi.1 hj.1 hi.2 hj.2 (congrArg Subtype.val same)
  · intro k hk
    rw [Finmap.mem_keys, h.mem_iff] at hk
    obtain ⟨v, i, hi, live, hkey, _⟩ := hk
    exact ⟨i, mem_liveSet.mpr ⟨hi, live⟩, Subtype.ext hkey⟩

theorem Represents.insert {done : LVTable} (h : Represents HashObj t m) {key : Key} {val : Value}
    (inv : Inv HashObj done) (stored : Stored t key val done) :
    Represents HashObj done (m.insert key val) := by
  refine ⟨inv, fun k v => ?_, fun k v hb => ?_⟩
  · rw [stored]
    by_cases hk : k = key
    · subst hk
      simp [Finmap.lookup_insert, Subtype.ext_iff, eq_comm]
    · have raw : (k : LVObject) ≠ key := fun e => hk (Subtype.ext e)
      simp [Finmap.lookup_insert_of_ne _ hk, raw, h.binds]
  · rcases (stored k v).mp hb with ⟨_, rfl⟩ | ⟨_, hb⟩
    · exact val.2
    · exact h.values k v hb

/-- One operation on the table is one operation on the map. -/
theorem Represents.step (h : Represents HashObj t m) (depth : Nat) (op : Operation) :
    ∃ done, op.apply HashObj (depth + 2) t = some done ∧
      Represents HashObj done (op.meaning m) := by
  cases op with
  | newSlot key val =>
    obtain ⟨b, done, run, inv, stored⟩ := newSlot_spec HashObj val depth h.inv key.2
    exact ⟨done, by simp [Operation.apply, run], h.insert inv stored⟩
  | set key val =>
    obtain ⟨b, done, run, inv, _, binds⟩ := set_spec HashObj val h.inv key.2
    refine ⟨done, by simp [Operation.apply, run], ?_⟩
    rw [Operation.meaning]
    split
    · next mem =>
      have has := (h.mem_iff key).mp mem
      exact h.insert inv fun k v => by simp [binds, has]
    · next notMem =>
      have fresh : ¬ ∃ w, t.Binds key w := fun has => notMem ((h.mem_iff key).mpr has)
      have same : ∀ k v, done.Binds k v ↔ t.Binds k v := by
        intro k v
        rw [binds]
        refine ⟨fun hb => hb.elim (fun hb => absurd hb.2.2 fresh) And.right, fun hb => ?_⟩
        exact Or.inr ⟨by rintro rfl; exact fresh ⟨v, hb⟩, hb⟩
      exact ⟨inv, fun k v => (same k v).trans (h.binds k v),
        fun k v hb => h.values k v ((same k v).mp hb)⟩
  | remove key =>
    obtain ⟨done, run, inv, binds⟩ := remove_spec HashObj (depth + 1) h.inv key.2
    refine ⟨done, run, inv, fun k v => ?_, fun k v hb => h.values k v ((binds k v).mp hb).2⟩
    rw [binds, Operation.meaning]
    by_cases hk : k = key
    · subst hk
      simp [Finmap.lookup_erase]
    · have raw : (k : LVObject) ≠ key := fun e => hk (Subtype.ext e)
      simp [Finmap.lookup_erase_ne hk, raw, h.binds]
  | clear =>
    obtain ⟨done, run, inv, empty⟩ := clear_spec HashObj (depth + 1) h.inv
    exact ⟨done, run, inv, fun k v => by simp [Operation.meaning, empty],
      fun k v hb => absurd hb (empty k v)⟩

theorem Represents.run (depth : Nat) (ops : List Operation) :
    ∀ {t m}, Represents HashObj t m → ∃ done,
      ops.foldlM (Operation.apply HashObj (depth + 2)) t = some done ∧
        Represents HashObj done (ops.foldl Operation.meaning m) := by
  induction ops with
  | nil => exact fun h => ⟨_, rfl, h⟩
  | cons op ops ih =>
    intro t m h
    obtain ⟨mid, first, hm⟩ := h.step depth op
    obtain ⟨done, rest, hd⟩ := ih hm
    refine ⟨done, ?_, hd⟩
    rw [List.foldlM_cons, first]
    exact rest

theorem create_represents (HashObj : LVObject → Nat) (nInitialSize : Int) :
    Represents HashObj (create nInitialSize) ∅ := by
  obtain ⟨inv, empty⟩ := create_inv HashObj nInitialSize
  exact ⟨inv, fun k v => by simp [empty], fun k v hb => absurd hb (empty k v)⟩

theorem Represents.get (h : Represents HashObj t m) (weakref : LVObjectValue → LVObject)
    (k : Key) : t.get HashObj weakref k = some ((m.lookup k).map Subtype.val) := by
  obtain ⟨r, run, value⟩ := get_spec HashObj weakref h.inv k.2
  rw [run]
  congr 1
  have plain : ∀ v, t.Binds k v → realval weakref v = v :=
    fun v hb => if_pos (h.values k v hb)
  ext o
  rw [value, Option.map_eq_some_iff]
  constructor
  · rintro ⟨v, hb, rfl⟩
    exact ⟨⟨v, h.values k v hb⟩, (h.binds k _).mp hb, (plain v hb).symm⟩
  · rintro ⟨v, hv, rfl⟩
    have hb := (h.binds k v).mpr hv
    exact ⟨v, hb, (plain v hb).symm⟩

/-- A table made by any sequence of operations behaves as the finite map made
by the same sequence. Two keys are one key of the map when they are equal in
type and in raw value. -/
theorem table_refines_map (HashObj : LVObject → Nat) (weakref : LVObjectValue → LVObject)
    (depth : Nat) (nInitialSize : Int) (ops : List Operation) :
    ∃ t, ops.foldlM (Operation.apply HashObj (depth + 2)) (create nInitialSize) = some t ∧
      (∀ k : Key, t.get HashObj weakref k =
        some (((ops.foldl Operation.meaning ∅).lookup k).map Subtype.val)) ∧
      (∀ (k : Key) (v : Value), ∃ t',
        t.set HashObj k v = some (decide (k ∈ ops.foldl Operation.meaning ∅), t')) ∧
      t.countUsed = (ops.foldl Operation.meaning ∅).keys.card := by
  obtain ⟨t, run, h⟩ := (create_represents HashObj nInitialSize).run depth ops
  refine ⟨t, run, h.get weakref, fun k v => ?_, ?_⟩
  · obtain ⟨b, done, eq, _, bound, _⟩ := set_spec HashObj v.1 h.inv k.2
    refine ⟨done, ?_⟩
    have same : b = decide (k ∈ ops.foldl Operation.meaning ∅) := by
      rw [Bool.eq_iff_iff, bound, decide_eq_true_iff, h.mem_iff]
    rw [eq, same]
  · rw [countUsed, h.inv.used, h.card]

end LVTable

end Lavril
