import Lavril.RefTable

/-!
# Asking for a reference count

`GetRefCount` finds its entry the way `AddRef` does, so a query of an object
that has no entry makes one. Its count is zero, which is what `Resize` does
not allow.
-/

namespace Lavril

namespace RefTable

variable (HashObj : LVObject → Nat) (t : RefTable)

/-- `GetRefCount`, with its answer. -/
def getRefCount (obj : LVObject) : Option (Nat × RefTable) :=
  (t.getOrAdd HashObj obj).map fun (ref, t) => ((t.nodes ref).refs, t)

/-- Tables that are also asked for counts, with the counts of their entries. -/
inductive Queried : RefTable → (LVObject → Option Nat) → Prop
  | create : Queried create fun _ => none
  | addRef {t t' : RefTable} {content : LVObject → Option Nat} {obj : LVObject}
      (before : Queried t content) (notNull : obj.type ≠ .OT_NULL)
      (run : t.addRef HashObj obj = some t') :
      Queried t' (Function.update content obj (some ((content obj).getD 0 + 1)))
  | release {t t' : RefTable} {content : LVObject → Option Nat} {obj : LVObject} {r : Nat}
      {answer : Bool} (before : Queried t content) (held : content obj = some (r + 1))
      (run : t.release HashObj obj = some (answer, t')) :
      Queried t' (Function.update content obj (if r = 0 then none else some r))
  | getRefCount {t t' : RefTable} {content : LVObject → Option Nat} {obj : LVObject} {n : Nat}
      (before : Queried t content) (notNull : obj.type ≠ .OT_NULL)
      (run : t.getRefCount HashObj obj = some (n, t')) :
      Queried t' (Function.update content obj (some ((content obj).getD 0)))

/-- The query of `obj` answers with its count, zero for an object without an entry,
and leaves every count and the number of used slots as they are. -/
def Reads (obj : LVObject) : Prop :=
  ∃ count t', t.getRefCount HashObj obj = some (count, t') ∧
    (t.entry HashObj obj).map (·.getD 0) = some count ∧
    (∀ o, t'.entry HashObj o = t.entry HashObj o) ∧ t'.slotused = t.slotused

variable {HashObj t} {t' : RefTable} {content : LVObject → Option Nat} {chains : Nat → List Nat}
  {free : List Nat} {o : LVObject}

/-- `Resize` fails at an entry whose count is zero. -/
theorem rehash_positive {new new' : RefTable × Nat} {nodes : List Nat}
    (run : nodes.foldlM (t.rehash HashObj) new = some new') :
    ∀ n ∈ nodes, (t.nodes n).obj.type ≠ .OT_NULL → 0 < (t.nodes n).refs := by
  induction nodes generalizing new with
  | nil => exact fun n mem => absurd mem List.not_mem_nil
  | cons m nodes ih =>
    rw [List.foldlM_cons, Option.bind_eq_bind, Option.bind_eq_some_iff] at run
    obtain ⟨mid, first, rest⟩ := run
    intro n mem live
    rcases List.mem_cons.mp mem with rfl | mem
    · by_contra zero
      have none : t.rehash HashObj new n = none := by
        simp [RefTable.rehash, live, show (t.nodes n).refs = 0 by omega]
      rw [none] at first
      cases first
    · exact ih rest n mem live

theorem Rep.resize_positive (rep : t.Rep HashObj content chains free) {size : Nat}
    (run : t.resize HashObj size = some t') : ∀ o r, content o = some r → 0 < r := by
  intro o r held
  obtain ⟨i, mem, obj⟩ := rep.found o r held
  obtain ⟨lt, notNull, -, is⟩ := rep.used _ (mainPosition_lt rep.pos o) i mem
  rw [obj, held, Option.some.injEq] at is
  rw [is]
  unfold RefTable.resize at run
  split at run
  · rename_i new nfound folded
    exact rehash_positive folded i (List.mem_range.mpr lt) notNull
  · cases run

/-- What a `Get` that ends has done, whatever the counts of the entries are. -/
theorem Rep.getOrAdd_run (rep : t.Rep HashObj content chains free) (notNull : o.type ≠ .OT_NULL)
    {i : Nat} (run : t.getOrAdd HashObj o = some (i, t')) :
    (t'.nodes i).refs = (content o).getD 0 ∧ (t'.nodes i).obj = o ∧
    ∃ chains' free', i ∈ chains' (t'.mainPosition HashObj o) ∧
      t'.Rep HashObj (Function.update content o (some ((content o).getD 0))) chains' free' := by
  by_cases positive : ∀ o r, content o = some r → 0 < r
  · obtain ⟨j, t₁, chains', free', run₁, obj, refs, mem, rep'⟩ := rep.getOrAdd positive notNull
    obtain ⟨rfl, rfl⟩ := Prod.mk.inj (Option.some.inj (run.symm.trans run₁))
    exact ⟨refs, obj, chains', free', mem, rep'⟩
  cases is : content o with
  | some r =>
    obtain ⟨before, j, after, eq, obj, refs, find⟩ := rep.find_present is
    simp only [RefTable.getOrAdd, find, Option.some.injEq, Prod.mk.injEq] at run
    obtain ⟨rfl, rfl⟩ := run
    refine ⟨refs, obj, chains, free, by simp [eq], ?_⟩
    rwa [Option.getD_some, ← is, Function.update_eq_self]
  | none =>
    obtain ⟨prev, find⟩ := rep.find_absent is
    have size := rep.size
    by_cases full : t.numofslots = t.slotused
    · -- the array would have to grow, and an entry without references stops that
      simp only [RefTable.getOrAdd, find, if_pos full] at run
      split at run
      · cases run
      · rw [Option.bind_eq_some_iff] at run
        obtain ⟨t₁, resized, -⟩ := run
        exact absurd (rep.resize_positive resized) positive
    · obtain ⟨j, t₁, added, slots, -, obj, chains', free', mem, rep'⟩ :=
        rep.add (by omega) notNull is
      simp only [RefTable.getOrAdd, find, if_neg full, added, Option.some.injEq,
        Prod.mk.injEq] at run
      obtain ⟨rfl, rfl⟩ := run
      have position : t₁.mainPosition HashObj o = t.mainPosition HashObj o := by
        unfold mainPosition
        rw [slots]
      obtain ⟨-, -, -, refs⟩ := rep'.used _ (mainPosition_lt rep'.pos o) j (position ▸ mem)
      rw [obj, Function.update_self, Option.some.injEq] at refs
      exact ⟨refs.symm, obj, chains', free', position ▸ mem, rep'⟩

theorem Queried.rep (queried : Queried HashObj t content) :
    ∃ chains free, t.Rep HashObj content chains free := by
  induction queried with
  | create => exact ⟨fun _ => [], List.range 4, allocNodes_rep (by omega)⟩
  | @addRef t t' content obj before notNull run ih =>
    obtain ⟨chains, free, rep⟩ := ih
    rw [RefTable.addRef, Option.map_eq_some_iff] at run
    obtain ⟨⟨i, t₁⟩, found, rfl⟩ := run
    obtain ⟨refs, is, chains', free', mem, rep'⟩ := rep.getOrAdd_run notNull found
    have set := rep'.setRefs (mainPosition_lt rep'.pos obj) mem ((content obj).getD 0 + 1)
    rw [is, Function.update_idem] at set
    refine ⟨chains', free', ?_⟩
    have same : t₁.modify i (fun r => { r with refs := r.refs + 1 }) =
        t₁.modify i ({ · with refs := (content obj).getD 0 + 1 }) := modify_congr (by rw [refs])
    rw [← same] at set
    exact set
  | @release t t' content obj r answer before held run ih =>
    obtain ⟨chains, free, rep⟩ := ih
    obtain ⟨t₁, chains', free', run₁, rep'⟩ := rep.release held (Nat.succ_pos r)
    obtain ⟨-, rfl⟩ := Prod.mk.inj (Option.some.inj (run₁.symm.trans run))
    refine ⟨chains', free', ?_⟩
    have one : r + 1 = 1 ↔ r = 0 := by omega
    simpa only [one, Nat.add_sub_cancel] using rep'
  | @getRefCount t t' content obj n before notNull run ih =>
    obtain ⟨chains, free, rep⟩ := ih
    rw [RefTable.getRefCount, Option.map_eq_some_iff] at run
    obtain ⟨⟨i, t₁⟩, found, eq⟩ := run
    obtain ⟨-, rfl⟩ := Prod.mk.inj eq
    obtain ⟨-, -, chains', free', -, rep'⟩ := rep.getOrAdd_run notNull found
    exact ⟨chains', free', rep'⟩

/-- The query of an object is a read exactly when the object has an entry, and then
the table after it is the same table. -/
theorem getRefCount_reads_iff (queried : Queried HashObj t content) (notNull : o.type ≠ .OT_NULL) :
    (t.Reads HashObj o ↔ ∃ r, t.entry HashObj o = some (some r)) ∧
    ∀ r, t.entry HashObj o = some (some r) → t.getRefCount HashObj o = some (r, t) := by
  obtain ⟨chains, free, rep⟩ := queried.rep
  have same : ∀ r, t.entry HashObj o = some (some r) →
      t.getRefCount HashObj o = some (r, t) := by
    intro r held
    rw [rep.entry, Option.some.injEq] at held
    obtain ⟨before, i, after, -, -, refs, find⟩ := rep.find_present held
    simp [RefTable.getRefCount, RefTable.getOrAdd, find, refs]
  refine ⟨⟨?_, ?_⟩, same⟩
  · rintro ⟨count, t', run, -, entries, -⟩
    rw [rep.entry]
    cases absent : content o with
    | some r => exact ⟨r, rfl⟩
    | none =>
    rw [RefTable.getRefCount, Option.map_eq_some_iff] at run
    obtain ⟨⟨i, t₁⟩, found, eq⟩ := run
    obtain ⟨-, rfl⟩ := Prod.mk.inj eq
    obtain ⟨-, -, chains', free', -, rep'⟩ := rep.getOrAdd_run notNull found
    -- the entry that the query has made
    have new := entries o
    rw [rep'.entry, rep.entry, Function.update_self, absent] at new
    cases new
  · rintro ⟨r, held⟩
    refine ⟨r, t, same r held, ?_, fun _ => rfl, rfl⟩
    rw [held]
    rfl

/-- A table with one reference to it. -/
theorem getRefCount_reads_held : ∃ t, create.addRef (fun _ => 5) (.ref .OT_TABLE 8) = some t ∧
    t.Reads (fun _ => 5) (.ref .OT_TABLE 8) := by
  have table : (LVObject.ref .OT_TABLE 8).type ≠ .OT_NULL := by decide
  exact ⟨_, rfl, (getRefCount_reads_iff (.addRef .create table rfl) table).1.mpr ⟨1, rfl⟩⟩

/-- After queries of four tables without references, `AddRef` of a fifth one fails. -/
theorem getRefCount_not_reads : ¬ create.Reads (fun _ => 5) (.ref .OT_TABLE 8) ∧
    ∃ t₁ t₂ t₃ t₄, create.getRefCount (fun _ => 5) (.ref .OT_TABLE 8) = some (0, t₁) ∧
      t₁.slotused = 1 ∧ t₁.entry (fun _ => 5) (.ref .OT_TABLE 8) = some (some 0) ∧
      t₁.getRefCount (fun _ => 5) (.ref .OT_TABLE 16) = some (0, t₂) ∧
      t₂.getRefCount (fun _ => 5) (.ref .OT_TABLE 24) = some (0, t₃) ∧
      t₃.getRefCount (fun _ => 5) (.ref .OT_TABLE 32) = some (0, t₄) ∧
      t₄.addRef (fun _ => 5) (.ref .OT_TABLE 40) = none := by
  refine ⟨?_, _, _, _, _, rfl, rfl, rfl, rfl, rfl, rfl, by rfl⟩
  rintro ⟨count, t', run, -, -, used⟩
  cases run
  cases used

end RefTable

end Lavril
