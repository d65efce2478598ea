import Lavril.TableTraversal

/-!
# Writing with a null key

A node without an entry holds the null key, so a search for null finds one where its
chain has one. `Get` answers false to a null key before it searches; `Set` does not, and
writes its value into the node it finds.
-/

namespace Lavril

open Chain

namespace LVTable

variable (HashObj : LVObject → Nat) {t t' : LVTable} {key val : LVObject}

/-- The chain that a search for null walks has no node without an entry. -/
def NullUnmatched (t : LVTable) : Prop :=
  ∃ l, Walk t.next (t.mainPosition HashObj .null) l ∧ ∀ i ∈ l, (t.nodes i).key ≠ .null

/-- No node without an entry holds a value. -/
def Clean (t : LVTable) : Prop := ∀ i, ¬ t.Live i → (t.nodes i).val = .null

variable {HashObj}

/-- What `Set` does with a null key. -/
theorem set_null (h : Core HashObj t) (val : LVObject) :
    (t.NullUnmatched HashObj ∧ t.set HashObj .null val = some (false, t)) ∨
    ¬ t.NullUnmatched HashObj ∧
      ∃ n, t.set HashObj .null val = some (true, t.modify n ({ · with val := val })) := by
  obtain ⟨l, walk, found⟩ := search_find HashObj h
    (fun n => decide ((t.nodes n).key.unVal = LVObject.null.unVal ∧
      (t.nodes n).key.type = LVObject.null.type))
    (mainPosition_lt HashObj (h.pos HashObj) .null)
  have isNull : ∀ o : LVObject, o = .null ↔
      o.unVal = LVObject.null.unVal ∧ o.type = LVObject.null.type := by
    rintro ⟨type, unVal⟩
    constructor
    · rintro ⟨⟩
      exact ⟨rfl, rfl⟩
    · rintro ⟨rfl, rfl⟩
      rfl
  have get : t._get .null (t.mainPosition HashObj .null) = some (l.find? _) := found
  cases matched : l.find? (fun n => decide ((t.nodes n).key.unVal = LVObject.null.unVal ∧
      (t.nodes n).key.type = LVObject.null.type)) with
  | none =>
    refine .inl ⟨⟨l, walk, fun i mem is => ?_⟩, ?_⟩
    · exact List.find?_eq_none.mp matched i mem (by simpa using (isNull _).mp is)
    · rw [set, get, matched]
  | some n =>
    refine .inr ⟨?_, n, ?_⟩
    · rintro ⟨l', walk', live⟩
      obtain rfl := walk.unique walk'
      have is := List.find?_some matched
      exact live n (List.mem_of_find?_eq_some matched) ((isNull _).mpr (by simpa using is))
    · rw [set, get, matched]

/-! ## Runs whose writes with a null key are refused -/

theorem Clean.modify (clean : t.Clean) {n : Nat} {f : HashNode → HashNode}
    (node : (f (t.nodes n)).key.type = .OT_NULL → (f (t.nodes n)).val = .null) :
    (t.modify n f).Clean := by
  intro i dead
  by_cases here : i = n
  · subst here
    rw [Live, modify_self, not_not] at dead
    rw [modify_self]
    exact node dead
  · rw [Live, modify_other _ here] at dead
    rw [modify_other _ here]
    exact clean i dead

theorem clean_empty {firstfree numofnodes : Nat} {usednodes : Int} :
    Clean ⟨firstfree, fun _ => .empty, numofnodes, usednodes⟩ := fun _ _ => rfl

theorem Clean.insertionNode (clean : t.Clean) {mp : Nat}
    (run : t.insertionNode HashObj key = some (t', mp)) : t'.Clean := by
  have links : ∀ {t : LVTable} {n : Nat} {next : HashNode → Option Nat}, t.Clean →
      (t.modify n fun node => { node with next := next node }).Clean :=
    fun {t n _} clean => clean.modify fun dead => clean n (not_not_intro dead)
  simp only [LVTable.insertionNode] at run
  split at run
  · split at run
    · split at run
      · rename_i othern _
        cases run
        have linked : (t.modify othern ({ · with next := some t.firstfree })).Clean := links clean
        refine (linked.modify fun dead => ?_).modify fun _ => rfl
        exact linked _ (not_not_intro dead)
      · cases run
    · cases run
      exact links (links clean)
  · cases run
    exact clean

theorem Clean.foldlM {l : List Nat} {f : LVTable → Nat → Option LVTable}
    (step : ∀ {t i t'}, t.Clean → f t i = some t' → t'.Clean) (clean : t.Clean)
    (run : l.foldlM f t = some t') : t'.Clean := by
  induction l generalizing t with
  | nil =>
    cases run
    exact clean
  | cons i l ih =>
    rw [List.foldlM_cons] at run
    obtain ⟨mid, first, rest⟩ := Option.bind_eq_some_iff.mp run
    exact ih (step clean first) rest

/-- Rehashing keeps what the insertion it uses keeps. -/
theorem Clean.rehash {newSlot : LVTable → LVObject → LVObject → Option (Bool × LVTable)}
    (insert : ∀ {t key val r}, Clean t → newSlot t key val = some r → r.2.Clean) {force : Bool}
    (clean : t.Clean) (run : t.rehash newSlot force = some t') : t'.Clean := by
  have reinsert : ∀ {n nSize : Nat}, (List.range n).foldlM (fun (new : LVTable) i =>
      if (t.nodes i).key.type ≠ .OT_NULL then
        (newSlot new (t.nodes i).key (t.nodes i).val).map Prod.snd
      else some new) { t.allocNodes nSize with usednodes := 0 } = some t' → t'.Clean := by
    intro n nSize run
    refine Clean.foldlM (fun {new i new'} clean run => ?_) clean_empty run
    split at run
    · obtain ⟨r, done, rfl⟩ := Option.map_eq_some_iff.mp run
      exact insert clean done
    · cases run
      exact clean
  unfold LVTable.rehash at run
  generalize (if t.numofnodes < 4 then 4 else t.numofnodes) = oldsize at run
  simp only at run
  split at run
  · exact reinsert run
  · split at run
    · exact reinsert run
    · split at run
      · exact reinsert run
      · cases run
        exact clean

theorem Clean.setVal (clean : t.Clean) {n : Nat} (live : t.Live n) (val : LVObject) :
    (t.modify n ({ · with val := val })).Clean :=
  clean.modify fun dead => absurd dead live

theorem Clean.newSlot {depth : Nat} {r : Bool × LVTable} (clean : t.Clean)
    (run : t.newSlot HashObj depth key val = some r) : r.2.Clean := by
  induction depth generalizing t key val r with
  | zero => cases run
  | succ depth ih =>
    unfold LVTable.newSlot at run
    split at run
    · cases run
    · rename_i notNull
      split at run
      · cases run
      · rename_i n found
        cases run
        refine clean.setVal (fun dead => notNull ?_) val
        have is := search_holds found
        simp only [decide_eq_true_eq] at is
        exact is.2.symm.trans dead
      · split at run
        · cases run
        · rename_i t₁ mp made
          have stored : (t₁.modify mp ({ · with key := key })).Clean :=
            (clean.insertionNode made).modify fun dead => absurd dead notNull
          simp only at run
          split at run
          · cases run
            refine stored.setVal ?_ val
            rw [Live, modify_self]
            exact notNull
          · split at run
            · cases run
            · rename_i rehashed
              have reset : Clean { t₁.modify mp ({ · with key := key }) with firstfree := 0 } := stored
              exact ih (Clean.rehash (fun clean => ih clean) reset rehashed) run

theorem Clean.set (clean : t.Clean) {answer : Bool}
    (unmatched : key.type = .OT_NULL → key = .null ∧ t.NullUnmatched HashObj) (h : Core HashObj t)
    (run : t.set HashObj key val = some (answer, t')) : t'.Clean := by
  by_cases isNull : key.type = .OT_NULL
  · obtain ⟨rfl, refused⟩ := unmatched isNull
    rcases set_null h val with ⟨-, same⟩ | ⟨matched, -⟩
    · obtain ⟨-, rfl⟩ := Prod.mk.inj (Option.some.inj (same.symm.trans run))
      exact clean
    · exact absurd refused matched
  · unfold LVTable.set at run
    split at run
    · cases run
    · rename_i n found
      cases run
      refine clean.setVal (fun dead => isNull ?_) val
      have is := search_holds found
      simp only [decide_eq_true_eq] at is
      exact is.2.symm.trans dead
    · cases run
      exact clean

theorem Clean.remove {depth : Nat} (clean : t.Clean)
    (run : t.remove HashObj depth key = some t') : t'.Clean := by
  unfold LVTable.remove at run
  split at run
  · cases run
  · cases run
    exact clean
  · rename_i n _
    have erased : (t.modify n ({ · with val := .null, key := .null })).Clean :=
      clean.modify fun _ => rfl
    have counted : Clean { t.modify n ({ · with val := .null, key := .null }) with
        usednodes := t.usednodes - 1 } := erased
    exact Clean.rehash (fun clean => clean.newSlot) counted run

theorem Clean.clear {depth : Nat} (clean : t.Clean)
    (run : t.clear HashObj depth = some t') : t'.Clean := by
  have cleared : Clean { t.clearNodes with usednodes := 0 } := by
    intro i dead
    by_cases lt : i < t.numofnodes
    · simp [clearNodes, lt]
    · simp only [Live, clearNodes, if_neg lt] at dead ⊢
      exact clean i dead
  exact Clean.rehash (fun clean => clean.newSlot) cleared run

variable (HashObj) in
/-- Runs in which a write with a null key finds no node. -/
inductive ReachesUnmatched : LVTable → Prop
  | create (nInitialSize : Int) : ReachesUnmatched (create nInitialSize)
  | newSlot {t t' : LVTable} {depth : Nat} {key val : LVObject} {answer : Bool}
      (before : ReachesUnmatched t) (notNull : key.type ≠ .OT_NULL)
      (run : t.newSlot HashObj (depth + 2) key val = some (answer, t')) : ReachesUnmatched t'
  | set {t t' : LVTable} {key val : LVObject} {answer : Bool} (before : ReachesUnmatched t)
      (unmatched : key.type = .OT_NULL → key = .null ∧ t.NullUnmatched HashObj)
      (run : t.set HashObj key val = some (answer, t')) : ReachesUnmatched t'
  | remove {t t' : LVTable} {depth : Nat} {key : LVObject} (before : ReachesUnmatched t)
      (notNull : key.type ≠ .OT_NULL)
      (run : t.remove HashObj (depth + 1) key = some t') : ReachesUnmatched t'
  | clear {t t' : LVTable} {depth : Nat} (before : ReachesUnmatched t)
      (run : t.clear HashObj (depth + 1) = some t') : ReachesUnmatched t'

theorem ReachesUnmatched.reaches (before : ReachesUnmatched HashObj t) : Reaches HashObj t := by
  induction before with
  | create nInitialSize => exact .create nInitialSize
  | newSlot _ notNull run ih => exact .newSlot ih notNull run
  | set _ _ run ih => exact .set ih run
  | remove _ notNull run ih => exact .remove ih notNull run
  | clear _ run ih => exact .clear ih run

/-- No node without an entry gets a value in such a run. -/
theorem ReachesUnmatched.clean (before : ReachesUnmatched HashObj t) : t.Clean := by
  induction before with
  | create nInitialSize => exact clean_empty
  | newSlot _ _ run ih => exact ih.newSlot run
  | set before unmatched run ih => exact ih.set unmatched before.reaches.inv.toCore run
  | remove _ _ run ih => exact ih.remove run
  | clear _ run ih => exact ih.clear run

end LVTable

/-! ## The writes of the virtual machine and of the interface -/

inductive Fallback where
  | FALLBACK_OK | FALLBACK_NO_MATCH | FALLBACK_ERROR
  deriving DecidableEq

def DONT_FALL_BACK : Int := 666

/-- The tables, and the one a write that no other table takes goes to. -/
structure TableWorld extends Tables where
  roottable : Nat

namespace TableWorld

section writes

/- `metamethod` is what looking up `_set` of an object and calling it comes to. -/
variable (HashObj : LVObject → Nat) (metamethod : TableWorld → Nat → Fallback × TableWorld)

/-- `LVTable::Set` on the table at an address. -/
def rawSet (w : TableWorld) (a : Nat) (key val : LVObject) : Option (Bool × TableWorld) :=
  ((w.raw a).set HashObj key val).map fun (answer, t) =>
    (answer, { w with raw := Function.update w.raw a t })

/-- `FallBackSet` on a table, given the `Set` it calls on its delegate. -/
def fallBackSet (set : TableWorld → Nat → Option (Bool × TableWorld)) (w : TableWorld)
    (self : Nat) : Option (Fallback × TableWorld) :=
  match w.delegables.delegate self with
  | none => some (.FALLBACK_NO_MATCH, w)
  | some delegate =>
    match set w delegate with
    | none => none
    | some (true, w) => some (.FALLBACK_OK, w)
    | some (false, w) => some (metamethod w self)

/-- `LVVM::Set` on a table; `none` when the chain of delegates is longer than the given
number of steps. -/
def set : Nat → TableWorld → Nat → LVObject → LVObject → Int → Option (Bool × TableWorld)
  | 0, _, _, _, _, _ => none
  | fuel + 1, w, self, key, val, selfidx =>
    match w.rawSet HashObj self key val with
    | none => none
    | some (true, w) => some (true, w)
    | some (false, w) =>
      match w.fallBackSet metamethod (fun w d => set fuel w d key val DONT_FALL_BACK) self with
      | none => none
      | some (.FALLBACK_OK, w) => some (true, w)
      | some (.FALLBACK_ERROR, w) => some (false, w)
      | some (.FALLBACK_NO_MATCH, w) =>
        if selfidx = 0 then w.rawSet HashObj w.roottable key val else some (false, w)

def lv_set (fuel : Nat) (w : TableWorld) (self : Nat) (key val : LVObject) :
    Option (Bool × TableWorld) :=
  w.set HashObj metamethod fuel self key val DONT_FALL_BACK

/-- `lv_rawset` on a table; whether it is `LV_OK`. -/
def lv_rawset (depth : Nat) (w : TableWorld) (self : Nat) (key val : LVObject) :
    Option (Bool × TableWorld) :=
  if key.type = .OT_NULL then some (false, w)
  else ((w.raw self).newSlot HashObj depth key val).map fun (_, t) =>
    (true, { w with raw := Function.update w.raw self t })

end writes

/-- What the `_set` metamethods of a table and of its delegates come to, the last one's
first, unless one of them takes the value. The last table has no delegate to look one
up in. -/
def declined (metamethod : TableWorld → Nat → Fallback × TableWorld) (w : TableWorld) :
    List Nat → Option (Fallback × TableWorld)
  | [] | [_] => some (.FALLBACK_NO_MATCH, w)
  | a :: b :: rest =>
    match declined metamethod w (b :: rest) with
    | none => none
    | some (_, w) =>
      match metamethod w a with
      | (.FALLBACK_OK, _) => none
      | answer => some answer

variable {HashObj : LVObject → Nat} {metamethod : TableWorld → Nat → Fallback × TableWorld}
  {w w' : TableWorld} {val : LVObject}

theorem rawSet_null {a : Nat} (h : LVTable.Core HashObj (w.raw a)) (val : LVObject) :
    ((w.raw a).NullUnmatched HashObj ∧ w.rawSet HashObj a .null val = some (false, w)) ∨
    ¬ (w.raw a).NullUnmatched HashObj ∧ ∃ w', w.rawSet HashObj a .null val = some (true, w') := by
  rcases LVTable.set_null h val with ⟨unmatched, run⟩ | ⟨matched, n, run⟩
  · refine .inl ⟨unmatched, ?_⟩
    rw [rawSet, run]
    simp
  · refine .inr ⟨matched, ?_⟩
    rw [rawSet, run]
    exact ⟨_, rfl⟩

theorem unmatched_of_not_exists {l : List Nat}
    (clear : ¬ ∃ a ∈ l, ¬ (w.raw a).NullUnmatched HashObj) :
    ∀ a ∈ l, (w.raw a).NullUnmatched HashObj := by
  intro a mem
  by_contra matched
  exact clear ⟨a, mem, matched⟩

/-- A write with a null key that finds no node and no metamethod to take it fails, unless
the root table takes it. -/
theorem set_refused (core : ∀ a, LVTable.Core HashObj (w.raw a)) {l : List Nat} {self : Nat}
    (chain : Walk w.delegables.delegate self l)
    (unmatched : ∀ a ∈ l, (w.raw a).NullUnmatched HashObj) {answer : Fallback} {w₁ : TableWorld}
    (asked : w.declined metamethod l = some (answer, w₁)) (selfidx : Int) {fuel : Nat}
    (enough : l.length ≤ fuel) :
    w.set HashObj metamethod fuel self .null val selfidx =
      if answer = .FALLBACK_NO_MATCH ∧ selfidx = 0 then
        w₁.rawSet HashObj w₁.roottable .null val
      else some (false, w₁) := by
  induction chain generalizing answer w₁ selfidx fuel with
  | @last a stop =>
    obtain ⟨fuel, rfl⟩ : ∃ m, fuel = m + 1 := ⟨fuel - 1, by simp at enough; omega⟩
    cases asked
    rcases rawSet_null (core a) val with ⟨-, run⟩ | ⟨matched, -⟩
    · simp [set, run, fallBackSet, stop]
    · exact absurd (unmatched a List.mem_cons_self) matched
  | @step a b l link tail ih =>
    rw [List.length_cons] at enough
    obtain ⟨fuel, rfl⟩ : ∃ m, fuel = m + 1 := ⟨fuel - 1, by omega⟩
    have inner := fun b mem => unmatched b (List.mem_cons_of_mem _ mem)
    rcases rawSet_null (core a) val with ⟨-, run⟩ | ⟨matched, -⟩
    · obtain ⟨rest, rfl⟩ := tail.exists_cons
      rw [declined] at asked
      split at asked
      · cases asked
      · rename_i deeper w₂ first
        have below : w.set HashObj metamethod fuel _ .null val DONT_FALL_BACK = _ :=
          ih inner first DONT_FALL_BACK (by omega)
        rw [if_neg fun both => absurd both.2 (by decide)] at below
        simp only [set, run, fallBackSet, link, below]
        obtain ⟨reply, w₃, came⟩ : ∃ reply w₃, metamethod w₂ a = (reply, w₃) := ⟨_, _, rfl⟩
        rw [came] at asked
        rw [came]
        cases reply with
        | FALLBACK_OK => cases asked
        | FALLBACK_NO_MATCH =>
          cases asked
          simp
        | FALLBACK_ERROR =>
          cases asked
          simp
    · exact absurd (unmatched a List.mem_cons_self) matched

/-- It succeeds when a node of a table on the chain of delegates, or a metamethod, takes it. -/
theorem set_taken (core : ∀ a, LVTable.Core HashObj (w.raw a)) {l : List Nat} {self : Nat}
    (chain : Walk w.delegables.delegate self l)
    (taken : (∃ a ∈ l, ¬ (w.raw a).NullUnmatched HashObj) ∨ w.declined metamethod l = none)
    (selfidx : Int) {fuel : Nat} (enough : l.length ≤ fuel) :
    ∃ w', w.set HashObj metamethod fuel self .null val selfidx = some (true, w') := by
  induction chain generalizing selfidx fuel with
  | @last a stop =>
    obtain ⟨fuel, rfl⟩ : ∃ m, fuel = m + 1 := ⟨fuel - 1, by simp at enough; omega⟩
    rcases taken with ⟨a, mem, matched⟩ | asked
    · obtain rfl := List.mem_singleton.mp mem
      rcases rawSet_null (core a) val with ⟨unmatched, -⟩ | ⟨-, w', run⟩
      · exact absurd unmatched matched
      · exact ⟨w', by simp only [set, run]⟩
    · cases asked
  | @step a b l link tail ih =>
    rw [List.length_cons] at enough
    obtain ⟨fuel, rfl⟩ : ∃ m, fuel = m + 1 := ⟨fuel - 1, by omega⟩
    rcases rawSet_null (core a) val with ⟨unmatched, run⟩ | ⟨-, w', run⟩
    · by_cases below : (∃ c ∈ l, ¬ (w.raw c).NullUnmatched HashObj) ∨ w.declined metamethod l = none
      · obtain ⟨w', accepted⟩ : ∃ w', w.set HashObj metamethod fuel b .null val
            DONT_FALL_BACK = some (true, w') := ih below DONT_FALL_BACK (by omega)
        exact ⟨w', by simp only [set, run, fallBackSet, link, accepted]⟩
      · obtain ⟨clear, decided⟩ := not_or.mp below
        have inner := unmatched_of_not_exists clear
        obtain ⟨⟨deeper, w₂⟩, first⟩ := Option.ne_none_iff_exists'.mp decided
        have asked : w.declined metamethod (a :: l) = none := by
          refine taken.resolve_left ?_
          rintro ⟨c, mem, matched⟩
          rcases List.mem_cons.mp mem with rfl | mem
          · exact matched unmatched
          · exact clear ⟨c, mem, matched⟩
        obtain ⟨rest, rfl⟩ := tail.exists_cons
        have refused : w.set HashObj metamethod fuel _ .null val DONT_FALL_BACK = _ :=
          set_refused core tail inner first DONT_FALL_BACK (by omega)
        rw [if_neg fun both => absurd both.2 (by decide)] at refused
        rw [declined, first] at asked
        simp only [set, run, fallBackSet, link, refused]
        obtain ⟨reply, w₃, came⟩ : ∃ reply w₃, metamethod w₂ a = (reply, w₃) := ⟨_, _, rfl⟩
        simp only [came] at asked
        rw [came]
        cases reply with
        | FALLBACK_OK => exact ⟨w₃, rfl⟩
        | FALLBACK_NO_MATCH => cases asked
        | FALLBACK_ERROR => cases asked
    · exact ⟨w', by simp only [set, run]⟩

theorem walk_of_ends {h : Delegables} {p : Option Nat} {n : Nat} (ends : h.Ends p n) :
    ∀ a, p = some a → ∃ l, Walk h.delegate a l := by
  induction ends with
  | null =>
    rintro a ⟨⟩
  | @object b n rest ih =>
    rintro a ⟨⟩
    cases is : h.delegate b with
    | none => exact ⟨[b], .last is⟩
    | some d =>
      obtain ⟨l, tail⟩ := ih d is
      exact ⟨b :: l, .step is tail⟩

theorem declined_reaches
    (scripts : ∀ w a, (∀ b, LVTable.Reaches HashObj (w.raw b)) →
      ∀ b, LVTable.Reaches HashObj ((metamethod w a).2.raw b))
    (reaches : ∀ a, LVTable.Reaches HashObj (w.raw a)) {answer : Fallback} {w₁ : TableWorld} :
    ∀ {l : List Nat}, w.declined metamethod l = some (answer, w₁) →
      ∀ a, LVTable.Reaches HashObj (w₁.raw a) := by
  intro l
  induction l generalizing answer w₁ with
  | nil =>
    intro asked
    cases asked
    exact reaches
  | cons a l ih =>
    cases l with
    | nil =>
      intro asked
      cases asked
      exact reaches
    | cons b rest =>
      intro asked
      rw [declined] at asked
      split at asked
      · cases asked
      · rename_i w₂ first
        have after := scripts w₂ a (ih first)
        obtain ⟨reply, w₃, came⟩ : ∃ reply w₃, metamethod w₂ a = (reply, w₃) := ⟨_, _, rfl⟩
        rw [came] at asked after
        cases reply <;> cases asked <;> exact after

/-- A table reads as before, and no node without an entry holds a value. -/
structure Untouched (HashObj : LVObject → Nat) (t t' : LVTable) : Prop where
  get : ∀ weakref key, t'.get HashObj weakref key = t.get HashObj weakref key
  next : ∀ weakref getweakrefs refpos,
    t'.nextSlot weakref getweakrefs refpos = t.nextSlot weakref getweakrefs refpos
  used : t'.countUsed = t.countUsed
  clean : t'.Clean

/-- `Set` fails, and the table is as it was. -/
def Refused (HashObj : LVObject → Nat) (metamethod : TableWorld → Nat → Fallback × TableWorld)
    (w : TableWorld) (self : Nat) (val : LVObject) (selfidx : Int) : Prop :=
  ∃ n w', (∀ fuel, n ≤ fuel →
      w.set HashObj metamethod fuel self .null val selfidx = some (false, w')) ∧
    Untouched HashObj (w.raw self) (w'.raw self)

/-- A write with a null key is refused exactly when no table on the chain of delegates has
a node without an entry where the search for null looks, the metamethods decline it and leave
the table as it was, and the root table, if it is asked, has no such node either. `rawset`
refuses a null key before it looks. -/
theorem null_refused_iff (reaches : ∀ a, LVTable.Reaches HashObj (w.raw a))
    (scripts : ∀ w a, (∀ b, LVTable.Reaches HashObj (w.raw b)) →
      ∀ b, LVTable.Reaches HashObj ((metamethod w a).2.raw b))
    (delegation : w.delegables.Reachable) (self : Nat) (val : LVObject) (selfidx : Int) :
    (Refused HashObj metamethod w self val selfidx ↔
      ∃ l, Walk w.delegables.delegate self l ∧ (∀ a ∈ l, (w.raw a).NullUnmatched HashObj) ∧
        ∃ answer w₁, w.declined metamethod l = some (answer, w₁) ∧
          Untouched HashObj (w.raw self) (w₁.raw self) ∧
          (answer = .FALLBACK_NO_MATCH → selfidx = 0 →
            (w₁.raw w₁.roottable).NullUnmatched HashObj)) ∧
    (∀ depth, w.lv_rawset HashObj depth self .null val = some (false, w)) ∧
    ∀ t, LVTable.ReachesUnmatched HashObj t → t.Clean := by
  have core : ∀ a, LVTable.Core HashObj (w.raw a) := fun a => (reaches a).inv.toCore
  obtain ⟨n, ends⟩ := delegation.acyclic.ends self
  obtain ⟨l, chain⟩ := walk_of_ends ends self rfl
  refine ⟨⟨?_, ?_⟩, fun depth => if_pos rfl, fun t before => before.clean⟩
  · rintro ⟨n, w', run, same⟩
    have run := run (max n l.length) (Nat.le_max_left ..)
    by_cases taken : (∃ a ∈ l, ¬ (w.raw a).NullUnmatched HashObj) ∨ w.declined metamethod l = none
    · obtain ⟨w'', accepted⟩ : ∃ w'', w.set HashObj metamethod (max n l.length) self .null val
          selfidx = some (true, w'') := set_taken core chain taken selfidx (Nat.le_max_right ..)
      cases run.symm.trans accepted
    obtain ⟨clear, decided⟩ := not_or.mp taken
    have unmatched := unmatched_of_not_exists clear
    obtain ⟨⟨answer, w₁⟩, asked⟩ := Option.ne_none_iff_exists'.mp decided
    have rooted := ((declined_reaches scripts reaches asked) w₁.roottable).inv.toCore
    rw [set_refused core chain unmatched asked selfidx (Nat.le_max_right n l.length)] at run
    refine ⟨l, chain, unmatched, answer, w₁, asked, ?_⟩
    split at run
    · rcases rawSet_null rooted val with ⟨refused, same'⟩ | ⟨-, w'', accepted⟩
      · cases same'.symm.trans run
        exact ⟨same, fun _ _ => refused⟩
      · cases accepted.symm.trans run
    · rename_i elsewhere
      cases run
      exact ⟨same, fun isNoMatch isRoot => absurd ⟨isNoMatch, isRoot⟩ elsewhere⟩
  · rintro ⟨l, chain, unmatched, answer, w₁, asked, same, root⟩
    have rooted := ((declined_reaches scripts reaches asked) w₁.roottable).inv.toCore
    refine ⟨l.length, w₁, fun fuel enough => ?_, same⟩
    rw [set_refused core chain unmatched asked selfidx enough]
    split
    · rename_i both
      rcases rawSet_null rooted val with ⟨-, refused⟩ | ⟨matched, -⟩
      · exact refused
      · exact absurd (root both.1 both.2) matched
    · rfl

/-- One table at every address, and no delegates. -/
def plain (t : LVTable) : TableWorld := ⟨⟨fun _ => none, fun _ => t⟩, 0⟩

/-- No object has a `_set` metamethod. -/
def noMetamethod (w : TableWorld) (_ : Nat) : Fallback × TableWorld := (.FALLBACK_NO_MATCH, w)

/-- A table whose one entry is at the node of the null key. -/
def held : LVTable :=
  (((LVTable.create 0).newSlot (fun _ => 0) 2 (.integer 7) (.bool false)).map Prod.snd).getD
    (.create 0)

theorem null_refused_held : Refused (fun _ => 0) noMetamethod (plain held) 0 (.bool true) 0 := by
  have before : LVTable.ReachesUnmatched (fun _ => 0) held :=
    @LVTable.ReachesUnmatched.newSlot _ _ _ 0 (.integer 7) (.bool false) _ (.create 0) (by decide) rfl
  have unmatched : held.NullUnmatched fun _ => 0 := ⟨[0], .last rfl, by decide⟩
  refine (null_refused_iff (fun _ => before.reaches) (fun w a kept => kept)
    (.initial fun _ => rfl) 0 (.bool true) 0).1.mpr ⟨[0], .last rfl, ?_, ?_⟩
  · intro a _
    exact unmatched
  · exact ⟨.FALLBACK_NO_MATCH, plain held, rfl, ⟨fun _ _ => rfl, fun _ _ _ => rfl, rfl, before.clean⟩,
      fun _ _ => unmatched⟩

/-- An empty table takes a value for the null key. -/
theorem null_not_refused :
    ¬ Refused (fun _ => 0) noMetamethod (plain (LVTable.create 0)) 0 (.bool true) 666 ∧
    ∃ w', (plain (LVTable.create 0)).lv_set (fun _ => 0) noMetamethod 1 0 .null (.bool true) =
        some (true, w') ∧
      ¬ (w'.raw 0).Live 0 ∧ ((w'.raw 0).nodes 0).val = .bool true := by
  have run : ∀ fuel, (plain (LVTable.create 0)).set (fun _ => 0) noMetamethod (fuel + 1) 0 .null
      (.bool true) 666 = some (true, _) := fun _ => rfl
  refine ⟨?_, _, rfl, by decide, rfl⟩
  rintro ⟨n, w', refused, -⟩
  cases (run n).symm.trans (refused (n + 1) (by omega))

end TableWorld

end Lavril
