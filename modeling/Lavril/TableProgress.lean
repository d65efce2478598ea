import Lavril.TableAnswers

/-!
# The loops of the table end

The walk along a chain, the search for a predecessor and the loop of the free pointer end in
every table that the operations make. `NewSlot` may come to `Rehash`, and then every `NewSlot`
of the reinsertion and the one that is tried again do without it. A `newSlot` of depth 1 is
one that does not come to `Rehash`.
-/

namespace Lavril.LVTable

open Chain

variable (HashObj : LVObject → Nat) {t t' : LVTable} {key val : LVObject}

/-- Tables made by any sequence of operations, `Clone` among them. -/
inductive Made : LVTable → Prop
  | create (nInitialSize : Int) : Made (create nInitialSize)
  | newSlot {t t' : LVTable} {depth : Nat} {key val : LVObject} {answer : Bool}
      (before : Made t) (notNull : key.type ≠ .OT_NULL)
      (run : t.newSlot HashObj (depth + 2) key val = some (answer, t')) : Made t'
  | set {t t' : LVTable} {key val : LVObject} {answer : Bool} (before : Made t)
      (run : t.set HashObj key val = some (answer, t')) : Made t'
  | remove {t t' : LVTable} {depth : Nat} {key : LVObject} (before : Made t)
      (notNull : key.type ≠ .OT_NULL)
      (run : t.remove HashObj (depth + 1) key = some t') : Made t'
  | clear {t t' : LVTable} {depth : Nat} (before : Made t)
      (run : t.clear HashObj (depth + 1) = some t') : Made t'
  | clone {t t' : LVTable} {depth : Nat} (before : Made t)
      (run : t.clone HashObj (depth + 2) = some t') : Made t'

variable {HashObj} in
theorem Made.inv (made : Made HashObj t) : Inv HashObj t := by
  induction made with
  | create nInitialSize => exact (create_inv HashObj nInitialSize).1
  | @newSlot t t' depth key val answer before notNull run ih =>
    obtain ⟨b, done, eq, inv, -⟩ := newSlot_spec HashObj val depth ih notNull
    obtain ⟨-, rfl⟩ := Prod.mk.inj (Option.some.inj (eq.symm.trans run))
    exact inv
  | set before run ih => exact ih.set run
  | @remove t t' depth key before notNull run ih =>
    obtain ⟨done, eq, inv, -⟩ := remove_spec HashObj depth ih notNull
    obtain rfl := Option.some.inj (eq.symm.trans run)
    exact inv
  | @clear t t' depth before run ih =>
    obtain ⟨done, eq, inv, -⟩ := clear_spec HashObj depth ih
    obtain rfl := Option.some.inj (eq.symm.trans run)
    exact inv
  | @clone t t' depth before run ih =>
    obtain ⟨done, eq, inv, -⟩ := clone_spec HashObj depth ih
    obtain rfl := Option.some.inj (eq.symm.trans run)
    exact inv

/-! ## The free pointer -/

/-- The loop of the free pointer from a node down, and the node it stops at. -/
inductive Descends (t : LVTable) : Nat → Nat → Prop
  | free {f : Nat} (found : t.Free f) : Descends t f f
  | bottom (taken : ¬ t.Free 0) : Descends t 0 0
  | down {f stop : Nat} (taken : ¬ t.Free (f + 1)) (rest : Descends t f stop) :
      Descends t (f + 1) stop

theorem descends (t : LVTable) (f : Nat) : ∃ stop, Descends t f stop := by
  induction f with
  | zero =>
    by_cases free : t.Free 0
    · exact ⟨0, .free free⟩
    · exact ⟨0, .bottom free⟩
  | succ f ih =>
    by_cases free : t.Free (f + 1)
    · exact ⟨f + 1, .free free⟩
    · obtain ⟨stop, rest⟩ := ih
      exact ⟨stop, .down free rest⟩

/-- The loop gives a free node, or has come to the first node. -/
theorem Descends.result {f stop : Nat} (loop : Descends t f stop) :
    t.correctFirstfree f = some stop ∧ t.Free stop ∨
      t.correctFirstfree f = none ∧ stop = 0 := by
  have first (i : Nat) :
      (t.nodes i).key.type = .OT_NULL ∧ (t.nodes i).next = none ↔ t.Free i := by
    rw [Free, Live, next, not_not]
  induction loop with
  | @free f found =>
    refine .inl ⟨?_, found⟩
    cases f with
    | zero => rw [correctFirstfree, if_pos ((first 0).mpr found)]
    | succ f => rw [correctFirstfree, if_pos ((first (f + 1)).mpr found)]
  | bottom taken =>
    exact .inr ⟨by rw [correctFirstfree, if_neg (mt (first 0).mp taken)], rfl⟩
  | @down f stop taken _ ih =>
    rw [correctFirstfree, if_neg (mt (first (f + 1)).mp taken)]
    exact ih

/-! ## Coming to `Rehash` -/

/-- `NewSlot` has stored a new key and has found no free node. -/
def ComesTo (t : LVTable) (key : LVObject) (stored : LVTable) : Prop :=
  t._get key (t.mainPosition HashObj key) = some none ∧
    ∃ t₁ mp, t.insertionNode HashObj key = some (t₁, mp) ∧
      (t₁.modify mp ({ · with key := key })).correctFirstfree t₁.firstfree = none ∧
        stored = { t₁.modify mp ({ · with key := key }) with firstfree := 0 }

def Rehashes (t : LVTable) (key : LVObject) : Prop := ∃ stored, ComesTo HashObj t key stored

variable {HashObj}

theorem ComesTo.newSlot {stored : LVTable} (comes : ComesTo HashObj t key stored)
    (notNull : key.type ≠ .OT_NULL) (depth : Nat) (val : LVObject) :
    newSlot HashObj (depth + 1) t key val =
      (rehash (LVTable.newSlot HashObj depth) true stored).bind
        fun t => LVTable.newSlot HashObj depth t key val := by
  obtain ⟨missing, t₁, mp, found, full, rfl⟩ := comes
  rw [LVTable.newSlot, if_neg notNull, missing]
  simp only [found, modify_firstfree, full]
  cases rehash (LVTable.newSlot HashObj depth) true
      { t₁.modify mp ({ · with key := key }) with firstfree := 0 } with
  | none => rfl
  | some t => rfl

/-- At depth 1 there is no way to come to `Rehash`. -/
theorem not_rehashes_of_newSlot {answer : Bool}
    (run : t.newSlot HashObj 1 key val = some (answer, t')) : ¬ Rehashes HashObj t key := by
  rintro ⟨stored, comes⟩
  have notNull : key.type ≠ .OT_NULL := by
    intro null
    rw [LVTable.newSlot, if_pos null] at run
    cases run
  rw [comes.newSlot notNull] at run
  cases again : rehash (LVTable.newSlot HashObj 0) true stored with
  | none =>
    rw [again] at run
    cases run
  | some t =>
    rw [again] at run
    cases run

/-- A `NewSlot` that does not come to `Rehash` ends without any other. -/
theorem newSlot_of_not_rehashes (h : Inv HashObj t) (notNull : key.type ≠ .OT_NULL)
    (free : ¬ Rehashes HashObj t key) (val : LVObject) :
    ∃ answer done, t.newSlot HashObj 1 key val = some (answer, done) := by
  by_cases bound : t.Bound key
  · obtain ⟨i, lt, is⟩ := bound
    obtain ⟨run, -⟩ := newSlot_bound HashObj h notNull lt is 0 val
    exact ⟨_, _, run⟩
  · have absent : ∀ i, i < t.numofnodes → (t.nodes i).key ≠ key :=
      fun i lt is => bound ⟨i, lt, is⟩
    have missing := get_none HashObj h.toCore absent
    obtain ⟨t₁, mp, found, -⟩ := insertionNode_room HashObj h notNull absent
    cases spare : (t₁.modify mp ({ · with key := key })).correctFirstfree t₁.firstfree with
    | none => exact absurd ⟨_, missing, t₁, mp, found, spare, rfl⟩ free
    | some g =>
      rw [LVTable.newSlot, if_neg notNull, missing]
      simp only [found, modify_firstfree, spare]
      exact ⟨_, _, rfl⟩

/-! ## Reinserting -/

/-- The entries that one run of `Rehash` goes over. -/
def oldNodes (t : LVTable) : List Nat :=
  List.range (if t.numofnodes < 4 then 4 else t.numofnodes)

variable (HashObj) in
/-- What `Rehash` has made of an array of this size before it comes to an entry. -/
def reinserted (t : LVTable) (nSize : Nat) (before : List Nat) : Option LVTable :=
  before.foldlM (reinsert (newSlot HashObj 1) t) { t.allocNodes nSize with usednodes := 0 }

variable (HashObj) in
/-- `Rehash` makes `done` of `t`, and no `NewSlot` that it calls comes to `Rehash`. -/
structure Quiet (force : Bool) (t done : LVTable) : Prop where
  run : rehash (newSlot HashObj 1) force t = some done
  entries : done = t ∨ ∃ nSize, reinserted HashObj t nSize t.oldNodes = some done ∧
    ∀ before i behind, t.oldNodes = before ++ i :: behind → t.Live i →
      ∃ mid, reinserted HashObj t nSize before = some mid ∧
        ¬ Rehashes HashObj mid (t.nodes i).key

theorem reinsert_live {insert : LVTable → LVObject → LVObject → Option (Bool × LVTable)}
    {i : Nat} (live : t.Live i) (new : LVTable) :
    reinsert insert t new i = (insert new (t.nodes i).key (t.nodes i).val).map Prod.snd :=
  if_pos live

/-- The sizes that `Rehash` chooses between. -/
theorem rehash_cases {insert : LVTable → LVObject → LVObject → Option (Bool × LVTable)}
    {force : Bool} {done : LVTable} (run : rehash insert force t = some done) :
    done = t ∨ ∃ nSize, t.oldNodes.foldlM (reinsert insert t)
      { t.allocNodes nSize with usednodes := 0 } = some done := by
  rw [rehash] at run
  simp only at run
  rw [oldNodes]
  generalize (if t.numofnodes < 4 then 4 else t.numofnodes) = oldsize at run ⊢
  split at run
  · exact .inr ⟨oldsize * 2, run⟩
  · split at run
    · exact .inr ⟨oldsize / 2, run⟩
    · split at run
      · exact .inr ⟨oldsize, run⟩
      · exact .inl (Option.some.inj run).symm

theorem quiet_of_rehash {force : Bool} {done : LVTable}
    (run : rehash (newSlot HashObj 1) force t = some done) : Quiet HashObj force t done := by
  refine ⟨run, ?_⟩
  rcases rehash_cases run with same | ⟨nSize, whole⟩
  · exact .inl same
  · refine .inr ⟨nSize, whole, ?_⟩
    intro before i behind split live
    rw [split, List.foldlM_append] at whole
    cases first : reinserted HashObj t nSize before with
    | none =>
      rw [reinserted] at first
      rw [first] at whole
      cases whole
    | some mid =>
      refine ⟨mid, rfl, ?_⟩
      rw [reinserted] at first
      rw [first, Option.bind_eq_bind, Option.bind_some, List.foldlM_cons] at whole
      cases stored : newSlot HashObj 1 mid (t.nodes i).key (t.nodes i).val with
      | none =>
        rw [reinsert_live live, stored] at whole
        cases whole
      | some r =>
        obtain ⟨answer, new⟩ := r
        exact not_rehashes_of_newSlot stored

/-- Once a key is stored, `Rehash` succeeds and the key is bound in its result. -/
theorem ComesTo.retried {stored : LVTable} (h : Inv HashObj t) (notNull : key.type ≠ .OT_NULL)
    (comes : ComesTo HashObj t key stored) (val : LVObject) :
    ∃ mid done, Quiet HashObj true stored mid ∧
      mid.newSlot HashObj 1 key val = some (false, done) := by
  obtain ⟨missing, t₁, mp, found, full, rfl⟩ := comes
  have absent : ∀ i, i < t.numofnodes → (t.nodes i).key ≠ key := by
    intro i lt is
    rw [get_some HashObj h.toCore notNull lt is] at missing
    cases missing
  obtain ⟨t₂, mp', found', room⟩ := insertionNode_room HashObj h notNull absent
  obtain ⟨rfl, rfl⟩ := Prod.mk.inj (Option.some.inj (found.symm.trans found'))
  have ready : Rehashable { t₁.modify mp ({ · with key := key }) with firstfree := 0 } := by
    refine ⟨room.core.size, room.core.keys, Or.inr ?_⟩
    have counted := room.card
    have used := room.used_eq
    have before := h.used
    change (t₁.modify mp ({ · with key := key })).usednodes + 1 =
      ((t₁.modify mp ({ · with key := key })).liveSet.card : Int)
    omega
  obtain ⟨mid, run, inv, binds⟩ := rehash_spec HashObj ready 0 true fun eq => by cases eq
  have live : (t₁.modify mp ({ · with key := key })).Live mp := by
    rw [Live, room.mp_key]
    exact notNull
  obtain ⟨i, lt, is⟩ : ∃ i, i < mid.numofnodes ∧ (mid.nodes i).key = key :=
    (bound_iff notNull).mp
      ⟨_, (binds key _).mpr ⟨mp, room.nodes_eq ▸ room.mp_lt, live, room.mp_key, rfl⟩⟩
  obtain ⟨again, -⟩ := newSlot_bound HashObj inv notNull lt is 0 val
  exact ⟨mid, _, quiet_of_rehash run, again⟩

/-! ## Depth -/

theorem foldlM_mono {α β : Type} {f g : β → α → Option β}
    (more : ∀ b a c, f b a = some c → g b a = some c) (l : List α) :
    ∀ {b c : β}, l.foldlM f b = some c → l.foldlM g b = some c := by
  induction l with
  | nil => exact fun run => run
  | cons a l ih =>
    intro b c run
    rw [List.foldlM_cons] at run ⊢
    cases first : f b a with
    | none =>
      rw [first] at run
      cases run
    | some d =>
      rw [first] at run
      rw [more b a d first]
      exact ih run

theorem reinsert_mono {f g : LVTable → LVObject → LVObject → Option (Bool × LVTable)}
    (more : ∀ t k v r, f t k v = some r → g t k v = some r) (t new : LVTable) (i : Nat)
    (mid : LVTable) (run : reinsert f t new i = some mid) : reinsert g t new i = some mid := by
  by_cases live : t.Live i
  · rw [reinsert_live live] at run ⊢
    cases stored : f new (t.nodes i).key (t.nodes i).val with
    | none =>
      rw [stored] at run
      cases run
    | some r =>
      rw [stored] at run
      rw [more _ _ _ r stored]
      exact run
  · have kept : reinsert f t new i = some new := if_neg live
    rw [kept] at run
    exact (if_neg live).trans run

theorem rehash_mono {f g : LVTable → LVObject → LVObject → Option (Bool × LVTable)}
    (more : ∀ t k v r, f t k v = some r → g t k v = some r) {force : Bool} {done : LVTable}
    (run : rehash f force t = some done) : rehash g force t = some done := by
  have all : ∀ (l : List Nat) (new : LVTable), l.foldlM (reinsert f t) new = some done →
      l.foldlM (reinsert g t) new = some done :=
    fun l new => foldlM_mono (fun b a c => reinsert_mono more t b a c) l
  rw [rehash] at run ⊢
  simp only at run ⊢
  generalize (if t.numofnodes < 4 then 4 else t.numofnodes) = oldsize at run ⊢
  split at run
  · next many =>
    rw [if_pos many]
    exact all _ _ run
  · next few =>
    rw [if_neg few]
    split at run
    · next small =>
      rw [if_pos small]
      exact all _ _ run
    · next large =>
      rw [if_neg large]
      cases force with
      | true => exact all _ _ run
      | false => exact run

/-- What `NewSlot` gives does not depend on how deep its recursion may be. -/
theorem newSlot_mono (depth : Nat) :
    ∀ {t : LVTable} {key val : LVObject} {r : Bool × LVTable},
      newSlot HashObj depth t key val = some r →
        newSlot HashObj (depth + 1) t key val = some r := by
  induction depth with
  | zero =>
    intro t key val r run
    cases run
  | succ depth ih =>
    intro t key val r run
    by_cases null : key.type = .OT_NULL
    · rw [LVTable.newSlot, if_pos null] at run
      cases run
    rw [LVTable.newSlot, if_neg null] at run ⊢
    cases found : t._get key (t.mainPosition HashObj key) with
    | none =>
      rw [found] at run
      cases run
    | some node =>
      rw [found] at run
      cases node with
      | some n => exact run
      | none =>
        cases room : t.insertionNode HashObj key with
        | none =>
          simp only [room] at run
          cases run
        | some place =>
          simp only [room] at run ⊢
          split at run
          · exact run
          · cases again : rehash (newSlot HashObj depth) true
                { place.1.modify place.2 ({ · with key := key }) with firstfree := 0 } with
            | none =>
              rw [again] at run
              cases run
            | some mid =>
              rw [again] at run
              rw [rehash_mono (fun t k v r => ih) again]
              exact ih run

theorem newSlot_stable {r : Bool × LVTable} {depth : Nat}
    (run : newSlot HashObj depth t key val = some r) (more : Nat) :
    newSlot HashObj (more + depth) t key val = some r := by
  induction more with
  | zero => rwa [Nat.zero_add]
  | succ more ih =>
    rw [Nat.add_right_comm]
    exact newSlot_mono _ ih

/-! ## Progress -/

variable (HashObj) in
/-- What makes every loop and every recursion of the table end. -/
structure Progress (t : LVTable) : Prop where
  /-- A chain is finite, has no node twice and stays in the array. -/
  chains : ∀ i, i < t.numofnodes →
    ∃ l, Walk t.next i l ∧ l.Nodup ∧ ∀ j ∈ l, j < t.numofnodes
  lookups : ∀ key, ∃ found, t._get key (t.mainPosition HashObj key) = some found
  /-- The node in the main position of a key is met before the end of its chain. -/
  predecessor : ∀ key, t.Live (t.mainPosition HashObj key) →
    t.home HashObj (t.mainPosition HashObj key) ≠ t.mainPosition HashObj key →
      ∃ p, t.next p = some (t.mainPosition HashObj key) ∧
        Chain.search t.next (fun o => decide (t.next o = some (t.mainPosition HashObj key)))
          t.numofnodes (t.home HashObj (t.mainPosition HashObj key)) = some (some p)
  /-- Once a new key is stored the free pointer goes down from inside of the array. -/
  freePointer : ∀ key, key.type ≠ .OT_NULL →
    t._get key (t.mainPosition HashObj key) = some none →
      ∃ t₁ mp stop, t.insertionNode HashObj key = some (t₁, mp) ∧
        t₁.firstfree < t₁.numofnodes ∧
          Descends (t₁.modify mp ({ · with key := key })) t₁.firstfree stop ∧
            ((t₁.modify mp ({ · with key := key })).correctFirstfree t₁.firstfree =
              some stop ∨ stop = 0)
  direct : ∀ key val, key.type ≠ .OT_NULL → ¬ Rehashes HashObj t key →
    ∃ r, ∀ depth, t.newSlot HashObj (depth + 1) key val = some r
  /-- Where `NewSlot` comes to `Rehash`, that is quiet, and so is the call behind it. -/
  retried : ∀ key val stored, key.type ≠ .OT_NULL → ComesTo HashObj t key stored →
    ∃ mid done, Quiet HashObj true stored mid ∧
      mid.newSlot HashObj 1 key val = some (false, done) ∧
        ∀ depth, t.newSlot HashObj (depth + 2) key val = some (false, done)
  /-- `Rehash` as `Remove` calls it. -/
  removal : ∀ key n, key.type ≠ .OT_NULL →
    t._get key (t.mainPosition HashObj key) = some (some n) →
      ∃ done, Quiet HashObj false { t.modify n ({ · with val := .null, key := .null }) with
        usednodes := t.usednodes - 1 } done
  /-- `Rehash` as `Clear` calls it. -/
  clearing : ∃ done, Quiet HashObj true { t.clearNodes with usednodes := 0 } done

theorem Inv.chains (h : Inv HashObj t) {i : Nat} (lt : i < t.numofnodes) :
    ∃ l, Walk t.next i l ∧ l.Nodup ∧ ∀ j ∈ l, j < t.numofnodes := by
  obtain ⟨l, walk⟩ := h.ends i lt
  refine ⟨l, walk, walk.nodup, fun j mem => ?_⟩
  rcases walk.mem_cases mem with rfl | ⟨y, _, link⟩
  · exact lt
  · exact (h.linked y j link).1

theorem Inv.progress (h : Inv HashObj t) : Progress HashObj t where
  chains _ lt := h.chains lt
  lookups key := by
    obtain ⟨l, _, found⟩ := search_find HashObj h.toCore
      (fun n => decide ((t.nodes n).key.unVal = key.unVal ∧ (t.nodes n).key.type = key.type))
      (mainPosition_lt HashObj (h.pos HashObj) key)
    exact ⟨_, found⟩
  predecessor key live guest :=
    (h.predecessor HashObj (mainPosition_lt HashObj (h.pos HashObj) key) live guest).2
  freePointer key notNull missing := by
    have absent : ∀ i, i < t.numofnodes → (t.nodes i).key ≠ key := by
      intro i lt is
      rw [get_some HashObj h.toCore notNull lt is] at missing
      cases missing
    obtain ⟨t₁, mp, found, room⟩ := insertionNode_room HashObj h notNull absent
    have inside : t₁.firstfree < t₁.numofnodes := by
      have same := room.nodes_eq
      have kept := room.free_eq
      have before := h.free_lt
      rw [modify_numofnodes] at same
      rw [modify_firstfree] at kept
      omega
    obtain ⟨stop, loop⟩ := descends (t₁.modify mp ({ · with key := key })) t₁.firstfree
    exact ⟨t₁, mp, stop, found, inside, loop, loop.result.imp And.left And.right⟩
  direct key val notNull free := by
    obtain ⟨answer, done, run⟩ := newSlot_of_not_rehashes h notNull free val
    exact ⟨(answer, done), fun depth => newSlot_stable run depth⟩
  retried key val stored notNull comes := by
    obtain ⟨mid, done, quiet, again⟩ := comes.retried h notNull val
    have run : t.newSlot HashObj 2 key val = some (false, done) := by
      rw [comes.newSlot notNull, quiet.run]
      exact again
    exact ⟨mid, done, quiet, again, fun depth => newSlot_stable run depth⟩
  removal key n notNull found := by
    obtain ⟨done, run, -⟩ := remove_spec HashObj 0 h notNull
    rw [remove, found] at run
    exact ⟨done, quiet_of_rehash run⟩
  clearing := by
    obtain ⟨done, run, -⟩ := clear_spec HashObj 0 h
    exact ⟨done, quiet_of_rehash run⟩

/-- In every table that the operations make the loops end, and `NewSlot` is tried again once. -/
theorem made_progress (made : Made HashObj t) : Progress HashObj t := made.inv.progress

/-- A table that has been filled, and copied. -/
theorem made_progress_copy : ∃ t, Progress integerHash t := by
  have one := @Made.newSlot integerHash _ _ 0 (.integer 0) .null _ (.create 4) (by decide) rfl
  have two := @Made.newSlot integerHash _ _ 0 (.integer 4) .null _ one (by decide) rfl
  exact ⟨_, made_progress (@Made.clone integerHash _ _ 0 two rfl)⟩

end Lavril.LVTable
