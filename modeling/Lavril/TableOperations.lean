import Lavril.TableInvariant
import Mathlib.Data.List.Pairwise

/-!
# What the operations do to the bindings

Every operation keeps `Inv` and changes the bindings as its name says. A table
filled by insertion alone is `Packed`, and as long as it has a node to spare
`newSlot` finds the next free one; so the reinsertion inside `rehash` never
rehashes again.
-/

namespace Lavril.LVTable

open Chain

variable (HashObj : LVObject → Nat) {t t' : LVTable}

/-- `t'` binds `key` to `val` and every other key as `t` does. -/
def Stored (t : LVTable) (key val : LVObject) (t' : LVTable) : Prop :=
  ∀ k v, t'.Binds k v ↔ (k = key ∧ v = val) ∨ (k ≠ key ∧ t.Binds k v)

/-! ## Parts of a table the invariant does not read -/

/-- `Core` reads the keys, the links and the free pointer only. -/
theorem Core.of_eq (h : Core HashObj t) (keys : ∀ i, (t'.nodes i).key = (t.nodes i).key)
    (links : t'.next = t.next) (size : t'.numofnodes = t.numofnodes)
    (free : t'.firstfree = t.firstfree) : Core HashObj t' := by
  have live : ∀ i, t'.Live i ↔ t.Live i := fun i => by simp [Live, keys]
  have home_eq : ∀ i, t'.home HashObj i = t.home HashObj i := fun i => by
    simp [home, mainPosition, keys, size]
  constructor
  · rw [size]; exact h.size
  · rw [size, links]; exact h.ends
  · intro i j hij
    rw [links] at hij
    rw [size, free, live]
    exact h.linked i j hij
  · rw [links]; exact h.injective
  · intro i hi li
    rw [links, home_eq]
    exact h.reach i (size ▸ hi) ((live i).mp li)
  · intro i hi li guest j hj lj
    rw [home_eq] at guest ⊢
    exact h.guests i (size ▸ hi) ((live i).mp li) guest j (size ▸ hj) ((live j).mp lj)
  · intro i j hi hj li lj same
    rw [keys, keys] at same
    exact h.keys i j (size ▸ hi) (size ▸ hj) ((live i).mp li) ((live j).mp lj) same

theorem liveSet_of_eq (keys : ∀ i, (t'.nodes i).key = (t.nodes i).key)
    (size : t'.numofnodes = t.numofnodes) : t'.liveSet = t.liveSet := by
  ext i; simp [Live, keys, size]

section setVal

variable (t) (n : Nat) (val : LVObject)

theorem setVal_key (i : Nat) :
    ((t.modify n ({ · with val := val })).nodes i).key = (t.nodes i).key := by
  by_cases hi : i = n
  · rw [hi, modify_self]
  · rw [modify_other _ hi]

theorem setVal_next : (t.modify n ({ · with val := val })).next = t.next := by
  funext i
  by_cases hi : i = n
  · simp only [next]; rw [hi, modify_self]
  · simp only [next]; rw [modify_other _ hi]

end setVal

theorem setVal_stored (h : Core HashObj t) {n : Nat} (hn : n < t.numofnodes)
    (live : t.Live n) (val : LVObject) :
    Stored t (t.nodes n).key val (t.modify n ({ · with val := val })) := by
  intro k v
  constructor
  · rintro ⟨i, hi, li, rfl, rfl⟩
    rw [setVal_key]
    by_cases hin : i = n
    · rw [hin, modify_self]
      exact Or.inl ⟨rfl, rfl⟩
    · rw [modify_other _ hin]
      rw [Live, setVal_key] at li
      refine Or.inr ⟨fun same => hin (h.keys i n hi hn li live same), i, hi, li, rfl, rfl⟩
  · rintro (⟨rfl, rfl⟩ | ⟨hk, i, hi, li, rfl, rfl⟩)
    · refine ⟨n, hn, ?_, setVal_key t n v n, by rw [modify_self]⟩
      rw [Live, setVal_key]
      exact live
    · have hin : i ≠ n := by rintro rfl; exact hk rfl
      refine ⟨i, hi, ?_, setVal_key t n _ i, by rw [modify_other _ hin]⟩
      rw [Live, setVal_key]
      exact li

theorem Inv.setVal (h : Inv HashObj t) (n : Nat) (val : LVObject) :
    Inv HashObj (t.modify n ({ · with val := val })) where
  toCore := h.toCore.of_eq HashObj (setVal_key t n val) (setVal_next t n val) rfl rfl
  free_lt := h.free_lt
  free_dead := by rw [Live, setVal_key]; exact h.free_dead
  free_end := by rw [setVal_next]; exact h.free_end
  used := by rw [liveSet_of_eq (setVal_key t n val) rfl]; exact h.used

theorem bound_iff (hk : k.type ≠ .OT_NULL) :
    (∃ v, t.Binds k v) ↔ ∃ i, i < t.numofnodes ∧ (t.nodes i).key = k := by
  constructor
  · rintro ⟨_, i, hi, _, rfl, _⟩
    exact ⟨i, hi, rfl⟩
  · rintro ⟨i, hi, rfl⟩
    exact ⟨_, i, hi, hk, rfl, rfl⟩

/-! ## The free pointer -/

theorem correctFirstfree_some {f g : Nat} (h : t.correctFirstfree f = some g) :
    g ≤ f ∧ ¬ t.Live g ∧ t.next g = none ∧
      ∀ i, g < i → i ≤ f → t.Live i ∨ t.next i ≠ none := by
  induction f with
  | zero =>
    rw [correctFirstfree] at h
    split at h
    · next free =>
      obtain rfl := Option.some.inj h
      exact ⟨Nat.le_refl 0, not_not_intro free.1, free.2, fun i _ _ => by omega⟩
    · cases h
  | succ f ih =>
    rw [correctFirstfree] at h
    split at h
    · next free =>
      obtain rfl := Option.some.inj h
      exact ⟨Nat.le_refl _, not_not_intro free.1, free.2, fun i _ _ => by omega⟩
    · next taken =>
      obtain ⟨le, dead, free, above⟩ := ih h
      refine ⟨by omega, dead, free, fun i gi hi => ?_⟩
      by_cases top : i = f + 1
      · rw [top, Live, next, ← not_and_or]
        exact taken
      · exact above i gi (by omega)

theorem correctFirstfree_exists {f i : Nat} (hi : i ≤ f) (dead : ¬ t.Live i)
    (free : t.next i = none) : ∃ g, t.correctFirstfree f = some g := by
  have here : (t.nodes i).key.type = .OT_NULL ∧ (t.nodes i).next = none :=
    ⟨not_not.mp dead, free⟩
  induction f with
  | zero =>
    obtain rfl : i = 0 := by omega
    exact ⟨0, if_pos here⟩
  | succ f ih =>
    rw [correctFirstfree]
    split
    · exact ⟨_, rfl⟩
    · next taken =>
      have : i ≠ f + 1 := by rintro rfl; exact taken here
      exact ih (by omega)

/-! ## Insertion that stays in the array -/

section insertion

variable {key val : LVObject} {mp : Nat}

theorem Room.card (room : Room HashObj t key t' mp) :
    t'.liveSet.card = t.liveSet.card + 1 := by
  obtain ⟨x, fresh, eq⟩ := room.grows
  rw [eq, Finset.card_insert_of_notMem fresh]

theorem Room.live (room : Room HashObj t key t' mp) {i : Nat} (hi : i < t.numofnodes)
    (li : t.Live i) : t'.Live i := by
  obtain ⟨x, _, eq⟩ := room.grows
  have : i ∈ t'.liveSet := by rw [eq]; simp [hi, li]
  exact (mem_liveSet.mp this).2

/-- A packed table with a node to spare still has a free node after making room. -/
theorem Room.free_exists (room : Room HashObj t key t' mp) (packed : Packed t)
    (space : t.liveSet.card + 1 < t.numofnodes) :
    ∃ g, t'.correctFirstfree t'.firstfree = some g := by
  obtain ⟨i, hi, dead⟩ : ∃ i ∈ Finset.range t.numofnodes, i ∉ t'.liveSet := by
    apply Finset.exists_mem_notMem_of_card_lt_card
    rw [room.card, Finset.card_range]
    exact space
  rw [Finset.mem_range] at hi
  have dead : ¬ t'.Live i := fun live => dead (mem_liveSet.mpr ⟨room.nodes_eq ▸ hi, live⟩)
  refine correctFirstfree_exists ?_ dead ?_
  · rw [room.free_eq]
    by_contra above
    exact dead (room.live HashObj hi (packed.above i (by omega) hi))
  · by_contra linked
    exact dead (room.packed packed.linked i linked)

/-- Storing the value and moving the free pointer down completes an insertion. -/
theorem Room.finish (h : Inv HashObj t) (room : Room HashObj t key t' mp)
    (hk : key.type ≠ .OT_NULL) {g : Nat}
    (free : t'.correctFirstfree t'.firstfree = some g) (val : LVObject) :
    let done := { t'.modify mp ({ · with val := val }) with
      firstfree := g, usednodes := t'.usednodes + 1 }
    Inv HashObj done ∧ Stored t key val done ∧ done.numofnodes = t.numofnodes ∧
      done.liveSet.card = t.liveSet.card + 1 ∧ (Packed t → Packed done) := by
  intro done
  obtain ⟨le, dead, unlinked, above⟩ := correctFirstfree_some free
  have mp_lt : mp < t'.numofnodes := room.nodes_eq ▸ room.mp_lt
  have live_mp : t'.Live mp := by rw [Live, room.mp_key]; exact hk
  have keys : ∀ i, (done.nodes i).key = (t'.nodes i).key := setVal_key t' mp val
  have links : done.next = t'.next := setVal_next t' mp val
  have live : ∀ i, done.Live i ↔ t'.Live i := fun i => by rw [Live, keys, Live]
  have g_lt : g < t'.numofnodes := by
    have := room.free_eq
    have := room.nodes_eq
    have := h.free_lt
    omega
  have core : Core HashObj (t'.modify mp ({ · with val := val })) :=
    room.core.of_eq HashObj (setVal_key t' mp val) (setVal_next t' mp val) rfl rfl
  have count : done.liveSet.card = t.liveSet.card + 1 := by
    rw [liveSet_of_eq keys rfl, room.card]
  have stored : Stored t key val done := by
    intro k v
    have step := setVal_stored HashObj room.core mp_lt live_mp val k v
    rw [room.mp_key] at step
    refine Iff.trans (Iff.trans ?_ step) ?_
    · exact Iff.rfl
    · refine or_congr Iff.rfl (and_congr_right fun ne => room.binds k v ne)
  refine ⟨⟨⟨core.size, core.ends, ?_, core.injective, core.reach, core.guests, core.keys⟩,
    g_lt, ?_, ?_, ?_⟩, stored, room.nodes_eq, count, ?_⟩
  · intro i j hij
    obtain ⟨hj, lt | ⟨e, lj⟩⟩ := core.linked i j hij
    · exact ⟨hj, Or.inl (lt_of_le_of_lt le lt)⟩
    · have : g ≠ j := by rintro rfl; exact dead ((live g).mp lj)
      have : j = t'.firstfree := e
      exact ⟨hj, Or.inl (by change g < j; omega)⟩
  · rw [live]; exact dead
  · rw [links]; exact unlinked
  · rw [count]
    have := room.used_eq
    have := h.used
    change t'.usednodes + 1 = _
    omega
  · intro packed
    have linked' := room.packed packed.linked
    refine ⟨fun i hi => (live i).mpr (linked' i (by rwa [links] at hi)), fun i gi hi => ?_⟩
    rw [live]
    have hi : i < t.numofnodes := room.nodes_eq ▸ hi
    by_cases top : i ≤ t'.firstfree
    · exact (above i gi top).elim id (linked' i)
    · have := room.free_eq
      exact room.live HashObj hi (packed.above i (by omega) hi)

/-- `newSlot` on a bound key stores the value in the key's node. -/
theorem newSlot_bound (h : Inv HashObj t) (hk : key.type ≠ .OT_NULL) {i : Nat}
    (hi : i < t.numofnodes) (at_i : (t.nodes i).key = key) (depth : Nat) (val : LVObject) :
    let done := t.modify i ({ · with val := val })
    newSlot HashObj (depth + 1) t key val = some (false, done) ∧ Inv HashObj done ∧
      Stored t key val done := by
  have live : t.Live i := by rw [Live, at_i]; exact hk
  refine ⟨?_, h.setVal HashObj i val, at_i ▸ setVal_stored HashObj h.toCore hi live val⟩
  rw [newSlot, if_neg hk, get_some HashObj h.toCore hk hi at_i]

/-- `newSlot` on a key that is not bound, while the array has room. -/
theorem newSlot_packed (h : Inv HashObj t) (packed : Packed t) (hk : key.type ≠ .OT_NULL)
    (absent : ∀ i, i < t.numofnodes → (t.nodes i).key ≠ key)
    (space : t.liveSet.card + 1 < t.numofnodes) (depth : Nat) (val : LVObject) :
    ∃ done, newSlot HashObj (depth + 1) t key val = some (true, done) ∧ Inv HashObj done ∧
      Packed done ∧ Stored t key val done ∧ done.numofnodes = t.numofnodes ∧
      done.liveSet.card = t.liveSet.card + 1 := by
  obtain ⟨t₁, mp, found, room⟩ := insertionNode_room HashObj h hk absent
  obtain ⟨g, free⟩ := room.free_exists HashObj packed space
  obtain ⟨inv, stored, size, count, packed'⟩ := room.finish HashObj h hk free val
  refine ⟨_, ?_, inv, packed' packed, stored, size, count⟩
  rw [newSlot, if_neg hk, get_none HashObj h.toCore absent]
  simp only [found, free]
  rfl

end insertion

/-! ## Rehashing -/

theorem not_live_empty (n i : Nat) : ¬ (t.allocNodes n).Live i := not_not_intro rfl

theorem not_binds_empty (n : Nat) (k v : LVObject) : ¬ (t.allocNodes n).Binds k v := by
  rintro ⟨i, _, live, _⟩
  exact not_live_empty n i live

/-- Newly allocated nodes: nothing bound, the free pointer at the last node. -/
theorem inv_allocNodes (t : LVTable) (e : Nat) :
    Inv HashObj { t.allocNodes (4 * 2 ^ e) with usednodes := 0 } ∧
      Packed { t.allocNodes (4 * 2 ^ e) with usednodes := 0 } := by
  have pos := Nat.two_pow_pos e
  have dead : ∀ i, ¬ Live { t.allocNodes (4 * 2 ^ e) with usednodes := 0 } i :=
    fun _ => not_not_intro rfl
  refine ⟨⟨⟨⟨e, rfl⟩, fun i _ => ⟨[i], .last rfl⟩, ?_, ?_, ?_, ?_, ?_⟩, ?_, dead _, rfl, ?_⟩, ?_, ?_⟩
  · rintro i j ⟨⟩
  · rintro i j k ⟨⟩
  · exact fun i _ live => absurd live (dead i)
  · exact fun i _ live => absurd live (dead i)
  · exact fun i _ _ _ live => absurd live (dead i)
  · change 4 * 2 ^ e - 1 < 4 * 2 ^ e
    omega
  · change (0 : Int) = _
    rw [Finset.card_eq_zero.mpr]
    · rfl
    · exact Finset.eq_empty_of_forall_notMem fun i hi => dead i (mem_liveSet.mp hi).2
  · exact fun i hi => absurd rfl hi
  · intro i above lt
    change 4 * 2 ^ e - 1 < i at above
    change i < 4 * 2 ^ e at lt
    omega

/-- One round of the loop of `rehash`. -/
def reinsert (insert : LVTable → LVObject → LVObject → Option (Bool × LVTable))
    (t new : LVTable) (i : Nat) : Option LVTable :=
  if (t.nodes i).key.type ≠ .OT_NULL then
    (insert new (t.nodes i).key (t.nodes i).val).map Prod.snd
  else some new

/-- Reinserting the entries at the nodes `l` of `t` into a packed table with
room for them all. -/
theorem reinsert_all (depth : Nat) (distinct : ∀ i j, i < t.numofnodes → j < t.numofnodes →
      t.Live i → t.Live j → (t.nodes i).key = (t.nodes j).key → i = j) :
    ∀ (l : List Nat) (new : LVTable), (∀ i ∈ l, i < t.numofnodes) → l.Nodup →
      Inv HashObj new → Packed new →
      (∀ i ∈ l, t.Live i → ∀ j, j < new.numofnodes → (new.nodes j).key ≠ (t.nodes i).key) →
      new.liveSet.card + (l.filter t.Live).length < new.numofnodes →
      ∃ done, l.foldlM (reinsert (newSlot HashObj (depth + 1)) t) new = some done ∧
        Inv HashObj done ∧ ∀ k v, done.Binds k v ↔
          new.Binds k v ∨ ∃ i ∈ l, t.Live i ∧ (t.nodes i).key = k ∧ (t.nodes i).val = v := by
  intro l
  induction l with
  | nil =>
    intro new _ _ inv _ _ _
    exact ⟨new, rfl, inv, by simp⟩
  | cons i l ih =>
    intro new bound nodup inv packed absent space
    obtain ⟨notMem, nodup⟩ := List.nodup_cons.mp nodup
    have bound_l : ∀ j ∈ l, j < t.numofnodes := fun j hj => bound j (List.mem_cons_of_mem _ hj)
    by_cases live : t.Live i
    · rw [List.filter_cons_of_pos (by simpa using live), List.length_cons] at space
      obtain ⟨mid, eq, inv', packed', stored, size, card⟩ :=
        newSlot_packed HashObj inv packed live (absent i List.mem_cons_self live)
          (by omega) depth (t.nodes i).val
      have absent' : ∀ x ∈ l, t.Live x → ∀ j, j < mid.numofnodes →
          (mid.nodes j).key ≠ (t.nodes x).key := by
        intro x hx lx j hj same
        have : ∃ v, mid.Binds (t.nodes x).key v := (bound_iff lx).mpr ⟨j, hj, same⟩
        obtain ⟨v, hv⟩ := this
        rcases (stored _ _).mp hv with ⟨e, _⟩ | ⟨_, hb⟩
        · have := distinct x i (bound_l x hx) (bound i List.mem_cons_self) lx live e
          exact notMem (this ▸ hx)
        · obtain ⟨y, hy, _, ky, _⟩ := hb
          exact absent x (List.mem_cons_of_mem _ hx) lx y hy ky
      obtain ⟨done, run, invd, binds⟩ := ih mid bound_l nodup inv' packed' absent'
        (by rw [card, size]; omega)
      refine ⟨done, ?_, invd, fun k v => ?_⟩
      · rw [List.foldlM_cons]
        have first : reinsert (newSlot HashObj (depth + 1)) t new i = some mid := by
          refine (if_pos live).trans ?_
          rw [eq, Option.map_some]
        rw [first]
        exact run
      · rw [binds, stored]
        have fresh : ∀ w, ¬ new.Binds (t.nodes i).key w := by
          rintro w ⟨y, hy, _, ky, _⟩
          exact absent i List.mem_cons_self live y hy ky
        constructor
        · rintro ((⟨rfl, rfl⟩ | ⟨_, hb⟩) | ⟨x, hx, lx, kx, vx⟩)
          · exact Or.inr ⟨i, List.mem_cons_self, live, rfl, rfl⟩
          · exact Or.inl hb
          · exact Or.inr ⟨x, List.mem_cons_of_mem _ hx, lx, kx, vx⟩
        · rintro (hb | ⟨x, hx, lx, kx, vx⟩)
          · exact Or.inl (Or.inr ⟨by rintro rfl; exact fresh _ hb, hb⟩)
          · rcases List.mem_cons.mp hx with rfl | hx
            · exact Or.inl (Or.inl ⟨kx.symm, vx.symm⟩)
            · exact Or.inr ⟨x, hx, lx, kx, vx⟩
    · rw [List.filter_cons_of_neg (by simpa using live)] at space
      obtain ⟨done, run, invd, binds⟩ := ih new bound_l nodup inv packed
        (fun x hx => absent x (List.mem_cons_of_mem _ hx)) space
      refine ⟨done, ?_, invd, fun k v => ?_⟩
      · rw [List.foldlM_cons]
        have first : reinsert (newSlot HashObj (depth + 1)) t new i = some new := by
          exact if_neg live
        rw [first]
        exact run
      · rw [binds]
        refine or_congr Iff.rfl ⟨?_, ?_⟩
        · rintro ⟨x, hx, rest⟩
          exact ⟨x, List.mem_cons_of_mem _ hx, rest⟩
        · rintro ⟨x, hx, lx, rest⟩
          rcases List.mem_cons.mp hx with rfl | hx
          · exact absurd lx live
          · exact ⟨x, hx, lx, rest⟩

theorem liveSet_card (t : LVTable) :
    t.liveSet.card = ((List.range t.numofnodes).filter t.Live).length := by
  rfl

/-- What `rehash` asks of a table: whole, with its entries counted up to one
that has been stored but not counted yet. -/
structure Rehashable (t : LVTable) : Prop where
  size : ∃ e, t.numofnodes = 4 * 2 ^ e
  distinct : ∀ i j, i < t.numofnodes → j < t.numofnodes → t.Live i → t.Live j →
    (t.nodes i).key = (t.nodes j).key → i = j
  used : t.usednodes = t.liveSet.card ∨ t.usednodes + 1 = t.liveSet.card

/-- `rehash` keeps the bindings, whichever of the three sizes it takes. With
`force` unset it may leave the table as it is. -/
theorem rehash_spec (h : Rehashable t) (depth : Nat) (force : Bool)
    (stay : force = false → Inv HashObj t) :
    ∃ done, rehash (newSlot HashObj (depth + 1)) force t = some done ∧ Inv HashObj done ∧
      ∀ k v, done.Binds k v ↔ t.Binds k v := by
  obtain ⟨e, he⟩ := h.size
  have pos := Nat.two_pow_pos e
  have old : (if t.numofnodes < 4 then 4 else t.numofnodes) = t.numofnodes := by
    rw [if_neg (by omega)]
  have moved : ∀ e', t.liveSet.card < 4 * 2 ^ e' →
      ∃ done, (List.range t.numofnodes).foldlM (reinsert (newSlot HashObj (depth + 1)) t)
          { t.allocNodes (4 * 2 ^ e') with usednodes := 0 } = some done ∧ Inv HashObj done ∧
        ∀ k v, done.Binds k v ↔ t.Binds k v := by
    intro e' space
    obtain ⟨inv, packed⟩ := inv_allocNodes HashObj t e'
    obtain ⟨done, run, invd, binds⟩ := reinsert_all HashObj depth h.distinct
      (List.range t.numofnodes) { t.allocNodes (4 * 2 ^ e') with usednodes := 0 }
      (fun i hi => List.mem_range.mp hi) List.nodup_range inv packed
      (fun i _ live j _ same => live (by rw [← same]; rfl))
      (by
        have none : (liveSet { t.allocNodes (4 * 2 ^ e') with usednodes := 0 }).card = 0 := by
          have := inv.used
          change (0 : Int) = _ at this
          omega
        rw [none, ← liveSet_card]
        change 0 + _ < 4 * 2 ^ e'
        omega)
    refine ⟨done, run, invd, fun k v => (binds k v).trans ⟨?_, ?_⟩⟩
    · rintro (⟨i, _, live, _⟩ | ⟨i, hi, rest⟩)
      · exact absurd rfl live
      · exact ⟨i, List.mem_range.mp hi, rest⟩
    · rintro ⟨i, hi, rest⟩
      exact Or.inr ⟨i, List.mem_range.mpr hi, rest⟩
  have card_le : t.liveSet.card ≤ t.numofnodes := by
    rw [liveSet_card]
    exact (List.length_filter_le _ _).trans_eq List.length_range
  have used := h.used
  unfold rehash
  simp only [old, countUsed]
  split
  · have := moved (e + 1) (by rw [pow_succ]; omega)
    rw [pow_succ, ← mul_assoc, ← he] at this
    exact this
  · next notMany =>
    split
    · next few =>
      have big : 1 ≤ e := by
        by_contra small
        obtain rfl : e = 0 := by omega
        simp [he, MINPOWER2] at few
      obtain ⟨e', rfl⟩ : ∃ e', e = e' + 1 := ⟨e - 1, by omega⟩
      rw [pow_succ] at he
      have := moved e' (by omega)
      rw [show 4 * 2 ^ e' = t.numofnodes / 2 by omega] at this
      exact this
    · cases force with
      | true =>
        have := moved e (by omega)
        rw [← he] at this
        exact this
      | false => exact ⟨t, rfl, stay rfl, fun _ _ => Iff.rfl⟩

/-! ## The operations -/

section operations

variable {key : LVObject} (val : LVObject) (depth : Nat)

/-- Only the last free node's taker rehashes, and the key is then bound already. -/
theorem newSlot_absent (h : Inv HashObj t) (hk : key.type ≠ .OT_NULL)
    (absent : ∀ i, i < t.numofnodes → (t.nodes i).key ≠ key) :
    ∃ t₁ mp done, t.insertionNode HashObj key = some (t₁, mp) ∧
      Room HashObj t key (t₁.modify mp ({ · with key := key })) mp ∧
      newSlot HashObj (depth + 2) t key val =
        some ((t₁.modify mp ({ · with key := key })).correctFirstfree t.firstfree |>.isSome, done) ∧
      Inv HashObj done ∧ Stored t key val done := by
  obtain ⟨t₁, mp, found, room⟩ := insertionNode_room HashObj h hk absent
  rw [newSlot, if_neg hk, get_none HashObj h.toCore absent]
  simp only [found, ← room.free_eq]
  set t₂ := t₁.modify mp ({ · with key := key }) with ht₂
  cases free : t₂.correctFirstfree t₂.firstfree with
  | some g =>
    obtain ⟨inv, stored, _⟩ := room.finish HashObj h hk free val
    refine ⟨t₁, mp, _, rfl, room, ?_, inv, stored⟩
    rw [← ht₂, free]
    rfl
  | none =>
    have ready : Rehashable { t₂ with firstfree := 0 } := by
      refine ⟨room.core.size, room.core.keys, Or.inr ?_⟩
      have := room.card
      have := room.used_eq
      have := h.used
      change t₂.usednodes + 1 = (t₂.liveSet.card : Int)
      omega
    obtain ⟨mid, run, invm, binds⟩ := rehash_spec HashObj ready depth true fun eq => by cases eq
    have lt : mp < t₂.numofnodes := room.nodes_eq ▸ room.mp_lt
    have live : t₂.Live mp := by rw [Live, room.mp_key]; exact hk
    obtain ⟨i, hi, at_i⟩ : ∃ i, i < mid.numofnodes ∧ (mid.nodes i).key = key :=
      (bound_iff hk).mp ⟨_, (binds key _).mpr ⟨mp, lt, live, room.mp_key, rfl⟩⟩
    obtain ⟨eq, inv, stored⟩ := newSlot_bound HashObj invm hk hi at_i depth val
    refine ⟨t₁, mp, _, rfl, room, ?_, inv, fun k v => (stored k v).trans (or_congr Iff.rfl ?_)⟩
    · simp only [run]
      rw [eq, ← ht₂, free]
      rfl
    · exact and_congr_right fun ne => (binds k v).trans (room.binds k v ne)

/-- `newSlot` stores the value whether or not the array has room. -/
theorem newSlot_spec (h : Inv HashObj t) (hk : key.type ≠ .OT_NULL) :
    ∃ b done, newSlot HashObj (depth + 2) t key val = some (b, done) ∧ Inv HashObj done ∧
      Stored t key val done := by
  by_cases bound : ∃ i, i < t.numofnodes ∧ (t.nodes i).key = key
  · obtain ⟨i, hi, at_i⟩ := bound
    obtain ⟨eq, inv, stored⟩ := newSlot_bound HashObj h hk hi at_i (depth + 1) val
    exact ⟨_, _, eq, inv, stored⟩
  · have absent : ∀ i, i < t.numofnodes → (t.nodes i).key ≠ key :=
      fun i hi same => bound ⟨i, hi, same⟩
    obtain ⟨_, _, done, -, -, run, inv, stored⟩ := newSlot_absent HashObj val depth h hk absent
    exact ⟨_, done, run, inv, stored⟩

theorem set_spec (h : Inv HashObj t) (hk : key.type ≠ .OT_NULL) :
    ∃ b done, t.set HashObj key val = some (b, done) ∧ Inv HashObj done ∧
      (b = true ↔ ∃ v, t.Binds key v) ∧
      ∀ k v, done.Binds k v ↔
        (k = key ∧ v = val ∧ ∃ w, t.Binds key w) ∨ (k ≠ key ∧ t.Binds k v) := by
  by_cases bound : ∃ i, i < t.numofnodes ∧ (t.nodes i).key = key
  · have has := (bound_iff hk).mpr bound
    obtain ⟨i, hi, at_i⟩ := bound
    have live : t.Live i := by rw [Live, at_i]; exact hk
    refine ⟨true, t.modify i ({ · with val := val }), ?_, h.setVal HashObj i val, by simp [has], ?_⟩
    · rw [set, get_some HashObj h.toCore hk hi at_i]
    · intro k v
      have := setVal_stored HashObj h.toCore hi live val k v
      rw [at_i] at this
      simp [this, has]
  · have absent : ∀ i, i < t.numofnodes → (t.nodes i).key ≠ key :=
      fun i hi same => bound ⟨i, hi, same⟩
    have fresh : ¬ ∃ v, t.Binds key v := fun hb => bound ((bound_iff hk).mp hb)
    refine ⟨false, t, ?_, h, by simpa using fresh, fun k v => ?_⟩
    · rw [set, get_none HashObj h.toCore absent]
    · simp only [fresh, and_false, false_or]
      exact ⟨fun hb => ⟨by rintro rfl; exact fresh ⟨v, hb⟩, hb⟩, And.right⟩

/-- Erasing a node's key keeps the chains: the node stays linked. -/
theorem erase_inv (h : Inv HashObj t) {n : Nat} (hn : n < t.numofnodes) (live : t.Live n) :
    let done := { t.modify n ({ · with val := .null, key := .null }) with
      usednodes := t.usednodes - 1 }
    Inv HashObj done ∧ ∀ k v, done.Binds k v ↔ k ≠ (t.nodes n).key ∧ t.Binds k v := by
  intro done
  have node_n : done.nodes n = { t.nodes n with val := .null, key := .null } :=
    modify_self n ({ · with val := .null, key := .null })
  have other : ∀ i, i ≠ n → done.nodes i = t.nodes i :=
    fun i hi => modify_other ({ · with val := .null, key := .null }) hi
  have dead_n : ¬ done.Live n := by rw [Live, node_n]; exact not_not_intro rfl
  have links : done.next = t.next := by
    funext i
    by_cases hi : i = n
    · rw [hi, next, node_n, next]
    · rw [next, other i hi, next]
  have live_iff : ∀ i, done.Live i ↔ i ≠ n ∧ t.Live i := by
    intro i
    by_cases hi : i = n
    · simp [hi, dead_n]
    · simp [Live, other i hi, hi]
  have home_eq : ∀ i, i ≠ n → done.home HashObj i = t.home HashObj i := by
    intro i hi
    simp only [home, other i hi]
    rfl
  have set_eq : done.liveSet = t.liveSet.erase n := by
    ext i
    simp only [mem_liveSet, Finset.mem_erase, live_iff]
    constructor
    · rintro ⟨hi, ne, li⟩
      exact ⟨ne, hi, li⟩
    · rintro ⟨ne, hi, li⟩
      exact ⟨hi, ne, li⟩
  refine ⟨⟨⟨h.size, ?_, ?_, ?_, ?_, ?_, ?_⟩, h.free_lt, ?_, ?_, ?_⟩, fun k v => ⟨?_, ?_⟩⟩
  · rw [links]; exact h.ends
  · intro i j hij
    rw [links] at hij
    obtain ⟨hj, lt | ⟨e, lj⟩⟩ := h.linked i j hij
    · exact ⟨hj, Or.inl lt⟩
    · exact absurd (e ▸ lj) h.free_dead
  · rw [links]; exact h.injective
  · intro i hi li
    obtain ⟨ne, li⟩ := (live_iff i).mp li
    rw [links, home_eq i ne]
    exact h.reach i hi li
  · intro i hi li guest j hj lj
    obtain ⟨ne, li⟩ := (live_iff i).mp li
    obtain ⟨ne', lj⟩ := (live_iff j).mp lj
    rw [home_eq i ne] at guest
    rw [home_eq j ne']
    exact h.guests i hi li guest j hj lj
  · intro i j hi hj li lj same
    obtain ⟨ne, li⟩ := (live_iff i).mp li
    obtain ⟨ne', lj⟩ := (live_iff j).mp lj
    rw [other i ne, other j ne'] at same
    exact h.keys i j hi hj li lj same
  · exact fun lf => h.free_dead ((live_iff _).mp lf).2
  · rw [links]; exact h.free_end
  · have mem : n ∈ t.liveSet := mem_liveSet.mpr ⟨hn, live⟩
    have pos : 0 < t.liveSet.card := Finset.card_pos.mpr ⟨n, mem⟩
    have := h.used
    rw [set_eq, Finset.card_erase_of_mem mem]
    change t.usednodes - 1 = _
    omega
  · rintro ⟨i, hi, li, rfl, rfl⟩
    obtain ⟨ne, li⟩ := (live_iff i).mp li
    rw [other i ne]
    exact ⟨fun same => ne (h.keys i n hi hn li live same), i, hi, li, rfl, rfl⟩
  · rintro ⟨hk, i, hi, li, rfl, rfl⟩
    have ne : i ≠ n := by rintro rfl; exact hk rfl
    exact ⟨i, hi, (live_iff i).mpr ⟨ne, li⟩, by rw [other i ne], by rw [other i ne]⟩

theorem Inv.rehashable (h : Inv HashObj t) : Rehashable t :=
  ⟨h.size, h.keys, Or.inl h.used⟩

theorem remove_spec (h : Inv HashObj t) (hk : key.type ≠ .OT_NULL) :
    ∃ done, t.remove HashObj (depth + 1) key = some done ∧ Inv HashObj done ∧
      ∀ k v, done.Binds k v ↔ k ≠ key ∧ t.Binds k v := by
  by_cases bound : ∃ i, i < t.numofnodes ∧ (t.nodes i).key = key
  · obtain ⟨i, hi, at_i⟩ := bound
    have live : t.Live i := by rw [Live, at_i]; exact hk
    obtain ⟨inv, binds⟩ := erase_inv HashObj h hi live
    obtain ⟨done, run, invd, same⟩ :=
      rehash_spec HashObj (inv.rehashable HashObj) depth false fun _ => inv
    refine ⟨done, ?_, invd, fun k v => ?_⟩
    · rw [remove, get_some HashObj h.toCore hk hi at_i]
      exact run
    · rw [same, binds, at_i]
  · have absent : ∀ i, i < t.numofnodes → (t.nodes i).key ≠ key :=
      fun i hi same => bound ⟨i, hi, same⟩
    have fresh : ∀ v, ¬ t.Binds key v := fun v hb => bound ((bound_iff hk).mp ⟨v, hb⟩)
    refine ⟨t, ?_, h, fun k v => ⟨fun hb => ⟨?_, hb⟩, And.right⟩⟩
    · rw [remove, get_none HashObj h.toCore absent]
    · rintro rfl
      exact fresh v hb

theorem clear_spec (h : Inv HashObj t) :
    ∃ done, t.clear HashObj (depth + 1) = some done ∧ Inv HashObj done ∧
      ∀ k v, ¬ done.Binds k v := by
  have dead : ∀ i, i < t.numofnodes → ¬ t.clearNodes.Live i := by
    intro i hi live
    simp [Live, clearNodes, hi, LVObject.null] at live
  have empty : t.clearNodes.liveSet = ∅ :=
    Finset.eq_empty_of_forall_notMem fun i hi =>
      dead i (mem_liveSet.mp hi).1 (mem_liveSet.mp hi).2
  have ready : Rehashable { t.clearNodes with usednodes := 0 } := by
    refine ⟨h.size, fun i _ hi _ li => absurd li (dead i hi), Or.inl ?_⟩
    change (0 : Int) = (t.clearNodes.liveSet.card : Int)
    rw [empty]
    rfl
  obtain ⟨done, run, invd, same⟩ := rehash_spec HashObj ready depth true fun eq => by cases eq
  refine ⟨done, run, invd, fun k v hb => ?_⟩
  obtain ⟨i, hi, li, _⟩ := (same k v).mp hb
  exact dead i hi li

theorem get_spec (weakref : LVObjectValue → LVObject) (h : Inv HashObj t)
    (hk : key.type ≠ .OT_NULL) :
    ∃ r, t.get HashObj weakref key = some r ∧
      ∀ o, r = some o ↔ ∃ v, t.Binds key v ∧ o = realval weakref v := by
  by_cases bound : ∃ i, i < t.numofnodes ∧ (t.nodes i).key = key
  · obtain ⟨i, hi, at_i⟩ := bound
    have live : t.Live i := by rw [Live, at_i]; exact hk
    have here : t.Binds key (t.nodes i).val := ⟨i, hi, live, at_i, rfl⟩
    refine ⟨some (realval weakref (t.nodes i).val), ?_, fun o => ⟨?_, ?_⟩⟩
    · rw [get, if_neg hk, get_some HashObj h.toCore hk hi at_i]
      rfl
    · intro e
      exact ⟨_, here, (Option.some.inj e).symm⟩
    · rintro ⟨v, hv, rfl⟩
      rw [binds_functional HashObj h.toCore hv here]
  · have absent : ∀ i, i < t.numofnodes → (t.nodes i).key ≠ key :=
      fun i hi same => bound ⟨i, hi, same⟩
    refine ⟨none, ?_, fun o => ⟨fun eq => (by cases eq), ?_⟩⟩
    · rw [get, if_neg hk, get_none HashObj h.toCore absent]
      rfl
    · rintro ⟨v, hv, _⟩
      exact absurd ((bound_iff hk).mp ⟨v, hv⟩) bound

theorem pow2size_eq (nInitialSize : Int) (fuel : Nat) :
    ∀ e, ∃ e', pow2size nInitialSize fuel (4 * 2 ^ e) = 4 * 2 ^ e' := by
  induction fuel with
  | zero => exact fun e => ⟨e, rfl⟩
  | succ fuel ih =>
    intro e
    rw [pow2size]
    split
    · obtain ⟨e', he⟩ := ih (e + 1)
      refine ⟨e', ?_⟩
      rw [← he, Nat.shiftLeft_eq, pow_succ]
      congr 1
      ring
    · exact ⟨e, rfl⟩

/-- The fuel covers the loop: the array has at least the size asked for. -/
theorem pow2size_ge {nInitialSize : Int} :
    ∀ {fuel p : Nat}, 0 < p → nInitialSize ≤ p + fuel →
      nInitialSize ≤ pow2size nInitialSize fuel p := by
  intro fuel
  induction fuel with
  | zero => intro p _ h; simpa [pow2size] using h
  | succ fuel ih =>
    intro p pos h
    rw [pow2size]
    split
    · apply ih
      · rw [Nat.shiftLeft_eq]; omega
      · rw [Nat.shiftLeft_eq]; omega
    · omega

theorem create_inv (nInitialSize : Int) :
    Inv HashObj (create nInitialSize) ∧ ∀ k v, ¬ (create nInitialSize).Binds k v := by
  obtain ⟨e, he⟩ := pow2size_eq nInitialSize nInitialSize.toNat 0
  have size : pow2size nInitialSize nInitialSize.toNat MINPOWER2 = 4 * 2 ^ e := he
  obtain ⟨inv, _⟩ := inv_allocNodes HashObj ⟨0, fun _ => .empty, 0, 0⟩ e
  rw [create, size]
  exact ⟨inv, not_binds_empty _⟩

/-- Storing the entries at the nodes `l` of `t` in any table. -/
theorem reinsert_over (distinct : ∀ i j, i < t.numofnodes → j < t.numofnodes → t.Live i → t.Live j →
      (t.nodes i).key = (t.nodes j).key → i = j) :
    ∀ (l : List Nat) (new : LVTable), (∀ i ∈ l, i < t.numofnodes) → l.Nodup → Inv HashObj new →
      ∃ done, l.foldlM (reinsert (newSlot HashObj (depth + 2)) t) new = some done ∧
        Inv HashObj done ∧ ∀ k v, done.Binds k v ↔
          (∃ i ∈ l, t.Live i ∧ (t.nodes i).key = k ∧ (t.nodes i).val = v) ∨
            new.Binds k v ∧ ∀ i ∈ l, t.Live i → (t.nodes i).key ≠ k := by
  intro l
  induction l with
  | nil =>
    intro new _ _ inv
    exact ⟨new, rfl, inv, by simp⟩
  | cons i l ih =>
    intro new bound nodup inv
    obtain ⟨notMem, nodup⟩ := List.nodup_cons.mp nodup
    have bound_l : ∀ j ∈ l, j < t.numofnodes := fun j hj => bound j (List.mem_cons_of_mem _ hj)
    by_cases live : t.Live i
    · obtain ⟨b, mid, eq, inv', stored⟩ := newSlot_spec HashObj (t.nodes i).val depth inv live
      obtain ⟨done, run, invd, binds⟩ := ih mid bound_l nodup inv'
      have first : reinsert (newSlot HashObj (depth + 2)) t new i = some mid := by
        refine (if_pos live).trans ?_
        rw [eq, Option.map_some]
      refine ⟨done, ?_, invd, fun k v => ?_⟩
      · rw [List.foldlM_cons, first]
        exact run
      · have others : ∀ x ∈ l, t.Live x → (t.nodes x).key ≠ (t.nodes i).key := by
          intro x hx lx same
          exact notMem (distinct x i (bound_l x hx) (bound i List.mem_cons_self) lx live same ▸ hx)
        rw [binds, stored]
        constructor
        · rintro (⟨x, hx, rest⟩ | ⟨⟨rfl, rfl⟩ | ⟨ne, hb⟩, absent⟩)
          · exact Or.inl ⟨x, List.mem_cons_of_mem _ hx, rest⟩
          · exact Or.inl ⟨i, List.mem_cons_self, live, rfl, rfl⟩
          · refine Or.inr ⟨hb, fun x hx lx => ?_⟩
            rcases List.mem_cons.mp hx with rfl | hx
            · exact ne.symm
            · exact absent x hx lx
        · rintro (⟨x, hx, lx, rfl, rfl⟩ | ⟨hb, absent⟩)
          · rcases List.mem_cons.mp hx with rfl | hx
            · exact Or.inr ⟨Or.inl ⟨rfl, rfl⟩, others⟩
            · exact Or.inl ⟨x, hx, lx, rfl, rfl⟩
          · exact Or.inr ⟨Or.inr ⟨(absent i List.mem_cons_self live).symm, hb⟩,
              fun x hx => absent x (List.mem_cons_of_mem _ hx)⟩
    · obtain ⟨done, run, invd, binds⟩ := ih new bound_l nodup inv
      have first : reinsert (newSlot HashObj (depth + 2)) t new i = some new := if_neg live
      refine ⟨done, ?_, invd, fun k v => ?_⟩
      · rw [List.foldlM_cons, first]
        exact run
      · rw [binds]
        constructor
        · rintro (⟨x, hx, rest⟩ | ⟨hb, absent⟩)
          · exact Or.inl ⟨x, List.mem_cons_of_mem _ hx, rest⟩
          · refine Or.inr ⟨hb, fun x hx lx => ?_⟩
            rcases List.mem_cons.mp hx with rfl | hx
            · exact absurd lx live
            · exact absent x hx lx
        · rintro (⟨x, hx, lx, rest⟩ | ⟨hb, absent⟩)
          · rcases List.mem_cons.mp hx with rfl | hx
            · exact absurd lx live
            · exact Or.inl ⟨x, hx, lx, rest⟩
          · exact Or.inr ⟨hb, fun x hx => absent x (List.mem_cons_of_mem _ hx)⟩

theorem clone_spec (h : Inv HashObj t) :
    ∃ done, clone HashObj (depth + 2) t = some done ∧ Inv HashObj done ∧
      ∀ k v, done.Binds k v ↔ t.Binds k v := by
  obtain ⟨inv, empty⟩ := create_inv HashObj t.numofnodes
  obtain ⟨done, run, invd, binds⟩ := reinsert_over HashObj depth h.keys (List.range t.numofnodes)
    (create t.numofnodes) (fun i hi => List.mem_range.mp hi) List.nodup_range inv
  refine ⟨done, run, invd, fun k v => (binds k v).trans ⟨?_, ?_⟩⟩
  · rintro (⟨i, hi, rest⟩ | ⟨hb, _⟩)
    · exact ⟨i, List.mem_range.mp hi, rest⟩
    · exact absurd hb (empty k v)
  · rintro ⟨i, hi, rest⟩
    exact Or.inl ⟨i, List.mem_range.mpr hi, rest⟩

end operations

end Lavril.LVTable
