import Lavril.Table
import Mathlib.Data.Finset.Card
import Mathlib.Algebra.Order.Group.Nat
import Mathlib.Tactic.Ring

/-!
# The invariant of the hash table

`Core` says how the chains of a table lie in its array, `Inv` adds what holds
between two operations. Making room for a key keeps `Core`, whichever of the
three ways it takes.
-/

namespace Lavril.LVTable

open Chain

variable (HashObj : LVObject → Nat)

def Live (t : LVTable) (i : Nat) : Prop := (t.nodes i).key.type ≠ .OT_NULL

instance (t : LVTable) (i : Nat) : Decidable (t.Live i) :=
  inferInstanceAs (Decidable (_ ≠ _))

/-- Main position of the key a node holds. -/
def home (t : LVTable) (i : Nat) : Nat := t.mainPosition HashObj (t.nodes i).key

def liveSet (t : LVTable) : Finset Nat := (Finset.range t.numofnodes).filter t.Live

@[simp] theorem mem_liveSet {t : LVTable} {i : Nat} :
    i ∈ t.liveSet ↔ i < t.numofnodes ∧ t.Live i := by simp [liveSet]

/-- A live node holds the key with this value. -/
def Binds (t : LVTable) (k v : LVObject) : Prop :=
  ∃ i, i < t.numofnodes ∧ t.Live i ∧ (t.nodes i).key = k ∧ (t.nodes i).val = v

structure Core (t : LVTable) : Prop where
  size : ∃ e, t.numofnodes = 4 * 2 ^ e
  ends : ∀ i, i < t.numofnodes → ∃ l, Walk t.next i l
  linked : ∀ i j, t.next i = some j →
    j < t.numofnodes ∧ (t.firstfree < j ∨ j = t.firstfree ∧ t.Live j)
  injective : Injective t.next
  reach : ∀ i, i < t.numofnodes → t.Live i →
    ∃ l, Walk t.next (t.home HashObj i) l ∧ i ∈ l
  /-- A node whose key has another main position is the main position of no key. -/
  guests : ∀ i, i < t.numofnodes → t.Live i → t.home HashObj i ≠ i →
    ∀ j, j < t.numofnodes → t.Live j → t.home HashObj j ≠ i
  keys : ∀ i j, i < t.numofnodes → j < t.numofnodes → t.Live i → t.Live j →
    (t.nodes i).key = (t.nodes j).key → i = j

structure Inv (t : LVTable) : Prop extends Core HashObj t where
  free_lt : t.firstfree < t.numofnodes
  free_dead : ¬ t.Live t.firstfree
  free_end : t.next t.firstfree = none
  used : t.usednodes = t.liveSet.card

/-- Insertion alone leaves no dead node linked and fills the array from above. -/
structure Packed (t : LVTable) : Prop where
  linked : ∀ i, t.next i ≠ none → t.Live i
  above : ∀ i, t.firstfree < i → i < t.numofnodes → t.Live i

theorem Core.pos {t : LVTable} (h : Core HashObj t) : 0 < t.numofnodes := by
  obtain ⟨e, he⟩ := h.size
  have := Nat.two_pow_pos e
  omega

theorem mainPosition_lt {t : LVTable} (h : 0 < t.numofnodes) (k : LVObject) :
    t.mainPosition HashObj k < t.numofnodes := by
  have := Nat.and_le_right (n := HashObj k) (m := t.numofnodes - 1)
  unfold mainPosition
  omega

/-! ## Looking up -/

theorem binds_functional {t : LVTable} (h : Core HashObj t) {k v w : LVObject}
    (hv : t.Binds k v) (hw : t.Binds k w) : v = w := by
  obtain ⟨i, hi, li, ki, rfl⟩ := hv
  obtain ⟨j, hj, lj, kj, rfl⟩ := hw
  rw [h.keys i j hi hj li lj (ki.trans kj.symm)]

theorem search_find {t : LVTable} (h : Core HashObj t) (p : Nat → Bool) {i : Nat}
    (hi : i < t.numofnodes) :
    ∃ l, Walk t.next i l ∧ Chain.search t.next p t.numofnodes i = some (l.find? p) := by
  obtain ⟨l, w⟩ := h.ends i hi
  exact ⟨l, w, search_eq w (w.length_le hi fun i j hij => (h.linked i j hij).1)⟩

/-- The node `_get` finds for a non-null key is the live node holding it. -/
theorem get_some {t : LVTable} (h : Core HashObj t) {k : LVObject} (hk : k.type ≠ .OT_NULL)
    {i : Nat} (hi : i < t.numofnodes) (key : (t.nodes i).key = k) :
    t._get k (t.mainPosition HashObj k) = some (some i) := by
  have live : t.Live i := by rw [Live, key]; exact hk
  obtain ⟨l, w, hs⟩ := search_find HashObj h
    (fun n => decide ((t.nodes n).key.unVal = k.unVal ∧ (t.nodes n).key.type = k.type))
    (mainPosition_lt HashObj (h.pos HashObj) k)
  obtain ⟨l', w', hm⟩ := h.reach i hi live
  rw [home, key] at w'
  obtain rfl := w.unique w'
  rw [_get, hs]
  cases hf : l.find? _ with
  | none => exact absurd (List.find?_eq_none.mp hf i hm) (by simp [key])
  | some n =>
    have hn := List.find?_some hf
    have hmem := List.mem_of_find?_eq_some hf
    simp only [decide_eq_true_eq] at hn
    have hkey : (t.nodes n).key = k := by
      cases hk' : (t.nodes n).key
      rw [hk'] at hn
      simp only at hn
      cases k
      simp_all
    have hlt : n < t.numofnodes := by
      rcases w.mem_cases hmem with rfl | ⟨y, _, hy⟩
      · exact mainPosition_lt HashObj (h.pos HashObj) k
      · exact (h.linked y n hy).1
    rw [h.keys n i hlt hi (by rw [Live, hkey]; exact hk) live (hkey.trans key.symm)]

theorem get_none {t : LVTable} (h : Core HashObj t) {k : LVObject}
    (absent : ∀ i, i < t.numofnodes → (t.nodes i).key ≠ k) :
    t._get k (t.mainPosition HashObj k) = some none := by
  obtain ⟨l, w, hs⟩ := search_find HashObj h
    (fun n => decide ((t.nodes n).key.unVal = k.unVal ∧ (t.nodes n).key.type = k.type))
    (mainPosition_lt HashObj (h.pos HashObj) k)
  rw [_get, hs, List.find?_eq_none.mpr]
  intro n hmem
  have hlt : n < t.numofnodes := by
    rcases w.mem_cases hmem with rfl | ⟨y, _, hy⟩
    · exact mainPosition_lt HashObj (h.pos HashObj) k
    · exact (h.linked y n hy).1
  simp only [decide_eq_true_eq]
  rintro ⟨hu, ht⟩
  apply absent n hlt
  cases hk' : (t.nodes n).key
  rw [hk'] at hu ht
  simp only at hu ht
  cases k
  simp_all

/-! ## Making room -/

section room

variable {t : LVTable}

theorem Inv.isolated (h : Inv HashObj t) : Isolated t.next t.firstfree := by
  refine ⟨h.free_end, fun a ha => ?_⟩
  rcases (h.linked a _ ha).2 with lt | ⟨_, live⟩
  · omega
  · exact h.free_dead live

/-- What `insertionNode` followed by the key's store does to a table. -/
structure Room (t : LVTable) (key : LVObject) (t' : LVTable) (mp : Nat) : Prop where
  core : Core HashObj t'
  nodes_eq : t'.numofnodes = t.numofnodes
  free_eq : t'.firstfree = t.firstfree
  used_eq : t'.usednodes = t.usednodes
  mp_lt : mp < t.numofnodes
  mp_key : (t'.nodes mp).key = key
  grows : ∃ x, x ∉ t.liveSet ∧ t'.liveSet = insert x t.liveSet
  binds : ∀ k v, k ≠ key → (t'.Binds k v ↔ t.Binds k v)
  packed : (∀ i, t.next i ≠ none → t.Live i) → ∀ i, t'.next i ≠ none → t'.Live i

/-- Every entry of `t` sits in `t'` at the node `place` gives, and `mp` holds
the one new key. -/
structure Moved (t : LVTable) (key : LVObject) (t' : LVTable) (mp : Nat)
    (place : Nat → Nat) : Prop where
  nodes_eq : t'.numofnodes = t.numofnodes
  mp_lt : mp < t.numofnodes
  mp_key : (t'.nodes mp).key = key
  place_lt : ∀ i, i < t.numofnodes → t.Live i → place i < t.numofnodes
  old : ∀ i, i < t.numofnodes → t.Live i → place i ≠ mp ∧ t'.Live (place i) ∧
    ((t'.nodes (place i)).key = (t.nodes i).key ∧ (t'.nodes (place i)).val = (t.nodes i).val)
  only : ∀ x, x < t.numofnodes → t'.Live x →
    x = mp ∨ ∃ i, i < t.numofnodes ∧ t.Live i ∧ x = place i
  mp_live : t'.Live mp

theorem Moved.binds {key : LVObject} {t' : LVTable} {mp : Nat} {place : Nat → Nat}
    (m : Moved t key t' mp place) {k v : LVObject} (hk : k ≠ key) :
    t'.Binds k v ↔ t.Binds k v := by
  constructor
  · rintro ⟨x, hx, lx, rfl, rfl⟩
    rcases m.only x (m.nodes_eq ▸ hx) lx with rfl | ⟨i, hi, li, rfl⟩
    · exact absurd m.mp_key hk
    · obtain ⟨_, _, hkey, hval⟩ := m.old i hi li
      exact ⟨i, hi, li, hkey.symm, hval.symm⟩
  · rintro ⟨i, hi, li, rfl, rfl⟩
    obtain ⟨_, live, hkey, hval⟩ := m.old i hi li
    exact ⟨place i, m.nodes_eq ▸ m.place_lt i hi li, live, hkey, hval⟩

theorem Moved.keys {key : LVObject} {t' : LVTable} {mp : Nat} {place : Nat → Nat}
    (m : Moved t key t' mp place) (h : Core HashObj t)
    (absent : ∀ i, i < t.numofnodes → (t.nodes i).key ≠ key) :
    ∀ i j, i < t'.numofnodes → j < t'.numofnodes → t'.Live i → t'.Live j →
      (t'.nodes i).key = (t'.nodes j).key → i = j := by
  intro x y hx hy lx ly same
  rw [m.nodes_eq] at hx hy
  rcases m.only x hx lx with rfl | ⟨i, hi, li, rfl⟩ <;>
    rcases m.only y hy ly with rfl | ⟨j, hj, lj, rfl⟩
  · rfl
  · rw [m.mp_key, (m.old j hj lj).2.2.1] at same
    exact absurd same.symm (absent j hj)
  · rw [m.mp_key, (m.old i hi li).2.2.1] at same
    exact absurd same (absent i hi)
  · rw [(m.old i hi li).2.2.1, (m.old j hj lj).2.2.1] at same
    rw [h.keys i j hi hj li lj same]

@[simp] theorem modify_numofnodes (i : Nat) (f : HashNode → HashNode) :
    (t.modify i f).numofnodes = t.numofnodes := rfl
@[simp] theorem modify_firstfree (i : Nat) (f : HashNode → HashNode) :
    (t.modify i f).firstfree = t.firstfree := rfl
@[simp] theorem modify_usednodes (i : Nat) (f : HashNode → HashNode) :
    (t.modify i f).usednodes = t.usednodes := rfl

theorem modify_self (i : Nat) (f : HashNode → HashNode) :
    (t.modify i f).nodes i = f (t.nodes i) := by simp [modify]

theorem modify_other {i j : Nat} (f : HashNode → HashNode) (h : j ≠ i) :
    (t.modify i f).nodes j = t.nodes j := by simp [modify, h]

/-- The new key has brought one node to life, and every other entry is where `place` says. -/
structure Enters (t : LVTable) (key : LVObject) (t' : LVTable) (mp : Nat) (place : Nat → Nat)
    (x : Nat) : Prop extends Moved t key t' mp place where
  free_eq : t'.firstfree = t.firstfree
  used_eq : t'.usednodes = t.usednodes
  new_lt : x < t.numofnodes
  new_dead : ¬ t.Live x
  live_iff : ∀ i, t'.Live i ↔ i = x ∨ t.Live i

namespace Enters

variable {key : LVObject} {t' : LVTable} {mp x : Nat} {place : Nat → Nat}

theorem old_live (e : Enters t key t' mp place x) {i : Nat} (live : t'.Live i) (ne : i ≠ x) :
    t.Live i := ((e.live_iff i).mp live).resolve_left ne

theorem liveSet_eq (e : Enters t key t' mp place x) : t'.liveSet = insert x t.liveSet := by
  ext i
  simp only [mem_liveSet, Finset.mem_insert, e.live_iff, e.nodes_eq]
  constructor
  · rintro ⟨lt, rfl | live⟩
    · exact .inl rfl
    · exact .inr ⟨lt, live⟩
  · rintro (rfl | ⟨lt, live⟩)
    · exact ⟨e.new_lt, .inl rfl⟩
    · exact ⟨lt, .inr live⟩

/-- A link that was there before is still in order. -/
theorem linked_old (e : Enters t key t' mp place x) (h : Core HashObj t) {i j : Nat}
    (link : t.next i = some j) :
    j < t'.numofnodes ∧ (t'.firstfree < j ∨ j = t'.firstfree ∧ t'.Live j) := by
  obtain ⟨lt, free⟩ := h.linked i j link
  rw [e.nodes_eq, e.free_eq]
  exact ⟨lt, free.imp id fun ⟨eq, live⟩ => ⟨eq, (e.live_iff j).mpr (.inr live)⟩⟩

/-- What is left to show is about the chains. -/
theorem room (e : Enters t key t' mp place x) (h : Core HashObj t)
    (absent : ∀ i, i < t.numofnodes → (t.nodes i).key ≠ key)
    (ends : ∀ i, i < t'.numofnodes → ∃ l, Walk t'.next i l)
    (linked : ∀ i j, t'.next i = some j →
      j < t'.numofnodes ∧ (t'.firstfree < j ∨ j = t'.firstfree ∧ t'.Live j))
    (injective : Injective t'.next)
    (reach : ∀ i, i < t'.numofnodes → t'.Live i → ∃ l, Walk t'.next (t'.home HashObj i) l ∧ i ∈ l)
    (guests : ∀ i, i < t'.numofnodes → t'.Live i → t'.home HashObj i ≠ i →
      ∀ j, j < t'.numofnodes → t'.Live j → t'.home HashObj j ≠ i)
    (packed : (∀ i, t.next i ≠ none → t.Live i) → ∀ i, t'.next i ≠ none → t'.Live i) :
    Room HashObj t key t' mp where
  core := ⟨e.nodes_eq ▸ h.size, ends, linked, injective, reach, guests,
    e.toMoved.keys HashObj h absent⟩
  nodes_eq := e.nodes_eq
  free_eq := e.free_eq
  used_eq := e.used_eq
  mp_lt := e.mp_lt
  mp_key := e.mp_key
  grows := ⟨x, by simp [e.new_dead], e.liveSet_eq⟩
  binds _ _ ne := e.toMoved.binds ne
  packed := packed

end Enters

/-- The key goes into its own main position. -/
theorem room_dead (h : Inv HashObj t) {key : LVObject} (hk : key.type ≠ .OT_NULL)
    (absent : ∀ i, i < t.numofnodes → (t.nodes i).key ≠ key)
    (dead : ¬ t.Live (t.mainPosition HashObj key)) :
    Room HashObj t key (t.modify (t.mainPosition HashObj key) ({ · with key := key }))
      (t.mainPosition HashObj key) := by
  set mp := t.mainPosition HashObj key with hmp
  set t' := t.modify mp ({ · with key := key }) with ht'
  have lt : mp < t.numofnodes := mainPosition_lt HashObj (h.pos HashObj) key
  have key_mp : (t'.nodes mp).key = key := by rw [ht', modify_self]
  have other : ∀ i, i ≠ mp → t'.nodes i = t.nodes i := fun i hi => modify_other _ hi
  have next_eq : t'.next = t.next := by
    funext i
    by_cases hi : i = mp
    · subst hi; simp only [next]; rw [ht', modify_self]
    · simp only [next, other i hi]
  have live_mp : t'.Live mp := by rw [Live, key_mp]; exact hk
  have live_iff : ∀ i, t'.Live i ↔ i = mp ∨ t.Live i := by
    intro i
    by_cases hi : i = mp
    · subst hi; simp [live_mp]
    · simp [Live, other i hi, hi]
  have home_other : ∀ i, i ≠ mp → t'.home HashObj i = t.home HashObj i := by
    intro i hi
    simp only [home, other i hi]
    rfl
  have home_mp : t'.home HashObj mp = mp := by rw [home, key_mp]; rfl
  have enters : Enters t key t' mp id mp := by
    refine ⟨⟨rfl, lt, key_mp, fun i hi _ => hi, ?_, ?_, live_mp⟩, rfl, rfl, lt, dead, live_iff⟩
    · intro i _ li
      have hm : i ≠ mp := by rintro rfl; exact dead li
      exact ⟨hm, (live_iff i).mpr (Or.inr li), by rw [id, other i hm], by rw [id, other i hm]⟩
    · intro x hx lx
      exact ((live_iff x).mp lx).imp id fun l => ⟨x, hx, l, rfl⟩
  refine enters.room HashObj h.toCore absent ?_ ?_ ?_ ?_ ?_ ?_
  · rw [next_eq]; exact h.ends
  · intro i j hij
    rw [next_eq] at hij
    exact enters.linked_old HashObj h.toCore hij
  · rw [next_eq]; exact h.injective
  · intro i hi live
    rw [next_eq]
    by_cases hm : i = mp
    · subst hm
      obtain ⟨l, w⟩ := h.ends mp lt
      exact ⟨l, by rwa [home_mp], w.head_mem⟩
    · rw [home_other i hm]
      exact h.reach i hi (enters.old_live live hm)
  · intro i hi live guest j hj livej
    have hm : i ≠ mp := by rintro rfl; exact guest home_mp
    rw [home_other i hm] at guest
    by_cases hjm : j = mp
    · subst hjm
      rw [home_mp]
      exact Ne.symm hm
    · rw [home_other j hjm]
      exact h.guests i hi (enters.old_live live hm) guest j hj (enters.old_live livej hjm)
  · intro packed i hi
    rw [next_eq] at hi
    exact (live_iff i).mpr (Or.inr (packed i hi))

/-- A node that sits in another key's main position was taken from above the
free pointer. -/
theorem Inv.guest_gt (h : Inv HashObj t) {i : Nat} (hi : i < t.numofnodes) (live : t.Live i)
    (guest : t.home HashObj i ≠ i) :
    t.firstfree < i ∧ ∃ p, t.next p = some i ∧
      ∃ l, Walk t.next (t.home HashObj i) l ∧ i ∈ l ∧ p ∈ l := by
  obtain ⟨l, w, hm⟩ := h.reach i hi live
  rcases w.mem_cases hm with e | ⟨p, hp, link⟩
  · exact absurd e.symm guest
  · refine ⟨?_, p, link, l, w, hm, hp⟩
    rcases (h.linked p i link).2 with lt | ⟨e, _⟩
    · exact lt
    · rw [e] at live; exact absurd live h.free_dead

/-- The main position of a live node is never the free node. -/
theorem Inv.home_ne_free (h : Inv HashObj t) {i : Nat} (hi : i < t.numofnodes)
    (live : t.Live i) : t.home HashObj i ≠ t.firstfree := by
  intro e
  obtain ⟨l, w, hm⟩ := h.reach i hi live
  rw [e] at w
  have alone : Walk t.next t.firstfree [t.firstfree] := .last h.free_end
  rw [w.unique alone, List.mem_singleton] at hm
  exact h.free_dead (hm ▸ live)

/-- In `t'` the free node holds the key, right behind the node `mp`. -/
structure Behind (t : LVTable) (key : LVObject) (t' : LVTable) (mp : Nat) : Prop where
  nodes_eq : t'.numofnodes = t.numofnodes
  free_eq : t'.firstfree = t.firstfree
  used_eq : t'.usednodes = t.usednodes
  next_eq : t'.next = insertAfter t.next mp t.firstfree
  key_new : (t'.nodes t.firstfree).key = key
  entry : ∀ i, i ≠ t.firstfree →
    (t'.nodes i).key = (t.nodes i).key ∧ (t'.nodes i).val = (t.nodes i).val

theorem modify_behind {key : LVObject} {mp : Nat} (ne : mp ≠ t.firstfree) :
    Behind t key (((t.modify t.firstfree ({ · with next := (t.nodes mp).next })).modify mp
      ({ · with next := some t.firstfree })).modify t.firstfree ({ · with key := key })) mp := by
  refine ⟨rfl, rfl, rfl, ?_, ?_, ?_⟩
  · funext i
    by_cases hm : i = mp
    · rw [hm, insertAfter_self, LVTable.next, modify_other _ ne, modify_self]
    · by_cases hi : i = t.firstfree
      · rw [hi, insertAfter_new ne, LVTable.next, modify_self, modify_other _ ne.symm, modify_self]
        rfl
      · rw [insertAfter_other hm hi, LVTable.next, modify_other _ hi, modify_other _ hm,
          modify_other _ hi]
        rfl
  · rw [modify_self]
  · intro i hi
    rw [modify_other _ hi]
    by_cases hm : i = mp
    · rw [hm, modify_self, modify_other _ ne]
      exact ⟨rfl, rfl⟩
    · rw [modify_other _ hm, modify_other _ hi]
      exact ⟨rfl, rfl⟩

namespace Behind

variable {key : LVObject} {t' : LVTable} {mp : Nat}

theorem live_iff (b : Behind t key t' mp) (hk : key.type ≠ .OT_NULL) (i : Nat) :
    t'.Live i ↔ i = t.firstfree ∨ t.Live i := by
  by_cases hi : i = t.firstfree
  · simp [Live, hi, b.key_new, hk]
  · simp [Live, (b.entry i hi).1, hi]

theorem enters (b : Behind t key t' mp) (h : Inv HashObj t) (hk : key.type ≠ .OT_NULL) :
    Enters t key t' t.firstfree id t.firstfree := by
  have live := b.live_iff hk
  refine ⟨⟨b.nodes_eq, h.free_lt, b.key_new, fun i hi _ => hi, ?_, ?_, ?_⟩, b.free_eq, b.used_eq,
    h.free_lt, h.free_dead, live⟩
  · intro i _ li
    have hi : i ≠ t.firstfree := fun here => h.free_dead (here ▸ li)
    exact ⟨hi, (live i).mpr (.inr li), b.entry i hi⟩
  · intro x hx lx
    exact ((live x).mp lx).imp id fun l => ⟨x, hx, l, rfl⟩
  · exact (live t.firstfree).mpr (.inl rfl)

theorem home_other (b : Behind t key t' mp) {i : Nat} (hi : i ≠ t.firstfree) :
    t'.home HashObj i = t.home HashObj i := by
  rw [home, home, (b.entry i hi).1, mainPosition, mainPosition, b.nodes_eq]

theorem home_new (b : Behind t key t' (t.mainPosition HashObj key)) :
    t'.home HashObj t.firstfree = t.mainPosition HashObj key := by
  rw [home, b.key_new, mainPosition, mainPosition, b.nodes_eq]

theorem ends (b : Behind t key t' mp) (h : Inv HashObj t) (lt : mp < t.numofnodes)
    (ne : mp ≠ t.firstfree) {i : Nat} (hi : i < t.numofnodes) : ∃ l, Walk t'.next i l := by
  rw [b.next_eq]
  by_cases hin : i = t.firstfree
  · obtain ⟨l, w⟩ := h.ends mp lt
    rw [hin]
    exact Walk.insertAfter_new ne h.isolated w
  · obtain ⟨l, w⟩ := h.ends i hi
    obtain ⟨l', w', _⟩ := Walk.insertAfter ne h.isolated w hin
    exact ⟨l', w'⟩

theorem linked (b : Behind t key t' mp) (h : Inv HashObj t) (hk : key.type ≠ .OT_NULL)
    (ne : mp ≠ t.firstfree) {i j : Nat} (link : t'.next i = some j) :
    j < t'.numofnodes ∧ (t'.firstfree < j ∨ j = t'.firstfree ∧ t'.Live j) := by
  have e := b.enters HashObj h hk
  rw [b.next_eq] at link
  by_cases hm : i = mp
  · rw [hm, insertAfter_self] at link
    obtain rfl := Option.some.inj link
    rw [b.nodes_eq, b.free_eq]
    exact ⟨h.free_lt, .inr ⟨rfl, e.mp_live⟩⟩
  · by_cases hi : i = t.firstfree
    · rw [hi, insertAfter_new ne] at link
      exact e.linked_old HashObj h.toCore link
    · rw [insertAfter_other hm hi] at link
      exact e.linked_old HashObj h.toCore link

theorem reach (b : Behind t key t' (t.mainPosition HashObj key)) (h : Inv HashObj t)
    (hk : key.type ≠ .OT_NULL) (ne : t.mainPosition HashObj key ≠ t.firstfree) {i : Nat}
    (hi : i < t.numofnodes) (live : t'.Live i) :
    ∃ l, Walk t'.next (t'.home HashObj i) l ∧ i ∈ l := by
  rw [b.next_eq]
  by_cases hin : i = t.firstfree
  · obtain ⟨l, w⟩ := h.ends _ (mainPosition_lt HashObj (h.pos HashObj) key)
    obtain ⟨l', w', _, both⟩ := Walk.insertAfter ne h.isolated w ne
    rw [hin, b.home_new HashObj]
    exact ⟨l', w', both w.head_mem⟩
  · have old := (b.enters HashObj h hk).old_live live hin
    obtain ⟨l, w, hm⟩ := h.reach i hi old
    obtain ⟨l', w', sub, _⟩ := Walk.insertAfter ne h.isolated w (h.home_ne_free HashObj hi old)
    exact ⟨l', by rwa [b.home_other HashObj hin], sub i hm⟩

theorem guests (b : Behind t key t' (t.mainPosition HashObj key)) (h : Inv HashObj t)
    (hk : key.type ≠ .OT_NULL) (ne : t.mainPosition HashObj key ≠ t.firstfree)
    (native : t.home HashObj (t.mainPosition HashObj key) = t.mainPosition HashObj key) {i j : Nat}
    (hi : i < t.numofnodes) (li : t'.Live i) (guest : t'.home HashObj i ≠ i)
    (hj : j < t.numofnodes) (lj : t'.Live j) : t'.home HashObj j ≠ i := by
  have e := b.enters HashObj h hk
  by_cases hin : i = t.firstfree
  · rw [hin]
    by_cases hjn : j = t.firstfree
    · rw [hjn, b.home_new HashObj]
      exact ne
    · rw [b.home_other HashObj hjn]
      exact h.home_ne_free HashObj hj (e.old_live lj hjn)
  · rw [b.home_other HashObj hin] at guest
    by_cases hjn : j = t.firstfree
    · rw [hjn, b.home_new HashObj]
      rintro rfl
      exact guest native
    · rw [b.home_other HashObj hjn]
      exact h.guests i hi (e.old_live li hin) guest j hj (e.old_live lj hjn)

end Behind

/-- The key's main position holds another key at home: the new one goes into
the free node, right behind it. -/
theorem room_native (h : Inv HashObj t) {key : LVObject} (hk : key.type ≠ .OT_NULL)
    (absent : ∀ i, i < t.numofnodes → (t.nodes i).key ≠ key)
    (live : t.Live (t.mainPosition HashObj key))
    (native : t.home HashObj (t.mainPosition HashObj key) = t.mainPosition HashObj key) :
    let t₁ := t.modify t.firstfree
      ({ · with next := (t.nodes (t.mainPosition HashObj key)).next })
    let t₂ := t₁.modify (t.mainPosition HashObj key) ({ · with next := some t.firstfree })
    Room HashObj t key (t₂.modify t.firstfree ({ · with key := key })) t.firstfree := by
  intro t₁ t₂
  have lt : t.mainPosition HashObj key < t.numofnodes :=
    mainPosition_lt HashObj (h.pos HashObj) key
  have ne : t.mainPosition HashObj key ≠ t.firstfree := fun here => h.free_dead (here ▸ live)
  have b : Behind t key (t₂.modify t.firstfree ({ · with key := key })) (t.mainPosition HashObj key) :=
    modify_behind ne
  refine (b.enters HashObj h hk).room HashObj h.toCore absent (fun i hi => b.ends HashObj h lt ne hi)
    (fun i j link => b.linked HashObj h hk ne link) ?_
    (fun i hi live => b.reach HashObj h hk ne hi live)
    (fun i hi li guest j hj lj => b.guests HashObj h hk ne native hi li guest hj lj) ?_
  · rw [b.next_eq]
    exact h.injective.insertAfter ne h.isolated
  · intro packed i link
    by_cases hin : i = t.firstfree
    · exact (b.live_iff hk i).mpr (.inl hin)
    · refine (b.live_iff hk i).mpr (.inr ?_)
      by_cases hm : i = t.mainPosition HashObj key
      · exact hm ▸ live
      · rw [b.next_eq, insertAfter_other hm hin] at link
        exact packed i link

/-- In `t'` the entry of the node `mp`, which comes behind `p`, is in the free node, and `mp`
holds the key on a chain of its own. -/
structure Displaces (t : LVTable) (key : LVObject) (t' : LVTable) (mp p : Nat) : Prop where
  nodes_eq : t'.numofnodes = t.numofnodes
  free_eq : t'.firstfree = t.firstfree
  used_eq : t'.usednodes = t.usednodes
  next_eq : t'.next = Chain.replace t.next p mp t.firstfree
  key_mp : (t'.nodes mp).key = key
  entry_free : (t'.nodes t.firstfree).key = (t.nodes mp).key ∧
    (t'.nodes t.firstfree).val = (t.nodes mp).val
  entry : ∀ i, i ≠ mp → i ≠ t.firstfree →
    (t'.nodes i).key = (t.nodes i).key ∧ (t'.nodes i).val = (t.nodes i).val

theorem modify_displaces {key : LVObject} {mp p : Nat} (ne : mp ≠ t.firstfree) (hpm : p ≠ mp)
    (hpn : p ≠ t.firstfree) :
    let t₁ := t.modify p ({ · with next := some t.firstfree })
    let t₂ := t₁.modify t.firstfree fun _ => t₁.nodes mp
    let t₃ := t₂.modify mp fun _ => .empty
    Displaces t key (t₃.modify mp ({ · with key := key })) mp p := by
  intro t₁ t₂ t₃
  have node_free : (t₃.modify mp ({ · with key := key })).nodes t.firstfree = t.nodes mp := by
    rw [modify_other _ ne.symm, modify_other _ ne.symm, modify_self, modify_other _ hpm.symm]
  have node_p : (t₃.modify mp ({ · with key := key })).nodes p =
      { t.nodes p with next := some t.firstfree } := by
    rw [modify_other _ hpm, modify_other _ hpm, modify_other _ hpn, modify_self]
  have other {i : Nat} (hm : i ≠ mp) (hi : i ≠ t.firstfree) (hp : i ≠ p) :
      (t₃.modify mp ({ · with key := key })).nodes i = t.nodes i := by
    rw [modify_other _ hm, modify_other _ hm, modify_other _ hi, modify_other _ hp]
  refine ⟨rfl, rfl, rfl, ?_, ?_, ?_, ?_⟩
  · funext i
    by_cases hm : i = mp
    · rw [hm, replace_old, LVTable.next, modify_self, modify_self]
      rfl
    · by_cases hi : i = t.firstfree
      · rw [hi, replace_new ne, LVTable.next, node_free]
        rfl
      · by_cases hp : i = p
        · rw [hp, replace_prev hpm hpn, LVTable.next, node_p]
        · rw [replace_other hm hi hp, LVTable.next, other hm hi hp]
          rfl
  · rw [modify_self]
  · rw [node_free]
    exact ⟨rfl, rfl⟩
  · intro i hm hi
    by_cases hp : i = p
    · rw [hp, node_p]
      exact ⟨rfl, rfl⟩
    · rw [other hm hi hp]
      exact ⟨rfl, rfl⟩

namespace Displaces

variable {key : LVObject} {t' : LVTable} {mp p : Nat}

theorem live_iff (g : Displaces t key t' mp p) (hk : key.type ≠ .OT_NULL) (live : t.Live mp)
    (i : Nat) : t'.Live i ↔ i = t.firstfree ∨ t.Live i := by
  by_cases hi : i = t.firstfree
  · simpa [Live, hi, g.entry_free.1] using live
  · by_cases hm : i = mp
    · rw [hm]
      exact iff_of_true (by simp [Live, g.key_mp, hk]) (.inr live)
    · simp [Live, (g.entry i hm hi).1, hi]

theorem enters (g : Displaces t key t' mp p) (h : Inv HashObj t) (hk : key.type ≠ .OT_NULL)
    (lt : mp < t.numofnodes) (live : t.Live mp) :
    Enters t key t' mp (fun i => if i = mp then t.firstfree else i) t.firstfree := by
  have alive := g.live_iff hk live
  refine ⟨⟨g.nodes_eq, lt, g.key_mp, ?_, ?_, ?_, ?_⟩, g.free_eq, g.used_eq, h.free_lt, h.free_dead,
    alive⟩
  · intro i hi _
    split
    · exact h.free_lt
    · exact hi
  · intro i _ li
    have hi : i ≠ t.firstfree := fun here => h.free_dead (here ▸ li)
    split
    · next hm =>
      exact ⟨fun here => h.free_dead (here ▸ live), (alive _).mpr (.inl rfl), hm ▸ g.entry_free⟩
    · next hm => exact ⟨hm, (alive i).mpr (.inr li), g.entry i hm hi⟩
  · intro x hx lx
    by_cases hm : x = mp
    · exact .inl hm
    · refine .inr ?_
      rcases (alive x).mp lx with hxn | lx
      · exact ⟨mp, lt, live, by simp [hxn]⟩
      · exact ⟨x, hx, lx, by simp [hm]⟩
  · exact (alive mp).mpr (.inr live)

theorem home_other (g : Displaces t key t' mp p) {i : Nat} (hm : i ≠ mp) (hi : i ≠ t.firstfree) :
    t'.home HashObj i = t.home HashObj i := by
  rw [home, home, (g.entry i hm hi).1, mainPosition, mainPosition, g.nodes_eq]

theorem home_free (g : Displaces t key t' mp p) :
    t'.home HashObj t.firstfree = t.home HashObj mp := by
  rw [home, home, g.entry_free.1, mainPosition, mainPosition, g.nodes_eq]

theorem home_mp (g : Displaces t key t' (t.mainPosition HashObj key) p) :
    t'.home HashObj (t.mainPosition HashObj key) = t.mainPosition HashObj key := by
  rw [home, g.key_mp, mainPosition, mainPosition, g.nodes_eq]

theorem ends (g : Displaces t key t' mp p) (h : Inv HashObj t) (lt : mp < t.numofnodes)
    (ne : mp ≠ t.firstfree) (hpm : p ≠ mp) (prev : t.next p = some mp) {i : Nat}
    (hi : i < t.numofnodes) : ∃ l, Walk t'.next i l := by
  rw [g.next_eq]
  by_cases hm : i = mp
  · exact ⟨_, .last (hm ▸ replace_old t.next p mp t.firstfree)⟩
  · by_cases hin : i = t.firstfree
    · obtain ⟨_, selfwalk⟩ := h.ends mp lt
      rw [hin]
      exact Walk.replace_new ne h.isolated h.injective prev hpm selfwalk
    · obtain ⟨l, w⟩ := h.ends i hi
      obtain ⟨l', w', _⟩ := Walk.replace ne h.isolated h.injective prev hpm w hin hm
      exact ⟨l', w'⟩

theorem linked (g : Displaces t key t' mp p) (h : Inv HashObj t) (hk : key.type ≠ .OT_NULL)
    (lt : mp < t.numofnodes) (live : t.Live mp) (ne : mp ≠ t.firstfree) (hpm : p ≠ mp)
    (hpn : p ≠ t.firstfree) {i j : Nat} (link : t'.next i = some j) :
    j < t'.numofnodes ∧ (t'.firstfree < j ∨ j = t'.firstfree ∧ t'.Live j) := by
  have e := g.enters HashObj h hk lt live
  rw [g.next_eq] at link
  by_cases hm : i = mp
  · rw [hm, replace_old] at link
    cases link
  · by_cases hi : i = t.firstfree
    · rw [hi, replace_new ne] at link
      exact e.linked_old HashObj h.toCore link
    · by_cases hp : i = p
      · rw [hp, replace_prev hpm hpn] at link
        obtain rfl := Option.some.inj link
        rw [g.nodes_eq, g.free_eq]
        exact ⟨h.free_lt, .inr ⟨rfl, (g.live_iff hk live _).mpr (.inl rfl)⟩⟩
      · rw [replace_other hm hi hp] at link
        exact e.linked_old HashObj h.toCore link

theorem reach (g : Displaces t key t' (t.mainPosition HashObj key) p) (h : Inv HashObj t)
    (hk : key.type ≠ .OT_NULL) (lt : t.mainPosition HashObj key < t.numofnodes)
    (live : t.Live (t.mainPosition HashObj key)) (ne : t.mainPosition HashObj key ≠ t.firstfree)
    (guest : t.home HashObj (t.mainPosition HashObj key) ≠ t.mainPosition HashObj key)
    (hpm : p ≠ t.mainPosition HashObj key) (prev : t.next p = some (t.mainPosition HashObj key))
    {i : Nat} (hi : i < t.numofnodes) (li : t'.Live i) :
    ∃ l, Walk t'.next (t'.home HashObj i) l ∧ i ∈ l := by
  rw [g.next_eq]
  by_cases hm : i = t.mainPosition HashObj key
  · rw [hm, g.home_mp HashObj]
    exact ⟨_, .last (replace_old t.next p _ t.firstfree), by simp⟩
  · by_cases hin : i = t.firstfree
    · obtain ⟨l, w, mem⟩ := h.reach _ lt live
      obtain ⟨l', w', _, both⟩ := Walk.replace ne h.isolated h.injective prev hpm w
        (h.home_ne_free HashObj lt live) guest
      rw [hin, g.home_free HashObj]
      exact ⟨l', w', both mem⟩
    · have old := (g.enters HashObj h hk lt live).old_live li hin
      obtain ⟨l, w, hil⟩ := h.reach i hi old
      obtain ⟨l', w', sub, _⟩ := Walk.replace ne h.isolated h.injective prev hpm w
        (h.home_ne_free HashObj hi old) (h.guests _ lt live guest i hi old)
      exact ⟨l', by rwa [g.home_other HashObj hm hin], sub i hil hm⟩

theorem guests (g : Displaces t key t' (t.mainPosition HashObj key) p) (h : Inv HashObj t)
    (hk : key.type ≠ .OT_NULL) (lt : t.mainPosition HashObj key < t.numofnodes)
    (live : t.Live (t.mainPosition HashObj key))
    {i j : Nat} (hi : i < t.numofnodes) (li : t'.Live i) (foreign : t'.home HashObj i ≠ i)
    (hj : j < t.numofnodes) (lj : t'.Live j) : t'.home HashObj j ≠ i := by
  have e := g.enters HashObj h hk lt live
  have hm : i ≠ t.mainPosition HashObj key := by
    rintro rfl
    exact foreign (g.home_mp HashObj)
  by_cases hjm : j = t.mainPosition HashObj key
  · rw [hjm, g.home_mp HashObj]
    exact hm.symm
  · by_cases hin : i = t.firstfree
    · rw [hin]
      by_cases hjn : j = t.firstfree
      · rw [hjn, g.home_free HashObj]
        exact h.home_ne_free HashObj lt live
      · rw [g.home_other HashObj hjm hjn]
        exact h.home_ne_free HashObj hj (e.old_live lj hjn)
    · have old := e.old_live li hin
      rw [g.home_other HashObj hm hin] at foreign
      by_cases hjn : j = t.firstfree
      · rw [hjn, g.home_free HashObj]
        exact h.guests i hi old foreign _ lt live
      · rw [g.home_other HashObj hjm hjn]
        exact h.guests i hi old foreign j hj (e.old_live lj hjn)

end Displaces

/-- The key's main position holds a key that belongs elsewhere: that one moves
to the free node and its place on its chain moves with it. -/
theorem room_guest (h : Inv HashObj t) {key : LVObject} (hk : key.type ≠ .OT_NULL)
    (absent : ∀ i, i < t.numofnodes → (t.nodes i).key ≠ key)
    (live : t.Live (t.mainPosition HashObj key))
    (guest : t.home HashObj (t.mainPosition HashObj key) ≠ t.mainPosition HashObj key)
    {p : Nat} (prev : t.next p = some (t.mainPosition HashObj key)) :
    let mp := t.mainPosition HashObj key
    let t₁ := t.modify p ({ · with next := some t.firstfree })
    let t₂ := t₁.modify t.firstfree fun _ => t₁.nodes mp
    let t₃ := t₂.modify mp fun _ => .empty
    Room HashObj t key (t₃.modify mp ({ · with key := key })) mp := by
  intro mp t₁ t₂ t₃
  have lt : mp < t.numofnodes := mainPosition_lt HashObj (h.pos HashObj) key
  have ne : mp ≠ t.firstfree := fun here => h.free_dead (here ▸ live)
  obtain ⟨_, selfwalk⟩ := h.ends mp lt
  have hpm : p ≠ mp := by
    rintro rfl
    exact selfwalk.not_self_link prev
  have hpn : p ≠ t.firstfree := by
    intro here
    rw [here, h.free_end] at prev
    cases prev
  have g : Displaces t key (t₃.modify mp ({ · with key := key })) mp p :=
    modify_displaces ne hpm hpn
  refine (g.enters HashObj h hk lt live).room HashObj h.toCore absent
    (fun i hi => g.ends HashObj h lt ne hpm prev hi)
    (fun i j link => g.linked HashObj h hk lt live ne hpm hpn link) ?_
    (fun i hi li => g.reach HashObj h hk lt live ne guest hpm prev hi li)
    (fun i hi li foreign j hj lj => g.guests HashObj h hk lt live hi li foreign hj lj) ?_
  · rw [g.next_eq]
    exact Injective.replace ne h.isolated h.injective prev hpm
  · intro packed i link
    refine (g.live_iff hk live i).mpr ?_
    by_cases hin : i = t.firstfree
    · exact .inl hin
    · refine .inr ?_
      by_cases hm : i = mp
      · exact hm ▸ live
      · by_cases hp : i = p
        · exact hp ▸ packed p (by rw [prev]; simp)
        · rw [g.next_eq, replace_other hm hin hp] at link
          exact packed i link

/-- The search for the predecessor of a node that is not at home finds it. -/
theorem Inv.predecessor (h : Inv HashObj t) {i : Nat} (hi : i < t.numofnodes) (live : t.Live i)
    (guest : t.home HashObj i ≠ i) :
    t.firstfree < i ∧ ∃ p, t.next p = some i ∧
      Chain.search t.next (fun o => decide (t.next o = some i)) t.numofnodes (t.home HashObj i) =
        some (some p) := by
  obtain ⟨gt, p, prev, l, w, -, hp⟩ := h.guest_gt HashObj hi live guest
  refine ⟨gt, p, prev, ?_⟩
  obtain ⟨l', w', hs⟩ := search_find HashObj h.toCore (fun o => decide (t.next o = some i))
    (i := t.home HashObj i) (mainPosition_lt HashObj (h.pos HashObj) _)
  obtain rfl := w'.unique w
  rw [hs]
  cases hf : l'.find? _ with
  | none => exact absurd (List.find?_eq_none.mp hf p hp) (by simp [prev])
  | some q =>
    have hq := List.find?_some hf
    simp only [decide_eq_true_eq] at hq
    rw [h.injective q p _ hq prev]

/-- `insertionNode` always finds a node, and storing the key there keeps the
chains in order. -/
theorem insertionNode_room (h : Inv HashObj t) {key : LVObject} (hk : key.type ≠ .OT_NULL)
    (absent : ∀ i, i < t.numofnodes → (t.nodes i).key ≠ key) :
    ∃ t₁ mp, t.insertionNode HashObj key = some (t₁, mp) ∧
      Room HashObj t key (t₁.modify mp ({ · with key := key })) mp := by
  have lt : t.mainPosition HashObj key < t.numofnodes :=
    mainPosition_lt HashObj (h.pos HashObj) key
  by_cases live : t.Live (t.mainPosition HashObj key)
  · by_cases native : t.home HashObj (t.mainPosition HashObj key) = t.mainPosition HashObj key
    · refine ⟨_, _, ?_, room_native HashObj h hk absent live native⟩
      have stay : ¬ (t.mainPosition HashObj key > t.firstfree ∧
          t.home HashObj (t.mainPosition HashObj key) ≠ t.mainPosition HashObj key) :=
        fun move => move.2 native
      rw [insertionNode]
      exact (if_pos live).trans (if_neg stay)
    · obtain ⟨gt, p, prev, found⟩ := h.predecessor HashObj lt live native
      refine ⟨_, _, ?_, room_guest HashObj h hk absent live native prev⟩
      rw [insertionNode]
      refine (if_pos live).trans ((if_pos ⟨gt, native⟩).trans ?_)
      rw [home] at found
      rw [found]
  · refine ⟨_, _, ?_, room_dead HashObj h hk absent live⟩
    rw [insertionNode]
    exact if_neg live

end room

end Lavril.LVTable
