import Lavril.Linked
import Lavril.Object
import Mathlib.Data.Multiset.Count
import Mathlib.Data.Nat.Bitwise

/-!
# References from the host

`RefTable` counts the references that the embedding program holds to objects.
The nodes are one array; those in use are linked into buckets, the others into
the list of free nodes. The hash function is a parameter.

`none` as the result of an operation means a failed assertion, an access through
a null pointer, or a walk that does not end.
-/

namespace Lavril

structure RefNode where
  obj : LVObject
  refs : Nat
  next : Option Nat

structure RefTable where
  numofslots : Nat
  slotused : Nat
  nodes : Nat → RefNode
  freelist : Option Nat
  buckets : Nat → Option Nat

namespace RefTable

variable (HashObj : LVObject → Nat) (t : RefTable)

def modify (i : Nat) (f : RefNode → RefNode) : RefTable :=
  { t with nodes := Function.update t.nodes i (f (t.nodes i)) }

def next (i : Nat) : Option Nat := (t.nodes i).next

/-- `AllocNodes`. -/
def allocNodes (size : Nat) : RefTable where
  numofslots := size
  slotused := 0
  nodes := fun n => ⟨.null, 0, if n + 1 < size then some (n + 1) else none⟩
  freelist := some 0
  buckets := fun _ => none

def create : RefTable := allocNodes 4

def mainPosition (obj : LVObject) : Nat := HashObj obj &&& (t.numofslots - 1)

/-- `Add`: a free node for `obj` in front of a bucket. -/
def add (mainpos : Nat) (obj : LVObject) : Option (Nat × RefTable) :=
  match t.freelist with
  | none => none
  | some newnode =>
    if (t.nodes newnode).refs ≠ 0 then none
    else
      some (newnode, { t with
        nodes := Function.update t.nodes newnode ⟨obj, 0, t.buckets mainpos⟩
        buckets := Function.update t.buckets mainpos (some newnode)
        freelist := t.next newnode
        slotused := t.slotused + 1 })

/-- One step of the loop of `Resize`; `new` is what has been made so far, with
`nfound`. -/
def rehash (new : RefTable × Nat) (n : Nat) : Option (RefTable × Nat) :=
  let old := t.nodes n
  if old.obj.type ≠ .OT_NULL then
    if old.refs = 0 then none
    else
      (new.1.add (new.1.mainPosition HashObj old.obj) old.obj).map fun (nn, new') =>
        (new'.modify nn ({ · with refs := old.refs }), new.2 + 1)
  else some new

/-- `Resize`. -/
def resize (size : Nat) : Option RefTable :=
  match (List.range t.numofslots).foldlM (t.rehash HashObj) (allocNodes size, 0) with
  | some (new, nfound) => if nfound = t.numofslots then some new else none
  | none => none

/-- The search of `Get`: the node of `obj` and the one before it on its chain. -/
def find (obj : LVObject) : Option (Option Nat × Option Nat) :=
  Linked.search t.next
    (fun n => decide ((t.nodes n).obj.unVal = obj.unVal ∧ (t.nodes n).obj.type = obj.type))
    (t.numofslots + 1) none (t.buckets (t.mainPosition HashObj obj))

/-- `Get` with `add`. -/
def getOrAdd (obj : LVObject) : Option (Nat × RefTable) :=
  match t.find HashObj obj with
  | none => none
  | some (_, some ref) => some (ref, t)
  | some (_, none) =>
    if t.numofslots = t.slotused then
      if t.freelist ≠ none then none
      else (t.resize HashObj (t.numofslots * 2)).bind fun t => t.add (t.mainPosition HashObj obj) obj
    else t.add (t.mainPosition HashObj obj) obj

/-- `AddRef`. -/
def addRef (obj : LVObject) : Option RefTable :=
  (t.getOrAdd HashObj obj).map fun (ref, t) => t.modify ref fun r => { r with refs := r.refs + 1 }

/-- Takes `ref` out of a bucket; `prev` is the node before it. -/
def unlink (mainpos : Nat) (prev : Option Nat) (ref : Nat) : RefTable :=
  match prev with
  | some prev => t.modify prev ({ · with next := t.next ref })
  | none => { t with buckets := Function.update t.buckets mainpos (t.next ref) }

/-- `Release`, with its answer. -/
def release (obj : LVObject) : Option (Bool × RefTable) :=
  match t.find HashObj obj with
  | some (prev, some ref) =>
    let refs := (t.nodes ref).refs - 1
    if refs = 0 then
      let t₁ := t.unlink (t.mainPosition HashObj obj) prev ref
      some (true, { t₁ with
        nodes := Function.update t₁.nodes ref ⟨.null, 0, t.freelist⟩
        freelist := some ref
        slotused := t.slotused - 1 })
    else some (false, t.modify ref ({ · with refs := refs }))
  | _ => none

/-- The count that is stored for an object, if it has an entry. -/
def entry (obj : LVObject) : Option (Option Nat) :=
  (t.find HashObj obj).map fun (_, ref) => ref.map fun n => (t.nodes n).refs

/-- Sequences of `AddRef` and `Release` on objects other than null; the multiset is
that of the references that were added and not released. -/
inductive Reaches : RefTable → Multiset LVObject → Prop
  | create : Reaches create 0
  | addRef {t t' : RefTable} {m : Multiset LVObject} {obj : LVObject} (before : Reaches t m)
      (notNull : obj.type ≠ .OT_NULL) (run : t.addRef HashObj obj = some t') : Reaches t' (obj ::ₘ m)
  | release {t t' : RefTable} {m : Multiset LVObject} {obj : LVObject} {answer : Bool}
      (before : Reaches t m) (held : obj ∈ m) (run : t.release HashObj obj = some (answer, t')) :
      Reaches t' (m.erase obj)

/-! ## The shape of the table -/

/-- The chains and the free list of a table whose entries are `content`. -/
structure Rep (content : LVObject → Option Nat) (chains : Nat → List Nat) (free : List Nat) :
    Prop where
  pos : 0 < t.numofslots
  chain : ∀ h < t.numofslots, Linked t.next (t.buckets h) (chains h)
  freelist : Linked t.next t.freelist free
  used : ∀ h < t.numofslots, ∀ i ∈ chains h, i < t.numofslots ∧ (t.nodes i).obj.type ≠ .OT_NULL ∧
    t.mainPosition HashObj (t.nodes i).obj = h ∧ content (t.nodes i).obj = some (t.nodes i).refs
  unused : ∀ i ∈ free, i < t.numofslots ∧ (t.nodes i).obj = .null ∧ (t.nodes i).refs = 0
  cover : ∀ i < t.numofslots, i ∈ free ∨ ∃ h < t.numofslots, i ∈ chains h
  found : ∀ o r, content o = some r → ∃ i ∈ chains (t.mainPosition HashObj o), (t.nodes i).obj = o
  unique : ∀ h < t.numofslots, ∀ i ∈ chains h, ∀ j ∈ chains h, (t.nodes i).obj = (t.nodes j).obj → i = j
  size : t.slotused + free.length = t.numofslots

variable {HashObj t} {t' : RefTable} {content : LVObject → Option Nat} {chains : Nat → List Nat}
  {free : List Nat}

theorem mainPosition_lt (pos : 0 < t.numofslots) (o : LVObject) :
    t.mainPosition HashObj o < t.numofslots := by
  have := @Nat.and_le_right (HashObj o) (t.numofslots - 1)
  unfold mainPosition
  omega

theorem linked_range' (size k : Nat) (le : k < size) :
    Linked (allocNodes size).next (some k) (List.range' k (size - k)) := by
  induction h : size - k generalizing k with
  | zero => omega
  | succ n ih =>
    refine ⟨rfl, ?_⟩
    by_cases last : k + 1 < size
    · have next : (allocNodes size).next k = some (k + 1) := if_pos last
      rw [next]
      exact ih (k + 1) last (by omega)
    · have next : (allocNodes size).next k = none := if_neg last
      obtain rfl : n = 0 := by omega
      exact next

theorem allocNodes_rep {size : Nat} (pos : 0 < size) :
    (allocNodes size).Rep HashObj (fun _ => none) (fun _ => []) (List.range size) where
  pos := pos
  chain _ _ := rfl
  freelist := by
    have linked := linked_range' size 0 pos
    rwa [Nat.sub_zero, ← List.range_eq_range'] at linked
  used _ _ i mem := absurd mem List.not_mem_nil
  unused i mem := ⟨List.mem_range.mp mem, rfl, rfl⟩
  cover i lt := .inl (List.mem_range.mpr lt)
  found _ _ none := by cases none
  unique _ _ i mem := absurd mem List.not_mem_nil
  size := by simp [allocNodes]

/-- A chain has no free node and no node of another chain. -/
theorem Rep.not_free (rep : t.Rep HashObj content chains free) {h i : Nat} (lt : h < t.numofslots)
    (mem : i ∈ chains h) : i ∉ free := by
  intro isFree
  obtain ⟨-, null, -⟩ := rep.unused i isFree
  obtain ⟨-, notNull, -⟩ := rep.used h lt i mem
  rw [null] at notNull
  exact notNull rfl

theorem Rep.same_chain (rep : t.Rep HashObj content chains free) {h h' i : Nat}
    (lt : h < t.numofslots) (mem : i ∈ chains h) (lt' : h' < t.numofslots) (mem' : i ∈ chains h') :
    h = h' := by
  obtain ⟨-, -, position, -⟩ := rep.used h lt i mem
  obtain ⟨-, -, position', -⟩ := rep.used h' lt' i mem'
  exact position.symm.trans position'

/-- A chain is not longer than the array. -/
theorem Rep.chain_length (rep : t.Rep HashObj content chains free) {h : Nat}
    (lt : h < t.numofslots) : (chains h).length ≤ t.numofslots := by
  have inside : chains h ⊆ List.range t.numofslots := fun i mem =>
    List.mem_range.mpr (rep.used h lt i mem).1
  simpa using ((rep.chain h lt).nodup.subperm inside).length_le

theorem Rep.find_absent (rep : t.Rep HashObj content chains free) {o : LVObject}
    (absent : content o = none) : ∃ prev, t.find HashObj o = some (prev, none) := by
  have lt := @mainPosition_lt HashObj t rep.pos o
  refine (rep.chain _ lt).search_absent (fun i mem => ?_) ?_ none
  · obtain ⟨-, -, -, is⟩ := rep.used _ lt i mem
    rw [decide_eq_false_iff_not]
    rintro ⟨val, type⟩
    have same : (t.nodes i).obj = o := by
      cases h : (t.nodes i).obj
      cases o
      simp_all
    rw [same, absent] at is
    cases is
  · have := rep.chain_length lt
    omega

theorem Rep.find_present (rep : t.Rep HashObj content chains free) {o : LVObject} {r : Nat}
    (present : content o = some r) : ∃ before i after,
      chains (t.mainPosition HashObj o) = before ++ i :: after ∧ (t.nodes i).obj = o ∧
      (t.nodes i).refs = r ∧ t.find HashObj o = some (before.getLast?, some i) := by
  have lt := @mainPosition_lt HashObj t rep.pos o
  obtain ⟨i, mem, obj⟩ := rep.found o r present
  obtain ⟨-, -, -, refs⟩ := rep.used _ lt i mem
  rw [obj, present, Option.some.injEq] at refs
  obtain ⟨before, after, eq⟩ := List.append_of_mem mem
  refine ⟨before, i, after, eq, obj, refs.symm, ?_⟩
  have linked := rep.chain _ lt
  have nodup := linked.nodup
  have length := rep.chain_length lt
  rw [eq] at linked nodup length
  have found := @Linked.search_found _ _ _ before after i linked
    (fun n => decide ((t.nodes n).obj.unVal = o.unVal ∧ (t.nodes n).obj.type = o.type))
    (fun j memj => ?_) (by simp [obj]) (t.numofslots + 1) ?_ none
  · rw [find, found, Option.or_none]
  · rw [decide_eq_false_iff_not]
    rintro ⟨val, type⟩
    have same : (t.nodes j).obj = (t.nodes i).obj := by
      rw [obj]
      cases h : (t.nodes j).obj
      cases o
      simp_all
    have equal := rep.unique _ lt j (by rw [eq]; simp [memj]) i mem same
    subst equal
    exact (List.nodup_append.mp nodup).2.2 j memj j (by simp) rfl
  · simp only [List.length_append, List.length_cons] at length
    omega

/-! ## Changes to the table -/

theorem mem_update_cons (chains : Nat → List Nat) {mp h i j : Nat} :
    j ∈ Function.update chains mp (i :: chains mp) h ↔ (j = i ∧ h = mp) ∨ j ∈ chains h := by
  by_cases eq : h = mp
  · subst eq
    rw [Function.update_self, List.mem_cons]
    simp
  · rw [Function.update_of_ne eq]
    simp [eq]

/-- A free node becomes the entry of an object that had none. -/
theorem Rep.add (rep : t.Rep HashObj content chains free) (room : t.slotused < t.numofslots)
    {o : LVObject} (notNull : o.type ≠ .OT_NULL) (absent : content o = none) :
    ∃ i t', t.add (t.mainPosition HashObj o) o = some (i, t') ∧
      t'.numofslots = t.numofslots ∧ t'.slotused = t.slotused + 1 ∧ (t'.nodes i).obj = o ∧
      ∃ chains' free', i ∈ chains' (t.mainPosition HashObj o) ∧
        t'.Rep HashObj (Function.update content o (some 0)) chains' free' := by
  have lt := @mainPosition_lt HashObj t rep.pos o
  have size := rep.size
  cases free with
  | nil =>
    rw [List.length_nil] at size
    omega
  | cons i rest =>
  obtain ⟨head, tail⟩ := rep.freelist
  obtain ⟨bound, null, zero⟩ := rep.unused i List.mem_cons_self
  have nodup := rep.freelist.nodup
  rw [List.nodup_cons] at nodup
  have other : ∀ h < t.numofslots, i ∉ chains h := fun h lth mem =>
    rep.not_free lth mem List.mem_cons_self
  refine ⟨i, { t with
      nodes := Function.update t.nodes i ⟨o, 0, t.buckets (t.mainPosition HashObj o)⟩
      buckets := Function.update t.buckets (t.mainPosition HashObj o) (some i)
      freelist := t.next i
      slotused := t.slotused + 1 }, ?_, rfl, rfl, by simp,
    Function.update chains (t.mainPosition HashObj o) (i :: chains (t.mainPosition HashObj o)), rest,
    by simp, ?_⟩
  · simp [RefTable.add, head, zero]
  generalize position : t.mainPosition HashObj o = mp at lt ⊢
  -- only the node `i` has another next pointer than before
  have next_ : ∀ j ≠ i, (Function.update t.nodes i ⟨o, 0, t.buckets mp⟩ j).next = t.next j := by
    intro j ne
    rw [Function.update_of_ne ne, next]
  have nodes_ : ∀ j ≠ i, Function.update t.nodes i ⟨o, 0, t.buckets mp⟩ j = t.nodes j :=
    fun j ne => Function.update_of_ne ne _ _
  have memNe : ∀ h < t.numofslots, ∀ j ∈ chains h, j ≠ i := by
    rintro h lth j mem rfl
    exact other h lth mem
  have linked : ∀ h < t.numofslots, Linked
      (fun j => (Function.update t.nodes i ⟨o, 0, t.buckets mp⟩ j).next) (t.buckets h) (chains h) :=
    fun h lth => (rep.chain h lth).congr fun j mem => next_ j (memNe h lth j mem)
  have contents : ∀ h < t.numofslots, ∀ j ∈ chains h, (t.nodes j).obj ≠ o := by
    intro h lth j mem eq
    obtain ⟨-, -, -, is⟩ := rep.used h lth j mem
    rw [eq, absent] at is
    cases is
  constructor
  · exact rep.pos
  · intro h lth
    by_cases eq : h = mp
    · subst eq
      simp only [Function.update_self]
      refine ⟨rfl, ?_⟩
      simp only [next, Function.update_self]
      exact linked h lth
    · simp only [Function.update_of_ne eq]
      exact linked h lth
  · refine tail.congr fun j mem => next_ j ?_
    rintro rfl
    exact nodup.1 mem
  · intro h lth j mem
    rcases (mem_update_cons chains).mp mem with ⟨rfl, rfl⟩ | memj
    · simp only [Function.update_self]
      exact ⟨bound, notNull, position, trivial⟩
    · obtain ⟨boundj, notNullj, positionj, is⟩ := rep.used h lth j memj
      simp only [nodes_ j (memNe h lth j memj)]
      exact ⟨boundj, notNullj, positionj, by rw [Function.update_of_ne (contents h lth j memj), is]⟩
  · intro j mem
    have ne : j ≠ i := by
      rintro rfl
      exact nodup.1 mem
    simp only [nodes_ j ne]
    exact rep.unused j (List.mem_cons_of_mem i mem)
  · intro j ltj
    rcases rep.cover j ltj with mem | ⟨h, lth, mem⟩
    · rcases List.mem_cons.mp mem with rfl | mem
      · exact .inr ⟨mp, lt, (mem_update_cons chains).mpr (.inl ⟨rfl, rfl⟩)⟩
      · exact .inl mem
    · exact .inr ⟨h, lth, (mem_update_cons chains).mpr (.inr mem)⟩
  · intro o' r is
    by_cases eq : o' = o
    · subst eq
      exact ⟨i, (mem_update_cons chains).mpr (.inl ⟨rfl, position⟩), by simp⟩
    · rw [Function.update_of_ne eq] at is
      obtain ⟨j, mem, obj⟩ := rep.found o' r is
      have ne := memNe _ (mainPosition_lt rep.pos o') j mem
      refine ⟨j, (mem_update_cons chains).mpr (.inr mem), ?_⟩
      simp only [nodes_ j ne]
      exact obj
  · intro h lth j mem k mem' same
    rcases (mem_update_cons chains).mp mem with ⟨rfl, -⟩ | memj <;>
      rcases (mem_update_cons chains).mp mem' with ⟨rfl, -⟩ | memk
    · rfl
    · simp only [Function.update_self, nodes_ k (memNe h lth k memk)] at same
      exact absurd same.symm (contents h lth k memk)
    · simp only [Function.update_self, nodes_ j (memNe h lth j memj)] at same
      exact absurd same (contents h lth j memj)
    · simp only [nodes_ k (memNe h lth k memk), nodes_ j (memNe h lth j memj)] at same
      exact rep.unique h lth j memj k memk same
  · simp only [List.length_cons] at size ⊢
    omega

/-- The count of an entry changes. -/
theorem Rep.setRefs (rep : t.Rep HashObj content chains free) {h i : Nat} (lt : h < t.numofslots)
    (mem : i ∈ chains h) (r : Nat) :
    (t.modify i ({ · with refs := r })).Rep HashObj
      (Function.update content (t.nodes i).obj (some r)) chains free := by
  have obj : ∀ j, ((t.modify i ({ · with refs := r })).nodes j).obj = (t.nodes j).obj := by
    intro j
    by_cases eq : j = i
    · subst eq
      simp [modify]
    · simp [modify, eq]
  have next_ : (t.modify i ({ · with refs := r })).next = t.next := by
    funext j
    by_cases eq : j = i
    · subst eq
      simp [modify, next]
    · simp [modify, next, eq]
  have position : ∀ o, (t.modify i ({ · with refs := r })).mainPosition HashObj o =
      t.mainPosition HashObj o := fun _ => rfl
  constructor
  · exact rep.pos
  · rw [next_]
    exact rep.chain
  · rw [next_]
    exact rep.freelist
  · intro h' lt' j mem'
    obtain ⟨bound, notNull, at_, is⟩ := rep.used h' lt' j mem'
    rw [obj, position]
    refine ⟨bound, notNull, at_, ?_⟩
    by_cases eq : j = i
    · subst eq
      simp [modify]
    · have ne : (t.nodes j).obj ≠ (t.nodes i).obj := by
        intro same
        obtain ⟨-, -, at', -⟩ := rep.used h lt i mem
        have eqh : h' = h := by rw [← at_, ← at', same]
        subst eqh
        exact eq (rep.unique h' lt' j mem' i mem same)
      rw [Function.update_of_ne ne]
      simp [modify, eq, is]
  · intro j memj
    have ne : j ≠ i := by
      rintro rfl
      exact rep.not_free lt mem memj
    simp only [modify, Function.update_of_ne ne]
    exact rep.unused j memj
  · exact rep.cover
  · intro o r' is
    rw [position]
    by_cases eq : o = (t.nodes i).obj
    · obtain ⟨-, -, at_, old⟩ := rep.used h lt i mem
      rw [← eq] at at_
      exact ⟨i, by rw [at_]; exact mem, by rw [obj, eq]⟩
    · rw [Function.update_of_ne eq] at is
      obtain ⟨j, memj, same⟩ := rep.found o r' is
      exact ⟨j, memj, by rw [obj, same]⟩
  · intro h' lt' j memj k memk same
    rw [obj, obj] at same
    exact rep.unique h' lt' j memj k memk same
  · exact rep.size

/-- What `unlink` does: only the bucket that `i` was in is another one. -/
theorem Rep.unlink (rep : t.Rep HashObj content chains free) {mp i : Nat} {before after : List Nat}
    (lt : mp < t.numofslots) (eq : chains mp = before ++ i :: after) :
    (∀ j, ((t.unlink mp before.getLast? i).nodes j).obj = (t.nodes j).obj ∧
      ((t.unlink mp before.getLast? i).nodes j).refs = (t.nodes j).refs) ∧
    (t.unlink mp before.getLast? i).numofslots = t.numofslots ∧
    (∀ h < t.numofslots, Linked (t.unlink mp before.getLast? i).next
      ((t.unlink mp before.getLast? i).buckets h)
      (Function.update chains mp (before ++ after) h)) ∧
    Linked (t.unlink mp before.getLast? i).next t.freelist free := by
  have linked := rep.chain mp lt
  rw [eq] at linked
  rcases List.eq_nil_or_concat before with rfl | ⟨l, p, rfl⟩
  · refine ⟨fun _ => ⟨rfl, rfl⟩, rfl, fun h lth => ?_, rep.freelist⟩
    by_cases same : h = mp
    · subst same
      simp only [RefTable.unlink, List.getLast?_nil, Function.update_self, List.nil_append]
      exact linked.2
    · simp only [RefTable.unlink, List.getLast?_nil, Function.update_of_ne same]
      exact rep.chain h lth
  · have memp : p ∈ chains mp := by simp [eq]
    have next_ : (t.modify p ({ · with next := t.next i })).next =
        Function.update t.next p (t.next i) := by
      funext j
      by_cases same : j = p
      · subst same
        simp [modify, next]
      · simp [modify, next, same]
    simp only [RefTable.unlink, List.concat_eq_append, List.getLast?_concat, next_]
    refine ⟨fun j => ?_, rfl, fun h lth => ?_, ?_⟩
    · by_cases same : j = p
      · subst same
        simp [modify]
      · simp [modify, same]
    · by_cases same : h = mp
      · subst same
        rw [Function.update_self]
        rw [List.concat_eq_append, List.append_assoc, List.singleton_append] at linked
        rw [List.append_assoc, List.singleton_append]
        exact linked.unlink
      · rw [Function.update_of_ne same]
        refine (rep.chain h lth).update_of_notMem (fun mem => ?_) _
        exact same (rep.same_chain lth mem lt memp)
    · exact rep.freelist.update_of_notMem (rep.not_free lt memp) _

/-- The entry of an object goes. -/
theorem Rep.remove (rep : t.Rep HashObj content chains free) {o : LVObject} {i : Nat}
    {before after : List Nat} (eq : chains (t.mainPosition HashObj o) = before ++ i :: after)
    (obj : (t.nodes i).obj = o) :
    let t₁ := t.unlink (t.mainPosition HashObj o) before.getLast? i
    { t₁ with
      nodes := Function.update t₁.nodes i ⟨.null, 0, t.freelist⟩
      freelist := some i
      slotused := t.slotused - 1 : RefTable }.Rep HashObj (Function.update content o none)
        (Function.update chains (t.mainPosition HashObj o) (before ++ after)) (i :: free) := by
  have lt := @mainPosition_lt HashObj t rep.pos o
  have position : ∀ o', { t.unlink (t.mainPosition HashObj o) before.getLast? i with
      nodes := Function.update (t.unlink (t.mainPosition HashObj o) before.getLast? i).nodes i
        ⟨.null, 0, t.freelist⟩
      freelist := some i
      slotused := t.slotused - 1 : RefTable }.mainPosition HashObj o' = t.mainPosition HashObj o' := by
    intro o'
    obtain ⟨-, slots, -⟩ := rep.unlink lt eq
    change HashObj o' &&& ((t.unlink _ _ _).numofslots - 1) = _
    rw [slots]
    rfl
  generalize mainpos : t.mainPosition HashObj o = mp at *
  obtain ⟨same, slots, linked, freelist⟩ := rep.unlink lt eq
  have mem : i ∈ chains mp := by simp [eq]
  have nodup := (rep.chain mp lt).nodup
  rw [eq, List.nodup_middle, List.nodup_cons] at nodup
  have notFree := rep.not_free lt mem
  have sub : ∀ h < t.numofslots, ∀ j, j ∈ Function.update chains mp (before ++ after) h ↔
      j ∈ chains h ∧ j ≠ i := by
    intro h lth j
    by_cases is : h = mp
    · subst is
      rw [Function.update_self, eq]
      simp only [List.mem_append, List.mem_cons]
      constructor
      · intro memj
        refine ⟨by tauto, ?_⟩
        rintro rfl
        exact nodup.1 (List.mem_append.mpr memj)
      · tauto
    · rw [Function.update_of_ne is]
      refine ⟨fun memj => ⟨memj, ?_⟩, And.left⟩
      rintro rfl
      exact is (rep.same_chain lth memj lt mem)
  have next_ : ∀ l : List Nat, i ∉ l → ∀ head,
      Linked (t.unlink mp before.getLast? i).next head l → Linked (fun j =>
        (Function.update (t.unlink mp before.getLast? i).nodes i ⟨.null, 0, t.freelist⟩ j).next)
        head l := by
    intro l notMem head h
    refine h.congr fun j memj => ?_
    have ne : j ≠ i := by
      rintro rfl
      exact notMem memj
    rw [Function.update_of_ne ne, next]
  constructor
  · exact slots ▸ rep.pos
  · intro h lth
    rw [slots] at lth
    refine next_ _ (fun memi => ?_) _ (linked h lth)
    exact ((sub h lth i).mp memi).2 rfl
  · refine ⟨rfl, ?_⟩
    simp only [next, Function.update_self]
    exact next_ _ notFree _ freelist
  · intro h lth j memj
    simp only [slots] at lth ⊢
    obtain ⟨memj, ne⟩ := (sub h lth j).mp memj
    obtain ⟨bound, notNull, at_, is⟩ := rep.used h lth j memj
    simp only [Function.update_of_ne ne, (same j).1, (same j).2]
    refine ⟨bound, notNull, at_, ?_⟩
    have other : (t.nodes j).obj ≠ o := by
      intro eqo
      rw [eqo, mainpos] at at_
      subst at_
      exact ne (rep.unique mp lth j memj i mem (eqo.trans obj.symm))
    rw [Function.update_of_ne other, is]
  · intro j memj
    simp only [slots]
    rcases List.mem_cons.mp memj with rfl | isFree
    · exact ⟨(rep.used mp lt j mem).1, by simp⟩
    · have ne : j ≠ i := by
        rintro rfl
        exact notFree isFree
      simp only [Function.update_of_ne ne, (same j).1, (same j).2]
      exact rep.unused j isFree
  · intro j ltj
    simp only [slots] at ltj ⊢
    by_cases is : j = i
    · exact .inl (is ▸ List.mem_cons_self)
    · rcases rep.cover j ltj with memj | ⟨h, lth, memj⟩
      · exact .inl (List.mem_cons_of_mem i memj)
      · exact .inr ⟨h, lth, (sub h lth j).mpr ⟨memj, is⟩⟩
  · intro o' r is
    have ne : o' ≠ o := by
      rintro rfl
      rw [Function.update_self] at is
      cases is
    rw [Function.update_of_ne ne] at is
    obtain ⟨j, memj, eqo⟩ := rep.found o' r is
    have nei : j ≠ i := by
      rintro rfl
      exact ne (eqo.symm.trans obj)
    rw [position]
    refine ⟨j, (sub _ (mainPosition_lt rep.pos o') j).mpr ⟨memj, nei⟩, ?_⟩
    simp only [Function.update_of_ne nei, (same j).1]
    exact eqo
  · intro h lth j memj k memk eqo
    simp only [slots] at lth
    obtain ⟨memj, nej⟩ := (sub h lth j).mp memj
    obtain ⟨memk, nek⟩ := (sub h lth k).mp memk
    simp only [Function.update_of_ne nej, Function.update_of_ne nek, (same j).1, (same k).1] at eqo
    exact rep.unique h lth j memj k memk eqo
  · -- the node counted is one that was in use
    have room : 0 < t.slotused := by
      by_contra zero
      have size := rep.size
      have full : free.length = t.numofslots := by omega
      have all : List.range t.numofslots ⊆ free := by
        have perm : free.Perm (List.range t.numofslots) :=
          (rep.freelist.nodup.subperm fun j memj =>
            List.mem_range.mpr (rep.unused j memj).1).perm_of_length_le (by simp [full])
        exact perm.symm.subset
      exact notFree (all (List.mem_range.mpr (rep.used mp lt i mem).1))
    have size := rep.size
    simp only [slots, List.length_cons]
    omega

theorem Rep.node (rep : t.Rep HashObj content chains free) (full : free = []) {i : Nat}
    (lt : i < t.numofslots) :
    (t.nodes i).obj.type ≠ .OT_NULL ∧ content (t.nodes i).obj = some (t.nodes i).refs ∧
      ∀ j < t.numofslots, (t.nodes j).obj = (t.nodes i).obj → j = i := by
  have chained : ∀ j < t.numofslots, ∃ h < t.numofslots, j ∈ chains h := by
    intro j ltj
    rcases rep.cover j ltj with mem | chained
    · rw [full] at mem
      cases mem
    · exact chained
  obtain ⟨h, lth, mem⟩ := chained i lt
  obtain ⟨-, notNull, at_, is⟩ := rep.used h lth i mem
  refine ⟨notNull, is, fun j ltj same => ?_⟩
  obtain ⟨h', lth', mem'⟩ := chained j ltj
  obtain ⟨-, -, at', -⟩ := rep.used h' lth' j mem'
  have eq : h' = h := by rw [← at_, ← at', same]
  subst eq
  exact rep.unique h' lth' j mem' i mem same

/-- What the loop of `Resize` has put into the new table after `k` nodes. -/
def contentBelow (t : RefTable) (content : LVObject → Option Nat) (k : Nat) (o : LVObject) :
    Option Nat :=
  if ∃ j < k, (t.nodes j).obj = o then content o else none

theorem Rep.rehash (rep : t.Rep HashObj content chains free) (full : free = [])
    (positive : ∀ o r, content o = some r → 0 < r) {size k : Nat} (larger : t.numofslots ≤ size)
    (le : k ≤ t.numofslots) : ∃ new,
    (List.range k).foldlM (t.rehash HashObj) (allocNodes size, 0) = some (new, k) ∧
      new.numofslots = size ∧ new.slotused = k ∧
      ∃ chains' free', new.Rep HashObj (t.contentBelow content k) chains' free' := by
  induction k with
  | zero =>
    have empty : t.contentBelow content 0 = fun _ => none := by
      funext o
      simp [contentBelow]
    refine ⟨allocNodes size, rfl, rfl, rfl, fun _ => [], List.range size, ?_⟩
    rw [empty]
    exact allocNodes_rep (by have := rep.pos; omega)
  | succ k ih =>
    obtain ⟨new, run, slots, used, chains', free', newRep⟩ := ih (by omega)
    obtain ⟨notNull, is, single⟩ := rep.node full (by omega : k < t.numofslots)
    have refs := positive _ _ is
    have absent : t.contentBelow content k (t.nodes k).obj = none := by
      refine if_neg ?_
      rintro ⟨j, lt, same⟩
      have := single j (by omega) same
      omega
    obtain ⟨i, new', added, slots', used', obj, chains'', free'', mem, addedRep⟩ :=
      newRep.add (by omega) notNull absent
    have position : new'.mainPosition HashObj (t.nodes k).obj =
        new.mainPosition HashObj (t.nodes k).obj := by
      unfold mainPosition
      rw [slots']
    have set := addedRep.setRefs (mainPosition_lt addedRep.pos (t.nodes k).obj)
      (by rw [position]; exact mem) (t.nodes k).refs
    refine ⟨new'.modify i ({ · with refs := (t.nodes k).refs }), ?_, slots'.trans slots,
      by rw [← used]; exact used', chains'', free'', ?_⟩
    · rw [List.range_succ, List.foldlM_append, run]
      simp [RefTable.rehash, notNull, show (t.nodes k).refs ≠ 0 by omega, added]
    · have next : t.contentBelow content (k + 1) = Function.update (Function.update
          (t.contentBelow content k) (t.nodes k).obj (some 0)) (new'.nodes i).obj
            (some (t.nodes k).refs) := by
        funext o
        rw [obj, Function.update_idem]
        by_cases eq : o = (t.nodes k).obj
        · subst eq
          rw [Function.update_self]
          exact (if_pos ⟨k, by omega, rfl⟩).trans is
        · rw [Function.update_of_ne eq]
          have same : (∃ j < k + 1, (t.nodes j).obj = o) ↔ ∃ j < k, (t.nodes j).obj = o := by
            constructor
            · rintro ⟨j, lt, rfl⟩
              refine ⟨j, ?_, rfl⟩
              by_contra ge
              obtain rfl : j = k := by omega
              exact eq rfl
            · rintro ⟨j, lt, same⟩
              exact ⟨j, by omega, same⟩
          simp only [contentBelow, same]
      rw [next]
      exact set

theorem Rep.resize (rep : t.Rep HashObj content chains free) (full : free = [])
    (positive : ∀ o r, content o = some r → 0 < r) {size : Nat} (larger : t.numofslots ≤ size) :
    ∃ t', t.resize HashObj size = some t' ∧ t'.numofslots = size ∧ t'.slotused = t.numofslots ∧
      ∃ chains' free', t'.Rep HashObj content chains' free' := by
  obtain ⟨new, run, slots, used, chains', free', newRep⟩ :=
    rep.rehash full positive larger (le_refl _)
  refine ⟨new, by simp [RefTable.resize, run], slots, used, chains', free', ?_⟩
  have all : t.contentBelow content t.numofslots = content := by
    funext o
    unfold contentBelow
    split
    · rfl
    · rename_i absent
      cases is : content o with
      | none => rfl
      | some r =>
        obtain ⟨i, mem, obj⟩ := rep.found o r is
        obtain ⟨bound, -⟩ := rep.used _ (mainPosition_lt rep.pos o) i mem
        exact absurd ⟨i, bound, obj⟩ absent
  rwa [all] at newRep

/-! ## The operations -/

theorem modify_congr {i : Nat} {f g : RefNode → RefNode} (same : f (t.nodes i) = g (t.nodes i)) :
    t.modify i f = t.modify i g := by
  simp only [modify, same]

/-- `Get` finds the node of an object or makes one with no references. -/
theorem Rep.getOrAdd (rep : t.Rep HashObj content chains free)
    (positive : ∀ o r, content o = some r → 0 < r) {o : LVObject} (notNull : o.type ≠ .OT_NULL) :
    ∃ i t' chains' free', t.getOrAdd HashObj o = some (i, t') ∧ (t'.nodes i).obj = o ∧
      (t'.nodes i).refs = (content o).getD 0 ∧ i ∈ chains' (t'.mainPosition HashObj o) ∧
      t'.Rep HashObj (Function.update content o (some ((content o).getD 0))) chains' free' := by
  cases is : content o with
  | some r =>
    obtain ⟨before, i, after, eq, obj, refs, find⟩ := rep.find_present is
    refine ⟨i, t, chains, free, by simp [RefTable.getOrAdd, find], obj, refs, by simp [eq], ?_⟩
    rwa [Option.getD_some, ← is, Function.update_eq_self]
  | none =>
    obtain ⟨prev, find⟩ := rep.find_absent is
    have finish : ∀ {t₁ : RefTable} {chains₁ : Nat → List Nat} {free₁ : List Nat},
        t₁.Rep HashObj content chains₁ free₁ → t₁.slotused < t₁.numofslots →
        t.getOrAdd HashObj o = t₁.add (t₁.mainPosition HashObj o) o →
        ∃ i t' chains' free', t.getOrAdd HashObj o = some (i, t') ∧ (t'.nodes i).obj = o ∧
          (t'.nodes i).refs = 0 ∧ i ∈ chains' (t'.mainPosition HashObj o) ∧
          t'.Rep HashObj (Function.update content o (some 0)) chains' free' := by
      intro t₁ chains₁ free₁ rep₁ room run
      obtain ⟨i, t', added, slots, -, obj, chains', free', mem, rep'⟩ := rep₁.add room notNull is
      have position : t'.mainPosition HashObj o = t₁.mainPosition HashObj o := by
        unfold mainPosition
        rw [slots]
      rw [← position] at mem
      obtain ⟨-, -, -, refs⟩ := rep'.used _ (mainPosition_lt rep'.pos o) i mem
      rw [obj, Function.update_self, Option.some.injEq] at refs
      exact ⟨i, t', chains', free', run.trans added, obj, refs.symm, mem, rep'⟩
    have size := rep.size
    by_cases full : t.numofslots = t.slotused
    · have empty : free = [] := List.eq_nil_of_length_eq_zero (by omega)
      have null : t.freelist = none := by
        have linked := rep.freelist
        rw [empty] at linked
        exact linked
      obtain ⟨t₁, resized, slots, used, chains₁, free₁, rep₁⟩ :=
        rep.resize empty positive (by omega : t.numofslots ≤ t.numofslots * 2)
      have := rep.pos
      refine finish rep₁ (by omega) ?_
      simp only [RefTable.getOrAdd, find, if_pos full, null, ne_eq, not_true_eq_false, if_false,
        resized, Option.bind_some]
    · exact finish rep (by omega) (by simp only [RefTable.getOrAdd, find, if_neg full])

theorem Rep.addRef (rep : t.Rep HashObj content chains free)
    (positive : ∀ o r, content o = some r → 0 < r) {o : LVObject} (notNull : o.type ≠ .OT_NULL) :
    ∃ t' chains' free', t.addRef HashObj o = some t' ∧
      t'.Rep HashObj (Function.update content o (some ((content o).getD 0 + 1))) chains' free' := by
  obtain ⟨i, t', chains', free', run, obj, refs, mem, rep'⟩ := rep.getOrAdd positive notNull
  refine ⟨t'.modify i ({ · with refs := (content o).getD 0 + 1 }), chains', free', ?_, ?_⟩
  · have same : t'.modify i (fun r => { r with refs := r.refs + 1 }) =
        t'.modify i ({ · with refs := (content o).getD 0 + 1 }) := modify_congr (by rw [refs])
    rw [RefTable.addRef, run]
    exact congrArg some same
  · have set := rep'.setRefs (mainPosition_lt rep'.pos o) mem ((content o).getD 0 + 1)
    rwa [obj, Function.update_idem] at set

theorem Rep.release (rep : t.Rep HashObj content chains free) {o : LVObject} {r : Nat}
    (held : content o = some r) (positive : 0 < r) :
    ∃ t' chains' free', t.release HashObj o = some (decide (r = 1), t') ∧
      t'.Rep HashObj (Function.update content o (if r = 1 then none else some (r - 1)))
        chains' free' := by
  obtain ⟨before, i, after, eq, obj, refs, find⟩ := rep.find_present held
  by_cases last : r = 1
  · refine ⟨_, _, _, ?_, by rw [if_pos last]; exact rep.remove eq obj⟩
    simp [RefTable.release, find, refs, last]
  · have mem : i ∈ chains (t.mainPosition HashObj o) := by simp [eq]
    have set := rep.setRefs (mainPosition_lt rep.pos o) mem (r - 1)
    rw [obj] at set
    refine ⟨_, chains, free, ?_, by rw [if_neg last]; exact set⟩
    simp [RefTable.release, find, refs, last, show ¬ r - 1 = 0 by omega]

/-! ## The multiset of references -/

/-- The entries of a table for a multiset of references. -/
def counts (m : Multiset LVObject) (o : LVObject) : Option Nat :=
  if m.count o = 0 then none else some (m.count o)

variable {m : Multiset LVObject}

theorem counts_positive (o : LVObject) (r : Nat) (is : counts m o = some r) : 0 < r := by
  unfold counts at is
  split at is
  · cases is
  · cases is
    omega

theorem counts_getD (o : LVObject) : (counts m o).getD 0 = m.count o := by
  unfold counts
  split
  · simp_all
  · rfl

theorem counts_cons (o : LVObject) :
    counts (o ::ₘ m) = Function.update (counts m) o (some (m.count o + 1)) := by
  funext o'
  by_cases eq : o' = o
  · subst eq
    simp [counts]
  · simp [counts, Multiset.count_cons_of_ne eq, eq]

theorem counts_erase (o : LVObject) : counts (m.erase o) =
    Function.update (counts m) o (if m.count o ≤ 1 then none else some (m.count o - 1)) := by
  funext o'
  by_cases eq : o' = o
  · subst eq
    rw [Function.update_self]
    simp only [counts, Multiset.count_erase_self]
    by_cases le : m.count o' ≤ 1
    · rw [if_pos le, if_pos (by omega)]
    · rw [if_neg le, if_neg (by omega)]
  · simp [counts, Multiset.count_erase_of_ne eq, eq]

theorem Reaches.rep (reaches : Reaches HashObj t m) :
    ∃ chains free, t.Rep HashObj (counts m) chains free := by
  induction reaches with
  | create =>
    refine ⟨fun _ => [], List.range 4, ?_⟩
    have empty : counts 0 = fun _ => none := by
      funext o
      simp [counts]
    rw [empty]
    exact allocNodes_rep (by omega)
  | @addRef t t' m o before notNull run ih =>
    obtain ⟨chains, free, rep⟩ := ih
    obtain ⟨t₁, chains', free', run₁, rep'⟩ := rep.addRef counts_positive notNull
    obtain rfl := Option.some.inj (run₁.symm.trans run)
    refine ⟨chains', free', ?_⟩
    rwa [counts_cons, ← counts_getD]
  | @release t t' m o answer before held run ih =>
    obtain ⟨chains, free, rep⟩ := ih
    have count := Multiset.count_pos.mpr held
    obtain ⟨t₁, chains', free', run₁, rep'⟩ :=
      rep.release (if_neg (by omega) : counts m o = some (m.count o)) count
    obtain ⟨-, rfl⟩ := Prod.mk.inj (Option.some.inj (run₁.symm.trans run))
    refine ⟨chains', free', ?_⟩
    have one : m.count o = 1 ↔ m.count o ≤ 1 := by omega
    simp only [one] at rep'
    rwa [counts_erase]

theorem Rep.entry (rep : t.Rep HashObj content chains free) (o : LVObject) :
    t.entry HashObj o = some (content o) := by
  cases is : content o with
  | none =>
    obtain ⟨prev, find⟩ := rep.find_absent is
    simp [RefTable.entry, find]
  | some r =>
    obtain ⟨before, i, after, -, -, refs, find⟩ := rep.find_present is
    simp [RefTable.entry, find, refs]

/-- The nodes that hold an object are those that are not free. -/
theorem Rep.used_count (rep : t.Rep HashObj content chains free) :
    (List.range t.numofslots).countP (fun i => (t.nodes i).obj.type ≠ .OT_NULL) = t.slotused := by
  have perm : ((List.range t.numofslots).filter fun i => (t.nodes i).obj.type = .OT_NULL).Perm
      free := by
    refine (List.perm_ext_iff_of_nodup (List.nodup_range.filter _) rep.freelist.nodup).mpr
      fun i => ?_
    rw [List.mem_filter, List.mem_range, decide_eq_true_eq]
    constructor
    · rintro ⟨lt, null⟩
      rcases rep.cover i lt with mem | ⟨h, lth, mem⟩
      · exact mem
      · exact absurd null (rep.used h lth i mem).2.1
    · intro mem
      obtain ⟨lt, null, -⟩ := rep.unused i mem
      exact ⟨lt, by rw [null]; rfl⟩
  have nulls := perm.length_eq
  rw [← List.countP_eq_length_filter] at nulls
  have size := rep.size
  have all := List.length_eq_countP_add_countP
    (fun i => decide ((t.nodes i).obj.type = .OT_NULL)) (l := List.range t.numofslots)
  rw [List.length_range, nulls] at all
  simp only [decide_eq_true_eq, decide_not] at all ⊢
  omega

/-- The table stores, for every object, the number of its references; `Release` answers
whether the last one is gone; and every node is either in use or free. -/
theorem refTable_refines (reaches : Reaches HashObj t m) :
    (∀ o, t.entry HashObj o = some (if m.count o = 0 then none else some (m.count o))) ∧
    (∀ o, o.type ≠ .OT_NULL → ∃ t', t.addRef HashObj o = some t') ∧
    (∀ o ∈ m, ∃ t', t.release HashObj o = some (decide (m.count o = 1), t') ∧
      (m.count o = 1 → t'.entry HashObj o = some none)) ∧
    (List.range t.numofslots).countP (fun i => (t.nodes i).obj.type ≠ .OT_NULL) = t.slotused ∧
    ∃ free, Linked t.next t.freelist free ∧ t.slotused + free.length = t.numofslots := by
  obtain ⟨chains, free, rep⟩ := reaches.rep
  refine ⟨rep.entry, fun o notNull => ?_, fun o held => ?_, rep.used_count, free, rep.freelist,
    rep.size⟩
  · obtain ⟨t', -, -, run, -⟩ := rep.addRef counts_positive notNull
    exact ⟨t', run⟩
  · have count := Multiset.count_pos.mpr held
    obtain ⟨t', chains', free', run, rep'⟩ :=
      rep.release (if_neg (by omega) : counts m o = some (m.count o)) count
    refine ⟨t', run, fun last => ?_⟩
    rw [rep'.entry, Function.update_self, if_pos last]

/-- A table, referred to twice and released twice. -/
theorem refTable_refines_twice : ∃ t₁ t₂ t₃ t₄ : RefTable,
    create.addRef (fun _ => 5) (.ref .OT_TABLE 8) = some t₁ ∧
    t₁.addRef (fun _ => 5) (.ref .OT_TABLE 8) = some t₂ ∧
    t₂.release (fun _ => 5) (.ref .OT_TABLE 8) = some (false, t₃) ∧
    t₃.release (fun _ => 5) (.ref .OT_TABLE 8) = some (true, t₄) ∧
    t₄.entry (fun _ => 5) (.ref .OT_TABLE 8) = some none := by
  have table : (LVObject.ref .OT_TABLE 8).type ≠ .OT_NULL := nofun
  have r₀ : Reaches (fun _ => 5) create 0 := .create
  obtain ⟨t₁, run₁⟩ := (refTable_refines r₀).2.1 _ table
  have r₁ := r₀.addRef table run₁
  obtain ⟨t₂, run₂⟩ := (refTable_refines r₁).2.1 _ table
  have r₂ := r₁.addRef table run₂
  obtain ⟨t₃, run₃, -⟩ := (refTable_refines r₂).2.2.1 _ (Multiset.mem_cons_self _ _)
  have r₃ := r₂.release (Multiset.mem_cons_self _ _) run₃
  rw [Multiset.erase_cons_head] at r₃
  obtain ⟨t₄, run₄, gone⟩ := (refTable_refines r₃).2.2.1 _ (Multiset.mem_cons_self _ _)
  refine ⟨t₁, t₂, t₃, t₄, run₁, run₂, ?_, ?_, gone (by simp)⟩
  · simpa using run₃
  · simpa using run₄

end RefTable

end Lavril
