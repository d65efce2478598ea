import Lavril.Linked
import Mathlib.Data.List.Nodup
import Mathlib.Data.List.Perm.Subperm
import Mathlib.Data.Nat.Bitwise

/-!
# String interning

`LVStringTable` links all strings into buckets, by their hash. A string is known
by its address in `heap`, which has every string that is live; a new one is
allocated at an address that is not in use. The hash function is a parameter;
`_hashstr` is the one that is used.

`none` as the result of an operation means a failed assertion, an access outside
a string or to one that is not live, or a walk that does not end.
-/

namespace Lavril

/-- `val` are the `_len` bytes before the terminator. -/
structure LVString where
  val : List UInt8
  hash : Nat
  next : Option Nat
  deriving DecidableEq

structure LVStringTable where
  heap : Nat → Option LVString
  strings : Nat → Option Nat
  numofslots : Nat
  slotused : Nat

/-- `(unsigned short)*s`, for a signed `char`. -/
def hashChar (c : UInt8) : BitVec 64 := (c.toBitVec.signExtend 16).setWidth 64

def _hashstr (s : List UInt8) : Nat :=
  let l := s.length
  let step := (l >>> 5) ||| 1
  ((s.take (l / step)).foldl (fun (h : BitVec 64) c => h ^^^ ((h <<< 5) + (h >>> 2) + hashChar c))
    (BitVec.ofNat 64 l)).toNat

namespace LVStringTable

variable (hashstr : List UInt8 → Nat) (t : LVStringTable)

def nextOf (heap : Nat → Option LVString) (a : Nat) : Option Nat := (heap a).bind (·.next)

/-- `AllocNodes(4)`, with no strings. -/
def create : LVStringTable := ⟨fun _ => none, fun _ => none, 4, 0⟩

/-- The inner loop of `Resize`, over the chain that starts with the third argument. -/
def relink (size : Nat) : Nat → (Nat → Option LVString) × (Nat → Option Nat) → Option Nat →
    Option ((Nat → Option LVString) × (Nat → Option Nat))
  | 0, _, _ => none
  | _ + 1, tables, none => some tables
  | fuel + 1, (heap, strings), some p =>
    match heap p with
    | none => none
    | some s =>
      let h := s.hash &&& (size - 1)
      relink size fuel (Function.update heap p (some { s with next := strings h }),
        Function.update strings h (some p)) s.next

/-- `Resize`. -/
def resize (size : Nat) : Option LVStringTable :=
  ((List.range t.numofslots).foldlM
      (fun tables i => relink size (t.slotused + 1) tables (t.strings i)) (t.heap, fun _ => none)).map
    fun (heap, strings) => { t with heap := heap, strings := strings, numofslots := size }

/-- The bytes that `Add` is given: the first `len` from `news` on, or those before the
first NUL. -/
def bytes (news : List UInt8) (len : Int) : Option (List UInt8) :=
  if len < 0 then (news.findIdx? (· = 0)).map news.take
  else if len.toNat ≤ news.length then some (news.take len.toNat) else none

/-- The string of these bytes in their bucket. -/
def find (val : List UInt8) : Option (Option Nat × Option Nat) :=
  Linked.search (nextOf t.heap) (fun a => decide ((t.heap a).map (·.val) = some val))
    (t.slotused + 1) none (t.strings (hashstr val &&& (t.numofslots - 1)))

/-- `Add`; `fresh` is where a new string is allocated. -/
def add (news : List UInt8) (len : Int) (fresh : Nat) : Option (Nat × LVStringTable) := do
  let val ← bytes news len
  match ← t.find hashstr val with
  | (_, some s) => some (s, t)
  | (_, none) =>
    let h := hashstr val &&& (t.numofslots - 1)
    let t₁ : LVStringTable := { t with
      heap := Function.update t.heap fresh (some ⟨val, hashstr val, t.strings h⟩)
      strings := Function.update t.strings h (some fresh)
      slotused := t.slotused + 1 }
    if t₁.slotused > t₁.numofslots then
      (t₁.resize (t₁.numofslots * 2)).map (fresh, ·)
    else some (fresh, t₁)

/-- Takes the string at `s` out of a bucket and frees it. -/
def unlink (h : Nat) (prev : Option Nat) (s : Nat) : LVStringTable :=
  match prev with
  | some prev => { t with
      heap := Function.update (Function.update t.heap prev
        ((t.heap prev).map ({ · with next := nextOf t.heap s }))) s none
      slotused := t.slotused - 1 }
  | none => { t with
      heap := Function.update t.heap s none
      strings := Function.update t.strings h (nextOf t.heap s)
      slotused := t.slotused - 1 }

/-- `Remove`. -/
def remove (bs : Nat) : Option LVStringTable := do
  let b ← t.heap bs
  let h := b.hash &&& (t.numofslots - 1)
  match ← Linked.search (nextOf t.heap) (decide <| · = bs) (t.slotused + 1) none (t.strings h) with
  | (prev, some s) => some (t.unlink h prev s)
  | (_, none) => none

/-- Sequences of `Add` and of `Remove` of a live string. -/
inductive Reaches : LVStringTable → Prop
  | create : Reaches create
  | add {t t' : LVStringTable} {news : List UInt8} {len : Int} {fresh s : Nat} (before : Reaches t)
      (unused : t.heap fresh = none) (run : t.add hashstr news len fresh = some (s, t')) : Reaches t'
  | remove {t t' : LVStringTable} {bs : Nat} (before : Reaches t) (live : t.heap bs ≠ none)
      (run : t.remove bs = some t') : Reaches t'

/-! ## The shape of the table -/

/-- The chains of a table, and its strings. -/
structure Rep (chains : Nat → List Nat) (live : List Nat) : Prop where
  pos : 0 < t.numofslots
  chain : ∀ h < t.numofslots, Linked (nextOf t.heap) (t.strings h) (chains h)
  mem : ∀ h < t.numofslots, ∀ a,
    a ∈ chains h ↔ ∃ s, t.heap a = some s ∧ s.hash &&& (t.numofslots - 1) = h
  hash : ∀ a s, t.heap a = some s → s.hash = hashstr s.val
  unique : ∀ a b s s', t.heap a = some s → t.heap b = some s' → s.val = s'.val → a = b
  nodup : live.Nodup
  alive : ∀ a, a ∈ live ↔ t.heap a ≠ none
  used : t.slotused = live.length

variable {hashstr t} {t' : LVStringTable} {chains : Nat → List Nat} {live : List Nat}

theorem and_lt {n : Nat} (pos : 0 < n) (x : Nat) : x &&& (n - 1) < n := by
  have := @Nat.and_le_right x (n - 1)
  omega

theorem Rep.chain_length (rep : t.Rep hashstr chains live) {h : Nat} (lt : h < t.numofslots) :
    (chains h).length ≤ t.slotused := by
  rw [rep.used]
  refine ((rep.chain h lt).nodup.subperm fun a mem => ?_).length_le
  obtain ⟨s, is, -⟩ := (rep.mem h lt a).mp mem
  rw [rep.alive, is]
  nofun

theorem create_rep : create.Rep hashstr (fun _ => []) [] where
  pos := by decide
  chain _ _ := rfl
  mem _ _ a := by simp [create]
  hash _ _ is := by cases is
  unique _ _ _ _ is := by cases is
  nodup := List.nodup_nil
  alive a := by simp [create]
  used := rfl

/-! ## Resizing -/

/-- What `Resize` has done with the strings that satisfy `D`. -/
structure Moved (t : LVStringTable) (size : Nat) (D : Nat → Prop)
    (tables : (Nat → Option LVString) × (Nat → Option Nat)) (chains : Nat → List Nat) : Prop where
  linked : ∀ h < size, Linked (nextOf tables.1) (tables.2 h) (chains h)
  mem : ∀ h < size, ∀ a, a ∈ chains h ↔ D a ∧ ∃ s, t.heap a = some s ∧ s.hash &&& (size - 1) = h
  kept : ∀ a, ¬ D a → tables.1 a = t.heap a
  moved : ∀ a s, t.heap a = some s → ∃ p, tables.1 a = some { s with next := p }
  dead : ∀ a, t.heap a = none → tables.1 a = none

variable {size : Nat} {D : Nat → Prop} {tables : (Nat → Option LVString) × (Nat → Option Nat)}

theorem mem_update_cons (chains : Nat → List Nat) {mp h a b : Nat} :
    b ∈ Function.update chains mp (a :: chains mp) h ↔ (b = a ∧ h = mp) ∨ b ∈ chains h := by
  by_cases eq : h = mp
  · subst eq
    rw [Function.update_self, List.mem_cons]
    simp
  · rw [Function.update_of_ne eq]
    simp [eq]

/-- Writing to a string that is on none of the new chains. -/
theorem nextOf_update {heap : Nat → Option LVString} {a : Nat} (x : Option LVString) :
    nextOf (Function.update heap a x) = Function.update (nextOf heap) a (x.bind (·.next)) := by
  funext b
  by_cases eq : b = a
  · subst eq
    simp [nextOf]
  · simp [nextOf, eq]

theorem Moved.push (moved : Moved t size D tables chains) (pos : 0 < size) {a : Nat} {s : LVString}
    (is : t.heap a = some s) (new : ¬ D a) :
    Moved t size (fun b => D b ∨ b = a)
      (Function.update tables.1 a (some { s with next := tables.2 (s.hash &&& (size - 1)) }),
        Function.update tables.2 (s.hash &&& (size - 1)) (some a))
      (Function.update chains (s.hash &&& (size - 1)) (a :: chains (s.hash &&& (size - 1)))) := by
  have lt := and_lt pos s.hash
  have notMem : ∀ h < size, a ∉ chains h := fun h lth mem => new ((moved.mem h lth a).mp mem).1
  generalize position : s.hash &&& (size - 1) = mp at lt ⊢
  refine ⟨fun h lth => ?_, fun h lth b => ?_, fun b notD => ?_, fun b s' is' => ?_, fun b none => ?_⟩
  · simp only [nextOf_update, Option.bind_some]
    by_cases eq : h = mp
    · subst eq
      rw [Function.update_self, Function.update_self]
      exact (moved.linked h lth).push (notMem h lth)
    · rw [Function.update_of_ne eq, Function.update_of_ne eq]
      exact (moved.linked h lth).update_of_notMem (notMem h lth) _
  · rw [mem_update_cons, moved.mem h lth]
    constructor
    · rintro (⟨rfl, rfl⟩ | ⟨isD, exists_⟩)
      · exact ⟨.inr rfl, s, is, position⟩
      · exact ⟨.inl isD, exists_⟩
    · rintro ⟨isD | rfl, s', is', at_⟩
      · exact .inr ⟨isD, s', is', at_⟩
      · rw [is, Option.some.injEq] at is'
        subst is'
        exact .inl ⟨rfl, at_.symm.trans position⟩
  · rw [not_or] at notD
    simp only [Function.update_of_ne notD.2]
    exact moved.kept b notD.1
  · by_cases eq : b = a
    · subst eq
      rw [is, Option.some.injEq] at is'
      subst is'
      exact ⟨_, Function.update_self ..⟩
    · simp only [Function.update_of_ne eq]
      exact moved.moved b s' is'
  · have ne : b ≠ a := by
      rintro rfl
      rw [is] at none
      cases none
    simp only [Function.update_of_ne ne]
    exact moved.dead b none

theorem Moved.relink (moved : Moved t size D tables chains) (pos : 0 < size) {head : Option Nat}
    {l : List Nat} (linked : Linked (nextOf t.heap) head l)
    (new : ∀ a ∈ l, ¬ D a ∧ t.heap a ≠ none) {fuel : Nat} (lt : l.length < fuel) :
    ∃ tables' chains', LVStringTable.relink size fuel tables head = some tables' ∧
      Moved t size (fun b => D b ∨ b ∈ l) tables' chains' := by
  have nodup := linked.nodup
  induction l generalizing D tables chains head fuel with
  | nil =>
    obtain ⟨fuel, rfl⟩ := Nat.exists_eq_succ_of_ne_zero (by omega : fuel ≠ 0)
    have null : head = none := linked
    refine ⟨tables, chains, by rw [null, LVStringTable.relink], ?_⟩
    simpa using moved
  | cons a l ih =>
    rw [List.length_cons] at lt
    obtain ⟨fuel, rfl⟩ := Nat.exists_eq_succ_of_ne_zero (by omega : fuel ≠ 0)
    obtain ⟨first, rest⟩ := linked
    rw [List.nodup_cons] at nodup
    obtain ⟨notD, alive⟩ := new a List.mem_cons_self
    obtain ⟨s, is⟩ := Option.ne_none_iff_exists'.mp alive
    have next_ : nextOf t.heap a = s.next := by
      rw [nextOf, is]
      rfl
    rw [next_] at rest
    have others : ∀ b ∈ l, ¬ (D b ∨ b = a) ∧ t.heap b ≠ none := by
      intro b mem
      obtain ⟨notDb, aliveb⟩ := new b (List.mem_cons_of_mem a mem)
      refine ⟨?_, aliveb⟩
      rintro (isD | rfl)
      · exact notDb isD
      · exact nodup.1 mem
    have short : l.length < fuel := by omega
    obtain ⟨tables', chains', run, moved'⟩ :=
      ih (moved.push pos is notD) rest others short nodup.2
    refine ⟨tables', chains', ?_, ?_⟩
    · rw [first, LVStringTable.relink, moved.kept a notD, is]
      exact run
    · simpa only [List.mem_cons, or_assoc] using moved'

theorem Rep.relinks (rep : t.Rep hashstr chains live) (pos : 0 < size) {k : Nat}
    (le : k ≤ t.numofslots) : ∃ tables chains', (List.range k).foldlM
      (fun tables i => LVStringTable.relink size (t.slotused + 1) tables (t.strings i))
      (t.heap, fun _ => none) = some tables ∧
      Moved t size (fun a => ∃ i < k, a ∈ chains i) tables chains' := by
  induction k with
  | zero =>
    refine ⟨_, fun _ => [], rfl, fun _ _ => rfl, fun h lt a => by simp, fun _ _ => rfl,
      fun a s is => ⟨s.next, is⟩, fun _ => id⟩
  | succ k ih =>
    obtain ⟨tables, chains', run, moved⟩ := ih (by omega)
    have lt : k < t.numofslots := by omega
    have length := rep.chain_length lt
    have new : ∀ a ∈ chains k, ¬ (∃ i < k, a ∈ chains i) ∧ t.heap a ≠ none := by
      intro a mem
      obtain ⟨s, is, at_⟩ := (rep.mem k lt a).mp mem
      refine ⟨?_, by rw [is]; nofun⟩
      rintro ⟨i, lti, mem'⟩
      obtain ⟨s', is', at'⟩ := (rep.mem i (by omega) a).mp mem'
      rw [is, Option.some.injEq] at is'
      subst is'
      omega
    have same : (fun b => (∃ i < k, b ∈ chains i) ∨ b ∈ chains k) =
        fun b => ∃ i < k + 1, b ∈ chains i := by
      funext b
      simp only [Nat.lt_succ_iff_lt_or_eq, eq_iff_iff]
      constructor
      · rintro (⟨i, lti, mem⟩ | mem)
        · exact ⟨i, .inl lti, mem⟩
        · exact ⟨k, .inr rfl, mem⟩
      · rintro ⟨i, lti | rfl, mem⟩
        · exact .inl ⟨i, lti, mem⟩
        · exact .inr mem
    obtain ⟨tables', chains'', run', moved'⟩ :=
      moved.relink pos (rep.chain k lt) new (by omega : (chains k).length < t.slotused + 1)
    rw [same] at moved'
    refine ⟨tables', chains'', ?_, moved'⟩
    rw [List.range_succ, List.foldlM_append, run]
    simpa using run'

/-- The strings of a table, without the links. -/
def Same (heap heap' : Nat → Option LVString) : Prop :=
  ∀ a, (heap' a = none ∧ heap a = none) ∨
    ∃ s p, heap a = some s ∧ heap' a = some { s with next := p }

theorem Rep.resize (rep : t.Rep hashstr chains live) (pos : 0 < size) :
    ∃ t' chains', t.resize size = some t' ∧ t'.Rep hashstr chains' live ∧ Same t.heap t'.heap := by
  obtain ⟨tables, chains', run, moved⟩ := rep.relinks pos (le_refl _)
  have same : Same t.heap tables.1 := by
    intro a
    cases is : t.heap a with
    | none => exact .inl ⟨moved.dead a is, rfl⟩
    | some s =>
      obtain ⟨p, is'⟩ := moved.moved a s is
      exact .inr ⟨s, p, rfl, is'⟩
  refine ⟨_, chains', by rw [LVStringTable.resize, run]; rfl, ?_, same⟩
  have old : ∀ a s, tables.1 a = some s → ∃ s', t.heap a = some s' ∧ s.val = s'.val ∧ s.hash = s'.hash := by
    intro a s is
    rcases same a with ⟨none, -⟩ | ⟨s', p, is', moved⟩
    · rw [none] at is
      cases is
    · rw [moved, Option.some.injEq] at is
      subst is
      exact ⟨s', is', rfl, rfl⟩
  refine ⟨pos, moved.linked, fun h lt a => ?_, fun a s is => ?_, fun a b s s' is is' eq => ?_,
    rep.nodup, fun a => ?_, rep.used⟩
  · rw [moved.mem h lt]
    constructor
    · rintro ⟨-, s, is, at_⟩
      obtain ⟨p, is'⟩ := moved.moved a s is
      exact ⟨_, is', at_⟩
    · rintro ⟨s, is, at_⟩
      obtain ⟨s', is', -, hash⟩ := old a s is
      have lt' := and_lt rep.pos s'.hash
      exact ⟨⟨_, lt', (rep.mem _ lt' a).mpr ⟨s', is', rfl⟩⟩, s', is', by rw [← hash]; exact at_⟩
  · obtain ⟨s', is', val, hash⟩ := old a s is
    rw [hash, val]
    exact rep.hash a s' is'
  · obtain ⟨s₁, is₁, val₁, -⟩ := old a s is
    obtain ⟨s₂, is₂, val₂, -⟩ := old b s' is'
    exact rep.unique a b s₁ s₂ is₁ is₂ (by rw [← val₁, ← val₂, eq])
  · rw [rep.alive]
    rcases same a with ⟨none, none'⟩ | ⟨s, p, is, is'⟩
    · simp [none, none']
    · simp [is, is']

/-! ## The operations -/

/-- The string of these bytes is found, if there is one. -/
theorem Rep.find (rep : t.Rep hashstr chains live) (val : List UInt8) :
    (∃ a s prev, t.heap a = some s ∧ s.val = val ∧ t.find hashstr val = some (prev, some a)) ∨
    ((∀ a s, t.heap a = some s → s.val ≠ val) ∧ ∃ prev, t.find hashstr val = some (prev, none)) := by
  have lt := and_lt rep.pos (hashstr val)
  have linked := rep.chain _ lt
  have length := rep.chain_length lt
  by_cases known : ∃ a s, t.heap a = some s ∧ s.val = val
  · obtain ⟨a, s, is, eq⟩ := known
    have mem := (rep.mem _ lt a).mpr ⟨s, is, by rw [rep.hash a s is, eq]⟩
    obtain ⟨before, after, split⟩ := List.append_of_mem mem
    have nodup := linked.nodup
    rw [split] at linked nodup length
    simp only [List.length_append, List.length_cons] at length
    have others : ∀ b ∈ before, decide ((t.heap b).map (·.val) = some val) = false := by
      intro b memb
      rw [decide_eq_false_iff_not]
      intro same
      obtain ⟨s', is', eq'⟩ := Option.map_eq_some_iff.mp same
      obtain rfl := rep.unique b a s' s is' is (eq'.trans eq.symm)
      exact (List.nodup_append.mp nodup).2.2 b memb b (by simp) rfl
    have found := @Linked.search_found _ _ _ before after a linked
      (fun a => decide ((t.heap a).map (·.val) = some val)) others (by simp [is, eq])
      (t.slotused + 1) (by omega) none
    exact .inl ⟨a, s, before.getLast?, is, eq, found.trans (by rw [Option.or_none])⟩
  · refine .inr ⟨fun a s is eq => known ⟨a, s, is, eq⟩, ?_⟩
    refine linked.search_absent (fun a mem => ?_) (by omega) none
    rw [decide_eq_false_iff_not]
    intro same
    obtain ⟨s, is, eq⟩ := Option.map_eq_some_iff.mp same
    exact known ⟨a, s, is, eq⟩

/-- A new string in front of its bucket. -/
theorem Rep.insert (rep : t.Rep hashstr chains live) {fresh : Nat} (unused : t.heap fresh = none)
    {val : List UInt8} (absent : ∀ a s, t.heap a = some s → s.val ≠ val) :
    { t with
      heap := Function.update t.heap fresh
        (some ⟨val, hashstr val, t.strings (hashstr val &&& (t.numofslots - 1))⟩)
      strings := Function.update t.strings (hashstr val &&& (t.numofslots - 1)) (some fresh)
      slotused := t.slotused + 1 : LVStringTable }.Rep hashstr
        (Function.update chains (hashstr val &&& (t.numofslots - 1))
          (fresh :: chains (hashstr val &&& (t.numofslots - 1)))) (fresh :: live) := by
  have lt := and_lt rep.pos (hashstr val)
  have notMem : ∀ h < t.numofslots, fresh ∉ chains h := by
    intro h lth mem
    obtain ⟨s, is, -⟩ := (rep.mem h lth fresh).mp mem
    rw [unused] at is
    cases is
  have notLive : fresh ∉ live := fun mem => (rep.alive fresh).mp mem unused
  generalize position : hashstr val &&& (t.numofslots - 1) = mp at lt ⊢
  have old : ∀ a s, Function.update t.heap fresh (some ⟨val, hashstr val, t.strings mp⟩) a = some s →
      (a = fresh ∧ s = ⟨val, hashstr val, t.strings mp⟩) ∨ (a ≠ fresh ∧ t.heap a = some s) := by
    intro a s is
    by_cases eq : a = fresh
    · subst eq
      rw [Function.update_self, Option.some.injEq] at is
      exact .inl ⟨rfl, is.symm⟩
    · rw [Function.update_of_ne eq] at is
      exact .inr ⟨eq, is⟩
  refine ⟨rep.pos, fun h lth => ?_, fun h lth a => ?_, fun a s is => ?_, fun a b s s' is is' eq => ?_,
    List.nodup_cons.mpr ⟨notLive, rep.nodup⟩, fun a => ?_, by simp [rep.used]⟩
  · simp only [nextOf_update, Option.bind_some]
    by_cases eq : h = mp
    · subst eq
      rw [Function.update_self, Function.update_self]
      exact (rep.chain h lth).push (notMem h lth)
    · rw [Function.update_of_ne eq, Function.update_of_ne eq]
      exact (rep.chain h lth).update_of_notMem (notMem h lth) _
  · rw [mem_update_cons]
    constructor
    · rintro (⟨rfl, rfl⟩ | mem)
      · exact ⟨_, Function.update_self .., position⟩
      · have ne : a ≠ fresh := by
          rintro rfl
          exact notMem h lth mem
        simp only [Function.update_of_ne ne]
        exact (rep.mem h lth a).mp mem
    · rintro ⟨s, is, at_⟩
      rcases old a s is with ⟨rfl, rfl⟩ | ⟨-, is⟩
      · exact .inl ⟨rfl, at_.symm.trans position⟩
      · exact .inr ((rep.mem h lth a).mpr ⟨s, is, at_⟩)
  · rcases old a s is with ⟨-, rfl⟩ | ⟨-, is⟩
    · rfl
    · exact rep.hash a s is
  · rcases old a s is with ⟨rfl, rfl⟩ | ⟨-, isa⟩ <;> rcases old b s' is' with ⟨rfl, rfl⟩ | ⟨-, isb⟩
    · rfl
    · exact absurd eq.symm (absent b s' isb)
    · exact absurd eq (absent a s isa)
    · exact rep.unique a b s s' isa isb eq
  · rw [List.mem_cons, rep.alive]
    by_cases eq : a = fresh
    · subst eq
      simp
    · simp [eq]

/-- `Add` returns the string of the given bytes, the one there is if there is one. -/
theorem Rep.add (rep : t.Rep hashstr chains live) {news val : List UInt8} {len : Int} {fresh : Nat}
    (given : bytes news len = some val) (unused : t.heap fresh = none) :
    ∃ s t' chains' live', t.add hashstr news len fresh = some (s, t') ∧
      t'.Rep hashstr chains' live' ∧ (t'.heap s).map (·.val) = some val ∧
      ∀ a o, t.heap a = some o → o.val = val → s = a ∧ t' = t := by
  rcases rep.find val with ⟨a, o, prev, is, eq, find⟩ | ⟨absent, prev, find⟩
  · refine ⟨a, t, chains, live, ?_, rep, by simp [is, eq], fun b o' is' eq' =>
      ⟨rep.unique a b o o' is is' (eq.trans eq'.symm), rfl⟩⟩
    simp [LVStringTable.add, given, find]
  · have inserted := rep.insert unused absent
    generalize eq : ({ t with
      heap := Function.update t.heap fresh
        (some ⟨val, hashstr val, t.strings (hashstr val &&& (t.numofslots - 1))⟩)
      strings := Function.update t.strings (hashstr val &&& (t.numofslots - 1)) (some fresh)
      slotused := t.slotused + 1 } : LVStringTable) = t₁ at inserted
    have there : t₁.heap fresh =
        some ⟨val, hashstr val, t.strings (hashstr val &&& (t.numofslots - 1))⟩ := by
      rw [← eq]
      exact Function.update_self ..
    have new : ∀ a o, t.heap a = some o → o.val = val → False := fun a o is eq => absent a o is eq
    have run : t.add hashstr news len fresh = if t₁.slotused > t₁.numofslots then
        (t₁.resize (t₁.numofslots * 2)).map (fresh, ·) else some (fresh, t₁) := by
      rw [← eq]
      simp only [LVStringTable.add, given, find, Option.bind_eq_bind, Option.bind_some]
    by_cases crowded : t₁.slotused > t₁.numofslots
    · have pos := inserted.pos
      obtain ⟨t', chains', resized, rep', same⟩ :=
        inserted.resize (by omega : 0 < t₁.numofslots * 2)
      refine ⟨fresh, t', chains', _, ?_, rep', ?_, fun a o is eq => (new a o is eq).elim⟩
      · rw [run, if_pos crowded, resized, Option.map_some]
      · rcases same fresh with ⟨-, none⟩ | ⟨s, p, is, is'⟩
        · rw [there] at none
          cases none
        · rw [there, Option.some.injEq] at is
          rw [is', ← is]
          rfl
    · refine ⟨fresh, t₁, _, _, by rw [run, if_neg crowded], inserted, by rw [there]; rfl,
        fun a o is eq => (new a o is eq).elim⟩

/-- Taking a string out of its bucket. -/
theorem Rep.unlink (rep : t.Rep hashstr chains live) {a : Nat} {s : LVString}
    (is : t.heap a = some s) {before after : List Nat}
    (split : chains (s.hash &&& (t.numofslots - 1)) = before ++ a :: after) :
    (t.unlink (s.hash &&& (t.numofslots - 1)) before.getLast? a).Rep hashstr
      (Function.update chains (s.hash &&& (t.numofslots - 1)) (before ++ after)) (live.erase a) := by
  have lt := and_lt rep.pos s.hash
  have linked := rep.chain _ lt
  have nodup := linked.nodup
  rw [split] at linked nodup
  rw [List.nodup_middle, List.nodup_cons] at nodup
  generalize position : s.hash &&& (t.numofslots - 1) = mp at *
  have sub : ∀ h < t.numofslots, ∀ b, b ∈ Function.update chains mp (before ++ after) h ↔
      b ∈ chains h ∧ b ≠ a := by
    intro h lth b
    by_cases eq : h = mp
    · subst eq
      rw [Function.update_self, split]
      simp only [List.mem_append, List.mem_cons]
      constructor
      · intro mem
        refine ⟨by tauto, ?_⟩
        rintro rfl
        exact nodup.1 (List.mem_append.mpr mem)
      · tauto
    · rw [Function.update_of_ne eq]
      refine ⟨fun mem => ⟨mem, ?_⟩, And.left⟩
      rintro rfl
      obtain ⟨s', is', at_⟩ := (rep.mem h lth b).mp mem
      rw [is, Option.some.injEq] at is'
      subst is'
      exact eq (at_.symm.trans position)
  have notMem : ∀ h < t.numofslots, a ∉ Function.update chains mp (before ++ after) h :=
    fun h lth mem => ((sub h lth a).mp mem).2 rfl
  -- what is left of the heap, and the links in it
  have gone : (t.unlink mp before.getLast? a).heap a = none := by
    unfold LVStringTable.unlink
    split <;> exact Function.update_self ..
  have left : ∀ b ≠ a, (∀ o, t.heap b = some o →
      ∃ p, (t.unlink mp before.getLast? a).heap b = some { o with next := p }) ∧
      (t.heap b = none → (t.unlink mp before.getLast? a).heap b = none) := by
    intro b ne
    unfold LVStringTable.unlink
    split
    · rename_i prev _
      simp only [Function.update_of_ne ne]
      by_cases eq : b = prev
      · subst eq
        rw [Function.update_self]
        exact ⟨fun o iso => ⟨_, by rw [iso]; rfl⟩, fun none => by rw [none]; rfl⟩
      · rw [Function.update_of_ne eq]
        exact ⟨fun o iso => ⟨o.next, iso⟩, id⟩
    · simp only [Function.update_of_ne ne]
      exact ⟨fun o iso => ⟨o.next, iso⟩, id⟩
  have links : ∀ h < t.numofslots, Linked (nextOf (t.unlink mp before.getLast? a).heap)
      ((t.unlink mp before.getLast? a).strings h)
      (Function.update chains mp (before ++ after) h) := by
    intro h lth
    rcases List.eq_nil_or_concat before with rfl | ⟨l, prev, rfl⟩
    · simp only [LVStringTable.unlink, List.getLast?_nil, nextOf_update]
      refine Linked.update_of_notMem ?_ (notMem h lth) _
      by_cases eq : h = mp
      · subst eq
        rw [Function.update_self, Function.update_self]
        exact linked.2
      · rw [Function.update_of_ne eq, Function.update_of_ne eq]
        exact rep.chain h lth
    · have memp : prev ∈ chains mp := by simp [split]
      obtain ⟨sp, isp, atp⟩ := (rep.mem mp lt prev).mp memp
      simp only [LVStringTable.unlink, List.concat_eq_append, List.getLast?_concat, nextOf_update,
        isp, Option.map_some, Option.bind_some]
      refine Linked.update_of_notMem ?_ (by simpa using notMem h lth) _
      by_cases eq : h = mp
      · subst eq
        rw [Function.update_self, List.append_assoc, List.singleton_append]
        rw [List.concat_eq_append, List.append_assoc, List.singleton_append] at linked
        exact linked.unlink
      · rw [Function.update_of_ne eq]
        refine (rep.chain h lth).update_of_notMem (fun mem => ?_) _
        obtain ⟨s', is', at_⟩ := (rep.mem h lth prev).mp mem
        rw [isp, Option.some.injEq] at is'
        subst is'
        exact eq (at_.symm.trans atp)
  have slots : (t.unlink mp before.getLast? a).numofslots = t.numofslots ∧
      (t.unlink mp before.getLast? a).slotused = t.slotused - 1 := by
    unfold LVStringTable.unlink
    split <;> exact ⟨rfl, rfl⟩
  have old : ∀ b o, (t.unlink mp before.getLast? a).heap b = some o → b ≠ a ∧
      ∃ o', t.heap b = some o' ∧ o.val = o'.val ∧ o.hash = o'.hash := by
    intro b o iso
    have ne : b ≠ a := by
      rintro rfl
      rw [gone] at iso
      cases iso
    cases was : t.heap b with
    | none =>
      rw [(left b ne).2 was] at iso
      cases iso
    | some o' =>
      obtain ⟨p, now⟩ := (left b ne).1 o' was
      rw [now, Option.some.injEq] at iso
      subst iso
      exact ⟨ne, o', rfl, rfl, rfl⟩
  have memLive : a ∈ live := (rep.alive a).mpr (by rw [is]; nofun)
  refine ⟨by rw [slots.1]; exact rep.pos, by rw [slots.1]; exact links, fun h lth b => ?_,
    fun b o iso => ?_, fun b b' o o' iso iso' eq => ?_, rep.nodup.erase a, fun b => ?_, ?_⟩
  · rw [slots.1] at lth ⊢
    rw [sub h lth, rep.mem h lth]
    constructor
    · rintro ⟨⟨o, iso, at_⟩, ne⟩
      obtain ⟨p, now⟩ := (left b ne).1 o iso
      exact ⟨_, now, at_⟩
    · rintro ⟨o, iso, at_⟩
      obtain ⟨ne, o', was, -, hash⟩ := old b o iso
      exact ⟨⟨o', was, by rw [← hash]; exact at_⟩, ne⟩
  · obtain ⟨-, o', was, val, hash⟩ := old b o iso
    rw [hash, val]
    exact rep.hash b o' was
  · obtain ⟨-, o₁, was, val, -⟩ := old b o iso
    obtain ⟨-, o₂, was', val', -⟩ := old b' o' iso'
    exact rep.unique b b' o₁ o₂ was was' (by rw [← val, ← val', eq])
  · rw [rep.nodup.mem_erase_iff, rep.alive]
    by_cases eq : b = a
    · subst eq
      simp [gone]
    · cases was : t.heap b with
      | none => simp [(left b eq).2 was]
      | some o =>
        obtain ⟨p, now⟩ := (left b eq).1 o was
        simp [eq, now]
  · rw [slots.2, rep.used, List.length_erase_of_mem memLive]

theorem Rep.remove (rep : t.Rep hashstr chains live) {a : Nat} (alive : t.heap a ≠ none) :
    ∃ t' chains', t.remove a = some t' ∧ t'.Rep hashstr chains' (live.erase a) ∧
      t'.heap a = none := by
  obtain ⟨s, is⟩ := Option.ne_none_iff_exists'.mp alive
  have lt := and_lt rep.pos s.hash
  have mem := (rep.mem _ lt a).mpr ⟨s, is, rfl⟩
  obtain ⟨before, after, split⟩ := List.append_of_mem mem
  have linked := rep.chain _ lt
  have nodup := linked.nodup
  have length := rep.chain_length lt
  rw [split] at linked nodup length
  simp only [List.length_append, List.length_cons] at length
  have others : ∀ b ∈ before, decide (b = a) = false := by
    intro b memb
    rw [decide_eq_false_iff_not]
    rintro rfl
    exact (List.nodup_append.mp nodup).2.2 b memb b (by simp) rfl
  have found := @Linked.search_found _ _ _ before after a linked (decide <| · = a) others (by simp)
    (t.slotused + 1) (by omega) none
  rw [Option.or_none] at found
  refine ⟨_, _, ?_, rep.unlink is split, ?_⟩
  · simp [LVStringTable.remove, is, found]
  · unfold LVStringTable.unlink
    split <;> exact Function.update_self ..

theorem Reaches.rep (reaches : Reaches hashstr t) : ∃ chains live, t.Rep hashstr chains live := by
  induction reaches with
  | create => exact ⟨_, _, create_rep⟩
  | @add t t' news len fresh s before unused run ih =>
    obtain ⟨chains, live, rep⟩ := ih
    cases given : bytes news len with
    | none => simp [LVStringTable.add, given] at run
    | some val =>
      obtain ⟨s', t₁, chains', live', run₁, rep', -⟩ := rep.add given unused
      obtain ⟨-, rfl⟩ := Prod.mk.inj (Option.some.inj (run₁.symm.trans run))
      exact ⟨chains', live', rep'⟩
  | remove before alive run ih =>
    obtain ⟨chains, live, rep⟩ := ih
    obtain ⟨t₁, chains', run₁, rep', -⟩ := rep.remove alive
    obtain rfl := Option.some.inj (run₁.symm.trans run)
    exact ⟨chains', _, rep'⟩

end LVStringTable

end Lavril
