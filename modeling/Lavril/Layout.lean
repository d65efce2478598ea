import Lavril.Classes
import Mathlib.Data.Nat.Bitwise

/-!
# The layout of classes and instances

An entry of a class's table is the index of a default value or of a method it has, and
an instance has one value for each default value of its class. A class that has an
instance is locked, and then gets no new default values.
-/

namespace Lavril
namespace Classes

open LVTable

/-! ## Member indices -/

theorem memberIdx_or {tag : BitVec 64} {i : Nat} (high : tag &&& 0x00FFFFFF = 0) (lt : i < 2 ^ 24) :
    memberIdx (.integer (tag ||| .ofNat 64 i)) = i := by
  have low : (tag ||| .ofNat 64 i) &&& 0x00FFFFFF = BitVec.ofNat 64 i &&& 0x00FFFFFF := by
    rw [BitVec.and_or_distrib_right, high]
    exact BitVec.zero_or
  show ((tag ||| .ofNat 64 i) &&& 0x00FFFFFF).toNat = i
  rw [low, BitVec.toNat_and, BitVec.toNat_ofNat]
  show i % 2 ^ 64 &&& (2 ^ 24 - 1) = i
  rw [Nat.and_two_pow_sub_one_eq_mod]
  omega

/-- A number of 24 bits has none of the bits of the tags. -/
theorem ofNat_and_tag {i n : Nat} (lt : i < 2 ^ 24) (le : 24 ≤ n) (small : n < 64) :
    BitVec.ofNat 64 i &&& BitVec.ofNat 64 (2 ^ n) = 0 := by
  apply BitVec.eq_of_toNat_eq
  have power : 2 ^ n < 2 ^ 64 := Nat.pow_lt_pow_right (by omega) small
  have bit : i.testBit n = false :=
    Nat.testBit_lt_two_pow (lt_of_lt_of_le lt (Nat.pow_le_pow_right (by omega) le))
  rw [BitVec.toNat_and, BitVec.toNat_ofNat, BitVec.toNat_ofNat, Nat.mod_eq_of_lt power,
    Nat.mod_eq_of_lt (by omega), Nat.and_two_pow, bit]
  simp

theorem or_and_tag (tag x : BitVec 64) : (tag ||| x) &&& tag = tag := by
  ext j
  simp only [BitVec.getElem_and, BitVec.getElem_or]
  cases tag[j] <;> simp

theorem isfield_makeFieldIdx (i : Nat) : isfield (makeFieldIdx i) = true := by
  show decide ((MEMBER_TYPE_FIELD ||| .ofNat 64 i) &&& MEMBER_TYPE_FIELD ≠ 0) = true
  rw [or_and_tag]
  decide

theorem isfield_makeMethodIdx {i : Nat} (lt : i < 2 ^ 24) : isfield (makeMethodIdx i) = false := by
  have untagged : (MEMBER_TYPE_METHOD ||| .ofNat 64 i) &&& MEMBER_TYPE_FIELD = 0 := by
    rw [BitVec.and_or_distrib_right]
    exact (congrArg (_ ||| ·) (ofNat_and_tag (n := 25) lt (by omega) (by omega))).trans (by decide)
  show decide ((MEMBER_TYPE_METHOD ||| .ofNat 64 i) &&& MEMBER_TYPE_FIELD ≠ 0) = false
  rw [untagged]
  decide

theorem ismethod_makeMethodIdx (i : Nat) : ismethod (makeMethodIdx i) = true := by
  show decide ((MEMBER_TYPE_METHOD ||| .ofNat 64 i) &&& MEMBER_TYPE_METHOD ≠ 0) = true
  rw [or_and_tag]
  decide

theorem memberIdx_makeFieldIdx {i : Nat} (lt : i < 2 ^ 24) : memberIdx (makeFieldIdx i) = i :=
  memberIdx_or (by decide) lt

theorem memberIdx_makeMethodIdx {i : Nat} (lt : i < 2 ^ 24) : memberIdx (makeMethodIdx i) = i :=
  memberIdx_or (by decide) lt

/-! ## One class -/

namespace LVClass

/-- What an entry of the table is taken for. -/
def Denotes (c : LVClass) (idx : LVObject) : Prop :=
  if isfield idx then memberIdx idx < c.defaultvalues.length
  else ismethod idx ∧ memberIdx idx < c.methods.length

def Few (c : LVClass) : Prop := c.defaultvalues.length < 2 ^ 24 ∧ c.methods.length < 2 ^ 24

structure WellFormed (env : ClassEnv) (c : LVClass) : Prop where
  table : Inv env.HashObj c.members
  entries : ∀ key idx, c.members.Binds key idx →
    (∃ i < c.defaultvalues.length, idx = makeFieldIdx i) ∨ ∃ i < c.methods.length, idx = makeMethodIdx i
  constructoridx : c.constructoridx = -1 ∨ ∃ i < c.methods.length, c.constructoridx = i

variable {env : ClassEnv} {c c' : LVClass} {key val idx : LVObject}

theorem WellFormed.denotes (wf : c.WellFormed env) (few : c.Few) (binds : c.members.Binds key idx) :
    c.Denotes idx := by
  unfold Denotes
  rcases wf.entries key idx binds with ⟨i, lt, rfl⟩ | ⟨i, lt, rfl⟩
  · rw [if_pos (isfield_makeFieldIdx i), memberIdx_makeFieldIdx (lt.trans few.1)]
    exact lt
  · have small := lt.trans few.2
    rw [if_neg (by rw [isfield_makeMethodIdx small]; decide), memberIdx_makeMethodIdx small]
    exact ⟨ismethod_makeMethodIdx i, lt⟩

/-- What `Get` finds in the table is an entry of it. -/
theorem WellFormed.get (wf : c.WellFormed env) (key : LVObject) :
    ∃ found, c.members.get env.HashObj env.weakref key = some found ∧
      ∀ idx, found = some idx → c.members.Binds key idx := by
  by_cases null : key.type = .OT_NULL
  · refine ⟨none, ?_, fun idx eq => by cases eq⟩
    rw [LVTable.get, if_pos null]
  · obtain ⟨found, run, spec⟩ := get_spec env.HashObj env.weakref wf.table null
    refine ⟨found, run, fun idx eq => ?_⟩
    obtain ⟨v, binds, rfl⟩ := (spec idx).mp eq
    have plain : v.type ≠ .OT_WEAKREF := by
      rcases wf.entries key v binds with ⟨i, -, rfl⟩ | ⟨i, -, rfl⟩ <;> exact fun eq => by cases eq
    rw [realval, if_pos plain]
    exact binds

theorem bind_spec (wf : c.WellFormed env) (notNull : key.type ≠ .OT_NULL) (idx : LVObject) :
    ∃ members, c.bind env key idx = some members ∧ Inv env.HashObj members ∧
      Stored c.members key idx members := by
  obtain ⟨b, members, run, inv, stored⟩ := newSlot_spec env.HashObj idx env.depth wf.table notNull
  exact ⟨members, by rw [bind, run]; rfl, inv, stored⟩

/-- `NewSlot` of a table asserts that the key is not null. -/
theorem bind_null (null : key.type = .OT_NULL) : c.bind env key idx = none := by
  rw [bind, LVTable.newSlot, if_pos null]
  rfl

/-- Two classes of which one has the other's members, and perhaps more. -/
structure Extends (c c' : LVClass) : Prop where
  defaultvalues : c.defaultvalues.length ≤ c'.defaultvalues.length
  methods : c.methods.length ≤ c'.methods.length
  locked : c'.locked = c.locked
  base : c'.base = c.base
  /-- A locked class keeps its layout. -/
  layout : c.locked = true → c'.defaultvalues.length = c.defaultvalues.length

/-- A class with the same table, of which the arrays are not shorter. -/
theorem WellFormed.of_members (wf : c.WellFormed env) (same : c'.members = c.members)
    (fields : c.defaultvalues.length ≤ c'.defaultvalues.length)
    (methods : c.methods.length ≤ c'.methods.length) (ctor : c'.constructoridx = c.constructoridx) :
    c'.WellFormed env := by
  refine ⟨same ▸ wf.table, fun key idx binds => ?_, ?_⟩
  · rw [same] at binds
    rcases wf.entries key idx binds with ⟨i, lt, eq⟩ | ⟨i, lt, eq⟩
    · exact Or.inl ⟨i, lt.trans_le fields, eq⟩
    · exact Or.inr ⟨i, lt.trans_le methods, eq⟩
  · rw [ctor]
    rcases wf.constructoridx with none | ⟨i, lt, eq⟩
    · exact Or.inl none
    · exact Or.inr ⟨i, lt.trans_le methods, eq⟩

/-- A class that has got one more entry, for what it has one more of. -/
theorem WellFormed.of_stored (wf : c.WellFormed env) (inv : Inv env.HashObj c'.members)
    (stored : Stored c.members key idx c'.members)
    (fields : c.defaultvalues.length ≤ c'.defaultvalues.length)
    (methods : c.methods.length ≤ c'.methods.length)
    (there : (∃ i < c'.defaultvalues.length, idx = makeFieldIdx i) ∨
      ∃ i < c'.methods.length, idx = makeMethodIdx i)
    (ctor : c'.constructoridx = c.constructoridx ∨ ∃ i < c'.methods.length, c'.constructoridx = i) :
    c'.WellFormed env := by
  refine ⟨inv, fun k v binds => ?_, ?_⟩
  · rcases (stored k v).mp binds with ⟨-, rfl⟩ | ⟨-, binds⟩
    · exact there
    · rcases wf.entries k v binds with ⟨i, lt, eq⟩ | ⟨i, lt, eq⟩
      · exact Or.inl ⟨i, lt.trans_le fields, eq⟩
      · exact Or.inr ⟨i, lt.trans_le methods, eq⟩
  · rcases ctor with same | here
    · rw [same]
      rcases wf.constructoridx with none | ⟨i, lt, eq⟩
      · exact Or.inl none
      · exact Or.inr ⟨i, lt.trans_le methods, eq⟩
    · exact Or.inr here

theorem setVal_length {l l' : List LVClassMember} {i : Nat} (run : setVal l i val = some l') :
    l'.length = l.length := by
  unfold setVal at run
  split at run
  · cases run
    exact List.length_modify _ _ _
  · cases run

theorem setVal_some {l : List LVClassMember} {i : Nat} (lt : i < l.length) (val : LVObject) :
    ∃ l', setVal l i val = some l' := ⟨_, if_pos lt⟩

theorem Extends.refl (c : LVClass) : c.Extends c := ⟨le_rfl, le_rfl, rfl, rfl, fun _ => rfl⟩

theorem newMethod_spec (wf : c.WellFormed env) (few : c.Few) (notNull : key.type ≠ .OT_NULL)
    (val : LVObject) {temp : LVObject}
    (index : temp.type = .OT_NULL ∨ ∃ i < c.methods.length, temp = makeMethodIdx i) :
    ∃ c', c.newMethod env key val temp = some (true, c') ∧ c'.WellFormed env ∧ c.Extends c' := by
  unfold newMethod
  split
  · -- a metamethod has no entry
    exact ⟨_, rfl, wf.of_members rfl le_rfl le_rfl rfl, le_rfl, le_rfl, rfl, rfl, fun _ => rfl⟩
  · by_cases fresh : temp.type = .OT_NULL
    · obtain ⟨members, run, inv, stored⟩ := bind_spec wf notNull (makeMethodIdx c.methods.length)
      simp only [if_pos fresh, run]
      refine ⟨_, rfl, wf.of_stored inv stored le_rfl (by simp) (Or.inr ⟨_, by simp, rfl⟩) ?_,
        le_rfl, by simp, rfl, rfl, fun _ => rfl⟩
      by_cases ctor : key = .string "constructor"
      · exact Or.inr ⟨c.methods.length, by simp, by simp only [if_pos ctor]⟩
      · exact Or.inl (by simp only [if_neg ctor])
    · rcases index with null | ⟨i, lt, rfl⟩
      · exact absurd null fresh
      · simp only [if_neg fresh, memberIdx_makeMethodIdx (lt.trans few.2)]
        obtain ⟨methods, stored⟩ := setVal_some lt (c.theval env val)
        have length := setVal_length stored
        rw [stored]
        exact ⟨_, rfl, wf.of_members rfl le_rfl length.ge rfl, le_rfl, length.ge, rfl, rfl,
          fun _ => rfl⟩

/-- `NewSlot` keeps the class well formed; only a null key stops it. -/
theorem newSlot_spec (wf : c.WellFormed env) (few : c.Few) (notNull : key.type ≠ .OT_NULL)
    (val : LVObject) (bstatic : Bool) :
    ∃ b c', c.newSlot env key val bstatic = some (b, c') ∧ c'.WellFormed env ∧ c.Extends c' := by
  obtain ⟨found, get, entry⟩ := wf.get key
  unfold newSlot
  by_cases refused : (c.locked && !(isClosure val || bstatic)) = true
  · rw [if_pos refused]
    exact ⟨false, c, rfl, wf, .refl c⟩
  rw [if_neg refused, get]
  show ∃ b c', (if found.isSome && isfield (found.getD .null) then _ else _) = _ ∧ _
  cases found with
  | none =>
    rw [if_neg (by simp)]
    by_cases static : (isClosure val || bstatic) = true
    · rw [if_pos static]
      obtain ⟨c', run, spec⟩ := newMethod_spec wf few notNull val
        (Or.inl (rfl : LVObject.null.type = .OT_NULL))
      exact ⟨true, c', run, spec⟩
    · rw [if_neg static]
      obtain ⟨members, run, inv, stored⟩ := bind_spec wf notNull (makeFieldIdx c.defaultvalues.length)
      rw [run]
      have unlocked : c.locked = false := by simpa [static] using refused
      refine ⟨true, _, rfl, wf.of_stored inv stored (by simp) le_rfl (Or.inl ⟨_, by simp, rfl⟩)
        (Or.inl rfl), by simp, le_rfl, rfl, rfl, fun locked => ?_⟩
      rw [unlocked] at locked
      cases locked
  | some idx =>
    rcases wf.entries key idx (entry idx rfl) with ⟨i, lt, rfl⟩ | ⟨i, lt, rfl⟩
    · have field := isfield_makeFieldIdx i
      simp only [Option.isSome_some, Option.getD_some, field, Bool.and_self, if_true,
        memberIdx_makeFieldIdx (lt.trans few.1)]
      obtain ⟨defaultvalues, stored⟩ := setVal_some lt val
      have length := setVal_length stored
      rw [stored]
      exact ⟨true, _, rfl, wf.of_members rfl length.ge le_rfl rfl, length.ge, le_rfl, rfl, rfl,
        fun _ => length⟩
    · have method := isfield_makeMethodIdx (lt.trans few.2)
      simp only [Option.isSome_some, Option.getD_some, method, Bool.and_false, Bool.false_eq_true,
        if_false]
      by_cases static : (isClosure val || bstatic) = true
      · rw [if_pos static]
        obtain ⟨c', run, spec⟩ := newMethod_spec wf few notNull val (Or.inr ⟨i, lt, rfl⟩)
        exact ⟨true, c', run, spec⟩
      · -- a field takes the place of the method
        rw [if_neg static]
        obtain ⟨members, run, inv, stored⟩ := bind_spec wf notNull (makeFieldIdx c.defaultvalues.length)
        rw [run]
        have unlocked : c.locked = false := by simpa [static] using refused
        refine ⟨true, _, rfl, wf.of_stored inv stored (by simp) le_rfl (Or.inl ⟨_, by simp, rfl⟩)
          (Or.inl rfl), by simp, le_rfl, rfl, rfl, fun locked => ?_⟩
        rw [unlocked] at locked
        cases locked

/-- A null key is refused, or its assertion fails. -/
theorem newSlot_null (null : key.type = .OT_NULL) {bstatic b : Bool}
    (run : c.newSlot env key val bstatic = some (b, c')) : c' = c := by
  have get : c.members.get env.HashObj env.weakref key = some none := by
    rw [LVTable.get, if_pos null]
  have noName : getMetaMethodIdxByName key = none := by
    obtain ⟨type, unVal⟩ := key
    obtain rfl : type = .OT_NULL := null
    rfl
  unfold newSlot at run
  by_cases refused : (c.locked && !(isClosure val || bstatic)) = true
  · rw [if_pos refused] at run
    cases run
    rfl
  rw [if_neg refused, get] at run
  simp only [Option.bind_eq_bind, Option.bind_some, Option.isSome_none, Option.getD_none,
    Bool.false_and, Bool.false_eq_true, if_false] at run
  by_cases static : (isClosure val || bstatic) = true
  · have stuck : c.newMethod env key val .null = none := by
      unfold newMethod
      simp only [noName, ite_self, bind_null null]
      rfl
    rw [if_pos static, stuck] at run
    cases run
  · rw [if_neg static, bind_null null] at run
    cases run

end LVClass

/-! ## The heap -/

theorem update_eq_some {α : Type} {f : Nat → Option α} {a b : Nat} {x y : α} :
    Function.update f a (some x) b = some y ↔ b = a ∧ x = y ∨ b ≠ a ∧ f b = some y := by
  by_cases eq : b = a
  · subst eq
    simp
  · simp [eq]

namespace ClassHeap

variable {env : ClassEnv} {h h' : ClassHeap}

def Few (h : ClassHeap) : Prop := ∀ a c, h.classes a = some c → c.Few

/-- A base is a class that is older. -/
def Based (h : ClassHeap) : Prop :=
  ∀ a c b, h.classes a = some c → c.base = some b → b < a ∧ (h.classes b).isSome

structure Laid (env : ClassEnv) (h : ClassHeap) : Prop where
  classes : ∀ a c, h.classes a = some c → c.WellFormed env ∧ a < h.nclasses
  based : h.Based
  instances : ∀ i inst, h.instances i = some inst → ∃ c, h.classes inst.theclass = some c ∧
    c.locked = true ∧ inst.values.length = c.defaultvalues.length

theorem laid_empty : Laid env .empty where
  classes _ _ there := by cases there
  based _ _ _ there := by cases there
  instances _ _ there := by cases there

theorem few_empty : Few .empty := by
  intro a c there
  cases there

/-- The heap in which the classes that are marked are locked too. -/
def withLocks (h : ClassHeap) (marked : Nat → Bool) : ClassHeap :=
  { h with classes := fun a => (h.classes a).map fun c => { c with locked := c.locked || marked a } }

theorem withLocks_some {marked : Nat → Bool} {a : Nat} {c : LVClass}
    (there : (h.withLocks marked).classes a = some c) :
    ∃ c₀, h.classes a = some c₀ ∧ c = { c₀ with locked := c₀.locked || marked a } := by
  obtain ⟨c₀, there, eq⟩ := Option.map_eq_some_iff.mp there
  exact ⟨c₀, there, eq.symm⟩

theorem Based.withLocks (based : h.Based) (marked : Nat → Bool) : (h.withLocks marked).Based := by
  intro a c b there base
  obtain ⟨c₀, here, rfl⟩ := withLocks_some there
  obtain ⟨lt, older⟩ := based a c₀ b here base
  refine ⟨lt, ?_⟩
  rw [ClassHeap.withLocks, Option.isSome_map]
  exact older

theorem Laid.withLocks (laid : h.Laid env) (marked : Nat → Bool) : (h.withLocks marked).Laid env where
  classes a c there := by
    obtain ⟨c₀, here, rfl⟩ := withLocks_some there
    obtain ⟨wf, lt⟩ := laid.classes a c₀ here
    exact ⟨wf.of_members rfl le_rfl le_rfl rfl, lt⟩
  based := laid.based.withLocks marked
  instances i inst there := by
    obtain ⟨c, here, locked, length⟩ := laid.instances i inst there
    refine ⟨{ c with locked := c.locked || marked inst.theclass }, ?_, ?_, length⟩
    · simp only [ClassHeap.withLocks, here, Option.map_some]
    · simp only [locked, Bool.true_or]

theorem setClass_locked {a : Nat} {c : LVClass} (there : h.classes a = some c) :
    h.setClass a { c with locked := true } = h.withLocks (decide <| · = a) := by
  have classes : Function.update h.classes a (some { c with locked := true }) =
      (h.withLocks (decide <| · = a)).classes := by
    funext b
    by_cases eq : b = a
    · subst eq
      simp [withLocks, there]
    · simp [withLocks, eq]
  simp only [setClass, classes]
  rfl

theorem withLocks_withLocks (marked more : Nat → Bool) :
    (h.withLocks marked).withLocks more = h.withLocks fun a => marked a || more a := by
  unfold withLocks
  simp only [Option.map_map, Function.comp_def, Bool.or_assoc]

/-- `Lock` locks the class, and it ends because bases are older. -/
theorem lock_spec {fuel a : Nat} (based : h.Based) (older : a < fuel) (there : (h.classes a).isSome) :
    ∃ marked, lock fuel a h = some (h.withLocks marked) ∧ marked a = true := by
  induction fuel generalizing h a with
  | zero => omega
  | succ fuel ih =>
    obtain ⟨c, here⟩ := Option.isSome_iff_exists.mp there
    rw [lock, here]
    simp only [Option.bind_eq_bind, Option.bind_some, setClass_locked here]
    cases base : c.base with
    | none => exact ⟨_, rfl, decide_eq_true rfl⟩
    | some b =>
      obtain ⟨lt, below⟩ := based a c b here base
      have next := based.withLocks (decide <| · = a)
      have below : ((h.withLocks (decide <| · = a)).classes b).isSome := by
        rw [withLocks, Option.isSome_map]
        exact below
      obtain ⟨marked, run, -⟩ := ih next (by omega) below
      refine ⟨_, run.trans (congrArg some (withLocks_withLocks _ _)), ?_⟩
      simp

/-- The classes but the one at `except` have the same members, default values and methods. -/
def Kept (except : Nat → Prop) (h h' : ClassHeap) : Prop :=
  ∀ a c, h.classes a = some c → ¬ except a → ∃ c', h'.classes a = some c' ∧
    c'.members = c.members ∧ c'.defaultvalues = c.defaultvalues ∧ c'.methods = c.methods

theorem kept_of_classes {except : Nat → Prop} (same : h'.classes = h.classes) : Kept except h h' := by
  intro a c there _
  exact ⟨c, by rw [same, there], rfl, rfl, rfl⟩

theorem Laid.fresh (laid : h.Laid env) : h.classes h.nclasses = none := by
  cases there : h.classes h.nclasses with
  | none => rfl
  | some c =>
    have := (laid.classes _ c there).2
    omega

theorem Laid.addClass (laid : h.Laid env) {c : LVClass} (wf : c.WellFormed env)
    (base : ∀ b, c.base = some b → (h.classes b).isSome) :
    Laid env { h with
      classes := Function.update h.classes h.nclasses (some c), nclasses := h.nclasses + 1 } where
  classes a k there := by
    rcases update_eq_some.mp there with ⟨rfl, rfl⟩ | ⟨-, there⟩
    · exact ⟨wf, Nat.lt_succ_self _⟩
    · obtain ⟨wf, lt⟩ := laid.classes a k there
      exact ⟨wf, lt.trans (Nat.lt_succ_self _)⟩
  based a k b there isBase := by
    have older : b < a ∧ (h.classes b).isSome := by
      rcases update_eq_some.mp there with ⟨rfl, rfl⟩ | ⟨-, there⟩
      · have here := base b isBase
        obtain ⟨k, is⟩ := Option.isSome_iff_exists.mp here
        exact ⟨(laid.classes b k is).2, here⟩
      · exact laid.based a k b there isBase
    obtain ⟨k, is⟩ := Option.isSome_iff_exists.mp older.2
    have ne : b ≠ h.nclasses := (laid.classes b k is).2.ne
    refine ⟨older.1, ?_⟩
    show (Function.update h.classes h.nclasses (some c) b).isSome
    rw [Function.update_of_ne ne]
    exact older.2
  instances i inst there := by
    obtain ⟨k, here, rest⟩ := laid.instances i inst there
    have ne : inst.theclass ≠ h.nclasses := (laid.classes _ k here).2.ne
    exact ⟨k, (Function.update_of_ne ne _ _).trans here, rest⟩

theorem createClass_spec (laid : h.Laid env) {base : Option Nat}
    (there : ∀ b, base = some b → (h.classes b).isSome) :
    ∃ h', h.createClass env base = some h' ∧ h'.Laid env ∧ Kept (fun _ => False) h h' := by
  have made : ∃ c, h.newClass env base = some c ∧ c.WellFormed env ∧ c.base = base := by
    cases base with
    | none =>
      obtain ⟨inv, none⟩ := create_inv env.HashObj 0
      exact ⟨_, rfl, ⟨inv, fun k v binds => absurd binds (none k v), Or.inl rfl⟩, rfl⟩
    | some b =>
      obtain ⟨k, here⟩ := Option.isSome_iff_exists.mp (there b rfl)
      obtain ⟨wf, -⟩ := laid.classes b k here
      obtain ⟨members, cloned, inv, binds⟩ := clone_spec env.HashObj env.depth wf.table
      simp only [newClass, here, Option.bind_some, LVClass.create, cloned, Option.map_some]
      exact ⟨_, rfl, ⟨inv, fun key idx bound => wf.entries key idx ((binds key idx).mp bound),
        wf.constructoridx⟩, rfl⟩
  obtain ⟨c, run, wf, rfl⟩ := made
  refine ⟨_, by rw [createClass, run]; rfl, laid.addClass wf there, ?_⟩
  intro a k here _
  have ne : a ≠ h.nclasses := (laid.classes a k here).2.ne
  exact ⟨k, (Function.update_of_ne ne _ _).trans here, rfl, rfl, rfl⟩

theorem Laid.setClass (laid : h.Laid env) {a : Nat} {c c' : LVClass} (there : h.classes a = some c)
    (wf : c'.WellFormed env) (grown : c.Extends c') : (h.setClass a c').Laid env where
  classes b k here := by
    rcases update_eq_some.mp here with ⟨rfl, rfl⟩ | ⟨-, here⟩
    · exact ⟨wf, (laid.classes b c there).2⟩
    · exact laid.classes b k here
  based b k older here isBase := by
    have before : older < b ∧ (h.classes older).isSome := by
      rcases update_eq_some.mp here with ⟨rfl, rfl⟩ | ⟨-, here⟩
      · exact laid.based b c older there (grown.base.symm.trans isBase)
      · exact laid.based b k older here isBase
    refine ⟨before.1, ?_⟩
    show (Function.update h.classes a (some c') older).isSome
    by_cases eq : older = a
    · rw [eq, Function.update_self]
      rfl
    · rw [Function.update_of_ne eq]
      exact before.2
  instances i inst here := by
    obtain ⟨k, is, locked, length⟩ := laid.instances i inst here
    by_cases eq : inst.theclass = a
    · obtain rfl : k = c := Option.some.inj ((is.symm.trans (congrArg h.classes eq)).trans there)
      refine ⟨c', ?_, ?_, ?_⟩
      · show Function.update h.classes a (some c') inst.theclass = some c'
        rw [eq, Function.update_self]
      · rw [grown.locked, locked]
      · rw [grown.layout locked, length]
    · exact ⟨k, (Function.update_of_ne eq _ _).trans is, locked, length⟩

theorem newSlot_spec (laid : h.Laid env) (few : h.Few) {a : Nat} (there : (h.classes a).isSome)
    {key : LVObject} (notNull : key.type ≠ .OT_NULL) (val : LVObject) (bstatic : Bool) :
    ∃ b h', h.newSlot env a key val bstatic = some (b, h') ∧ h'.Laid env ∧ Kept (· = a) h h' := by
  obtain ⟨c, here⟩ := Option.isSome_iff_exists.mp there
  obtain ⟨wf, -⟩ := laid.classes a c here
  obtain ⟨b, c', run, wf', grown⟩ := LVClass.newSlot_spec wf (few a c here) notNull val bstatic
  refine ⟨b, h.setClass a c', ?_, laid.setClass here wf' grown, ?_⟩
  · rw [newSlot, here]
    simp only [Option.bind_eq_bind, Option.bind_some, run]
    rfl
  · intro other k is ne
    exact ⟨k, (Function.update_of_ne ne _ _).trans is, rfl, rfl, rfl⟩

theorem Laid.push (laid : h.Laid env) {a : Nat} {c : LVClass} (there : h.classes a = some c)
    (locked : c.locked = true) {values : List LVObject} (length : values.length = c.defaultvalues.length) :
    (h.push ⟨a, values⟩).Laid env where
  classes := laid.classes
  based := laid.based
  instances i inst here := by
    rcases update_eq_some.mp here with ⟨-, rfl⟩ | ⟨-, here⟩
    · exact ⟨c, there, locked, length⟩
    · exact laid.instances i inst here

theorem createInstance_spec (laid : h.Laid env) {a : Nat} (there : (h.classes a).isSome) :
    ∃ h', h.createInstance a = some h' ∧ h'.Laid env ∧ Kept (fun _ => False) h h' := by
  obtain ⟨c, here⟩ := Option.isSome_iff_exists.mp there
  have older := (laid.classes a c here).2
  have locking : ∃ marked, h.lockOnce a = some (h.withLocks marked) ∧
      (c.locked || marked a) = true := by
    rw [lockOnce, here]
    simp only [Option.bind_eq_bind, Option.bind_some]
    cases locked : c.locked with
    | false =>
      obtain ⟨marked, run, mark⟩ := lock_spec laid.based older there
      exact ⟨marked, run, mark⟩
    | true =>
      refine ⟨fun _ => false, ?_, rfl⟩
      simp [withLocks]
  obtain ⟨marked, run, mark⟩ := locking
  have now : (h.withLocks marked).classes a = some { c with locked := c.locked || marked a } := by
    simp only [withLocks, here, Option.map_some]
  have laid' := laid.withLocks marked
  refine ⟨(h.withLocks marked).push ⟨a, c.defaultvalues.map (·.val)⟩, ?_,
    laid'.push now mark (List.length_map _), ?_⟩
  · rw [createInstance, run]
    simp only [Option.bind_eq_bind, Option.bind_some, now]
    rfl
  · intro b k is _
    refine ⟨{ k with locked := k.locked || marked b }, ?_, rfl, rfl, rfl⟩
    show (h.withLocks marked).classes b = _
    simp only [withLocks, is, Option.map_some]

theorem Laid.setValues (laid : h.Laid env) {i : Nat} {inst : LVInstance}
    (there : h.instances i = some inst) {values : List LVObject}
    (length : values.length = inst.values.length) :
    Laid env { h with instances := Function.update h.instances i (some { inst with values := values }) }
    where
  classes := laid.classes
  based := laid.based
  instances j other here := by
    rcases update_eq_some.mp here with ⟨rfl, rfl⟩ | ⟨-, here⟩
    · obtain ⟨c, is, locked, same⟩ := laid.instances j inst there
      exact ⟨c, is, locked, length.trans same⟩
    · exact laid.instances j other here

theorem set_spec (laid : h.Laid env) (few : h.Few) {i : Nat} (there : (h.instances i).isSome)
    (key val : LVObject) :
    ∃ b h', h.set env i key val = some (b, h') ∧ h'.Laid env ∧ h'.classes = h.classes := by
  obtain ⟨inst, here⟩ := Option.isSome_iff_exists.mp there
  obtain ⟨c, is, locked, length⟩ := laid.instances i inst here
  obtain ⟨wf, -⟩ := laid.classes _ c is
  obtain ⟨found, get, entry⟩ := wf.get key
  rw [set, here]
  simp only [Option.bind_eq_bind, Option.bind_some, is, get]
  cases found with
  | none => exact ⟨false, h, rfl, laid, rfl⟩
  | some idx =>
    by_cases field : isfield idx = true
    · have denotes := wf.denotes (few _ c is) (entry idx rfl)
      rw [LVClass.Denotes, if_pos field, ← length] at denotes
      simp only [field, if_true, if_pos denotes]
      exact ⟨true, _, rfl, laid.setValues here (List.length_set ..), rfl⟩
    · simp only [if_neg field]
      exact ⟨false, h, rfl, laid, rfl⟩

theorem clone_spec (laid : h.Laid env) {i : Nat} (there : (h.instances i).isSome) :
    ∃ h', h.clone i = some h' ∧ h'.Laid env ∧ h'.classes = h.classes := by
  obtain ⟨inst, here⟩ := Option.isSome_iff_exists.mp there
  obtain ⟨c, is, locked, length⟩ := laid.instances i inst here
  rw [clone, here]
  simp only [Option.bind_eq_bind, Option.bind_some, is, if_pos length.ge]
  refine ⟨_, rfl, laid.push is locked ?_, rfl⟩
  rw [List.length_take, length, min_self]

end ClassHeap

/-! ## Sequences of operations -/

namespace Operation

/-- The class that an operation is a `NewSlot` of. -/
def Modifies (a : Nat) : Operation → Prop
  | .newSlot address _ _ _ => a = address
  | _ => False

/-- What the operation is about exists, and its key is not null. -/
def On (h : ClassHeap) : Operation → Prop
  | .create base => ∀ b, base = some b → (h.classes b).isSome
  | .newSlot address key _ _ => (h.classes address).isSome ∧ key.type ≠ .OT_NULL
  | .createInstance address => (h.classes address).isSome
  | .set inst _ _ => (h.instances inst).isSome
  | .clone inst => (h.instances inst).isSome

variable {env : ClassEnv} {h h' : ClassHeap} {op : Operation}

theorem apply_spec (laid : h.Laid env) (few : h.Few) (on : op.On h) :
    ∃ h', op.apply env h = some h' ∧ h'.Laid env ∧ ClassHeap.Kept op.Modifies h h' := by
  cases op with
  | create base => exact ClassHeap.createClass_spec laid on
  | newSlot address key val bstatic =>
    obtain ⟨b, h', run, spec⟩ := ClassHeap.newSlot_spec laid few on.1 on.2 val bstatic
    exact ⟨h', by rw [apply, run]; rfl, spec⟩
  | createInstance address => exact ClassHeap.createInstance_spec laid on
  | set inst key val =>
    obtain ⟨b, h', run, laid', same⟩ := ClassHeap.set_spec laid few on key val
    exact ⟨h', by rw [apply, run]; rfl, laid', ClassHeap.kept_of_classes same⟩
  | clone inst =>
    obtain ⟨h', run, laid', same⟩ := ClassHeap.clone_spec laid on
    exact ⟨h', run, laid', ClassHeap.kept_of_classes same⟩

/-- An operation that is not `On` what there is either stops, or changes nothing. -/
theorem on_or_same (run : op.apply env h = some h') : op.On h ∨ h' = h := by
  cases op with
  | create base =>
    refine Or.inl fun b eq => ?_
    subst eq
    cases there : h.classes b with
    | none =>
      simp only [apply, ClassHeap.createClass, ClassHeap.newClass, there] at run
      cases run
    | some c => rfl
  | newSlot address key val bstatic =>
    obtain ⟨r, ran, rfl⟩ := Option.map_eq_some_iff.mp run
    obtain ⟨c, there, within⟩ := Option.bind_eq_some_iff.mp ran
    obtain ⟨⟨b, c'⟩, made, eq⟩ := Option.bind_eq_some_iff.mp within
    cases eq
    by_cases null : key.type = .OT_NULL
    · obtain rfl := LVClass.newSlot_null null made
      refine Or.inr ?_
      show { h with classes := Function.update h.classes address (some c') } = h
      rw [← there, Function.update_eq_self]
    · refine Or.inl ⟨?_, null⟩
      rw [there]
      rfl
  | createInstance address =>
    obtain ⟨h₁, locked, -⟩ := Option.bind_eq_some_iff.mp run
    obtain ⟨c, there, -⟩ := Option.bind_eq_some_iff.mp locked
    exact Or.inl (Option.isSome_iff_exists.mpr ⟨c, there⟩)
  | set inst key val =>
    obtain ⟨r, stored, -⟩ := Option.map_eq_some_iff.mp run
    obtain ⟨i, there, -⟩ := Option.bind_eq_some_iff.mp stored
    exact Or.inl (Option.isSome_iff_exists.mpr ⟨i, there⟩)
  | clone inst =>
    obtain ⟨i, there, -⟩ := Option.bind_eq_some_iff.mp run
    exact Or.inl (Option.isSome_iff_exists.mpr ⟨i, there⟩)

theorem apply_laid (laid : h.Laid env) (few : h.Few) (run : op.apply env h = some h') :
    h'.Laid env ∧ ClassHeap.Kept op.Modifies h h' := by
  rcases on_or_same run with on | rfl
  · obtain ⟨h₁, run₁, spec⟩ := apply_spec laid few on
    cases run.symm.trans run₁
    exact spec
  · exact ⟨laid, ClassHeap.kept_of_classes rfl⟩

end Operation

theorem Reaches.laid {env : ClassEnv} {h : ClassHeap} (reached : Reaches env h) :
    h.Laid env ∧ h.Few := by
  induction reached with
  | empty => exact ⟨ClassHeap.laid_empty, ClassHeap.few_empty⟩
  | step op before run few ih => exact ⟨(Operation.apply_laid ih.1 ih.2 run).1, few⟩

/-- Wherever a sequence of operations has led to, the entries of a class denote what it
has, its constructor is one of its methods, and an instance has the values its class has
default values for; and the next operation, if it is not a `NewSlot` of a class itself,
leaves that class's members, default values and methods alone. -/
theorem layout {env : ClassEnv} {h : ClassHeap} (reached : Reaches env h) :
    (∀ a c, h.classes a = some c → (∀ key idx, c.members.Binds key idx → c.Denotes idx) ∧
      (c.constructoridx = -1 ∨ ∃ i < c.methods.length, c.constructoridx = i)) ∧
    (∀ i inst, h.instances i = some inst → ∃ c, h.classes inst.theclass = some c ∧
      inst.values.length = c.defaultvalues.length) ∧
    (∀ op : Operation, op.On h → (op.apply env h).isSome) ∧
    ∀ (op : Operation) (h' : ClassHeap), op.apply env h = some h' →
      ∀ a c, h.classes a = some c → ¬ op.Modifies a → ∃ c', h'.classes a = some c' ∧
        c'.members = c.members ∧ c'.defaultvalues = c.defaultvalues ∧ c'.methods = c.methods := by
  obtain ⟨laid, few⟩ := reached.laid
  refine ⟨fun a c there => ?_, fun i inst there => ?_, fun op on => ?_, fun op h' run => ?_⟩
  · obtain ⟨wf, -⟩ := laid.classes a c there
    exact ⟨fun key idx binds => wf.denotes (few a c there) binds, wf.constructoridx⟩
  · obtain ⟨c, is, -, length⟩ := laid.instances i inst there
    exact ⟨c, is, length⟩
  · obtain ⟨h', run, -⟩ := Operation.apply_spec laid few on
    rw [run]
    rfl
  · exact (Operation.apply_laid laid few run).2

/-- A class with no members, and its first instance. -/
theorem layout_firstInstance :
    ∃ h : ClassHeap, (h.instances 0).isSome ∧ ∀ i inst, h.instances i = some inst →
      ∃ c, h.classes inst.theclass = some c ∧ inst.values.length = c.defaultvalues.length := by
  have created : Reaches ⟨fun _ => 0, 0, fun _ => .null, fun _ o => o⟩ _ :=
    Reaches.step (.create none) .empty rfl fun a c there => by
      rcases update_eq_some.mp there with ⟨-, rfl⟩ | ⟨-, there⟩
      · exact ⟨by decide, by decide⟩
      · cases there
  have instantiated := Reaches.step (.createInstance 0) created rfl fun a c there => by
    rcases update_eq_some.mp there with ⟨-, rfl⟩ | ⟨-, there⟩
    · exact ⟨by decide, by decide⟩
    · rcases update_eq_some.mp there with ⟨-, rfl⟩ | ⟨-, there⟩
      · exact ⟨by decide, by decide⟩
      · cases there
  exact ⟨_, rfl, (layout instantiated).2.1⟩

end Classes
end Lavril
