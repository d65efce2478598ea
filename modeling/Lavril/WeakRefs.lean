import Lavril.WeakLinks

/-!
# Weak references over a run

Counts are right, the links between objects and weak references are kept, and what a
destructor has still to free has no references. A step keeps these unless it sets the
root of a closure to the root that it has and nothing else refers to.
-/

namespace Lavril

def LVRefCounted.link (c : LVRefCounted) : Link := ⟨c.type, c.weakref, c.obj, c.target⟩

/-- The part of an object that destructors have to do with. -/
def LVRefCounted.tally (c : LVRefCounted) : LVObjectType × Int × List Reference :=
  (c.type, c.uiRef, c.owned)

/-- The pointers to an address are cleared. -/
def LVRefCounted.forget (a : Nat) (c : LVRefCounted) : LVRefCounted :=
  { c with
    weakref := if c.weakref = some a then none else c.weakref
    obj := if c.obj.map (·.pRefCounted) = some a then none else c.obj }

namespace Memory

def link (s : Memory) (a : Nat) : Option Link := (s.live a).map LVRefCounted.link

/-- There are `out r` references that are `r`, and they go to objects of their type. -/
structure Counted (s : Memory) (out : Reference → Nat) : Prop where
  count {a c} : s.live a = some c → c.uiRef = out ⟨c.type, a⟩
  held {r} : 0 < out r → ∃ c, s.live r.pRefCounted = some c ∧ c.type = r.type

/-- The objects that destructors have still to free. -/
structure Ending (s : Memory) : Prop where
  destruct {a} : .destruct a ∈ s.pending →
    ∃ c, s.live a = some c ∧ c.type ≠ .OT_WEAKREF ∧ c.uiRef = 0 ∧ c.owned = []
  once (a) : s.pending.count (.destruct a) ≤ 1

structure Sound (s : Memory) (out : Reference → Nat) : Prop where
  counted : s.Counted out
  linked : Linked s.link s.objects.length
  ending : s.Ending

variable {s s' : Memory} {out out' : Reference → Nat} {a b : Nat} {c : LVRefCounted}
  {f : LVRefCounted → LVRefCounted} {r : Reference}

theorem link_of_live (alive : s.live a = some c) : s.link a = some c.link := by
  rw [link, alive, Option.map_some]

theorem live_of_link {l : Link} (h : s.link a = some l) : ∃ c, s.live a = some c ∧ c.link = l :=
  Option.map_eq_some_iff.mp h

/-! ## Parts of objects that change alone -/

theorem link_modify (keeps : ∀ c, (f c).freed = c.freed) (same : ∀ c, (f c).link = c.link) :
    (s.modify a f).link = s.link := by
  funext b
  rw [link, link, live_modify keeps]
  split
  · rw [Option.map_map]
    exact congrArg (Option.map · _) (funext same)
  · rfl

namespace Counted

theorem modify (counted : s.Counted out) (keeps : ∀ c, (f c).freed = c.freed)
    (types : ∀ c, (f c).type = c.type)
    (count : ∀ c, s.live a = some c → (f c).uiRef = out' ⟨c.type, a⟩)
    (others : ∀ r, r.pRefCounted ≠ a → out' r = out r)
    (held : ∀ r, r.pRefCounted = a → 0 < out' r → s.typeOf a = some r.type) :
    (s.modify a f).Counted out' where
  count {b c} alive := by
    rw [live_modify keeps] at alive
    split at alive
    · rename_i eq
      subst eq
      obtain ⟨c₀, alive₀, rfl⟩ := Option.map_eq_some_iff.mp alive
      rw [types]
      exact count c₀ alive₀
    · rename_i ne
      rw [others _ fun eq => ne eq.symm]
      exact counted.count alive
  held {r} pos := by
    rw [live_modify keeps]
    by_cases eq : r.pRefCounted = a
    · obtain ⟨c, alive, type⟩ := Option.map_eq_some_iff.mp (held r eq pos)
      exact ⟨f c, by rw [if_pos eq.symm, eq, alive, Option.map_some], (types c).trans type⟩
    · rw [if_neg (Ne.symm eq)]
      exact counted.held (others r eq ▸ pos)

theorem same (counted : s.Counted out) (keeps : ∀ c, (f c).freed = c.freed)
    (types : ∀ c, (f c).type = c.type) (counts : ∀ c, (f c).uiRef = c.uiRef) :
    (s.modify a f).Counted out := by
  refine counted.modify keeps types (fun c alive => (counts c).trans (counted.count alive))
    (fun _ _ => rfl) fun r eq pos => ?_
  obtain ⟨c, alive, type⟩ := counted.held pos
  rw [typeOf, ← eq, alive, Option.map_some, type]

theorem addRef (counted : s.Counted out) (typed : s.typeOf r.pRefCounted = some r.type) :
    (s.AddRef r.pRefCounted).Counted fun x => out x + [r].count x := by
  refine counted.modify (fun _ => rfl) (fun _ => rfl) (fun c alive => ?_) (fun x ne => ?_)
    fun x eq pos => ?_
  · have type : c.type = r.type := by simpa [typeOf, alive] using typed
    simp [counted.count alive, type]
  · simp only [List.count_singleton, beq_iff_eq]
    rw [if_neg (fun eq => ne (congrArg Reference.pRefCounted eq.symm))]
    omega
  · by_cases same : r = x
    · rw [typed, same]
    · simp only [List.count_singleton, beq_iff_eq, if_neg same] at pos
      obtain ⟨c, alive, type⟩ := counted.held pos
      rw [typeOf, ← eq, alive, Option.map_some, type]

theorem decRef (counted : s.Counted fun x => out x + [r].count x) :
    (s.decRef r.pRefCounted).Counted out := by
  obtain ⟨c, alive, type⟩ := counted.held (r := r) (by simp)
  refine counted.modify (fun _ => rfl) (fun _ => rfl) (fun c' alive' => ?_) (fun x ne => ?_)
    fun x eq pos => ?_
  · rw [alive] at alive'
    cases alive'
    have := counted.count alive
    rw [type, List.count_singleton_self] at this
    rw [type]
    push_cast at this
    dsimp only
    omega
  · simp only [List.count_singleton, beq_iff_eq]
    rw [if_neg (fun eq => ne (congrArg Reference.pRefCounted eq.symm))]
    omega
  · obtain ⟨c', alive', type'⟩ := counted.held (r := x) (by omega)
    rw [typeOf, ← eq, alive', Option.map_some, type']

theorem append (counted : s.Counted out) (fresh : c.freed = false) (zero : c.uiRef = 0) :
    (s.append c).Counted out where
  count {b c'} alive := by
    rw [live_append fresh] at alive
    split at alive
    · cases alive
      rename_i eq
      have none : out ⟨c.type, b⟩ = 0 := by
        by_contra ne
        obtain ⟨d, alive, -⟩ := counted.held (Nat.pos_of_ne_zero ne)
        have := lt_of_live alive
        dsimp only at this
        omega
      rw [zero, none]
      rfl
    · exact counted.count alive
  held {r} pos := by
    obtain ⟨d, alive, type⟩ := counted.held pos
    have := lt_of_live alive
    exact ⟨d, by rw [live_append fresh, if_neg (by omega), alive], type⟩

/-- An object without references goes. -/
theorem free (counted : s.Counted out) (alive : s.live a = some c) (zero : c.uiRef = 0)
    (live : ∀ b, (s'.live b).map (fun c => (c.type, c.uiRef)) =
      if b = a then none else (s.live b).map fun c => (c.type, c.uiRef)) : s'.Counted out where
  count {b d} alive' := by
    have now := live b
    rw [alive', Option.map_some] at now
    split at now
    · cases now
    · obtain ⟨d₀, alive₀, eq⟩ := Option.map_eq_some_iff.mp now.symm
      obtain ⟨type, uiRef⟩ := Prod.mk.inj eq
      rw [← type, ← uiRef]
      exact counted.count alive₀
  held {r} pos := by
    obtain ⟨d, alive', type⟩ := counted.held pos
    have now := live r.pRefCounted
    have ne : r.pRefCounted ≠ a := by
      intro eq
      rw [eq, alive] at alive'
      cases alive'
      have := counted.count alive
      rw [type, ← eq, zero] at this
      have : out r = 0 := by exact_mod_cast this.symm
      omega
    rw [if_neg ne, alive', Option.map_some] at now
    obtain ⟨d', alive'', eq⟩ := Option.map_eq_some_iff.mp now
    exact ⟨d', alive'', (Prod.mk.inj eq).1.trans type⟩

end Counted

/-! ## Destructors -/

/-- What `~LVRefCounted` does when only `_weakref` of the object says who points to it. -/
theorem live_destruct (alive : s.live a = some c)
    (weak : ∀ b d, b ≠ a → s.live b = some d → d.weakref ≠ some a)
    (obj : ∀ b d, b ≠ a → s.live b = some d →
      (d.obj.map (·.pRefCounted) = some a ↔ c.weakref = some b)) (b : Nat) :
    (s.destruct a).live b = if b = a then none else (s.live b).map (·.forget a) := by
  have get := objects_of_live alive
  by_cases eq : b = a
  · rw [if_pos eq, destruct, live_free, if_pos eq.symm]
  · rw [if_neg eq, destruct, live_free, if_neg (Ne.symm eq), get, Option.bind_some]
    cases there : s.live b with
    | none =>
      cases c.weakref with
      | none => exact there
      | some u =>
        dsimp only
        rw [live_modify (f := fun d => { d with obj := none }) fun _ => rfl, there]
        split <;> rfl
    | some d =>
      have weak := weak b d eq there
      have obj := obj b d eq there
      cases h : c.weakref with
      | none =>
        rw [h] at obj
        rw [there, Option.map_some, LVRefCounted.forget, if_neg weak,
          if_neg (fun points => by cases obj.mp points)]
      | some u =>
        rw [h, Option.some.injEq] at obj
        dsimp only
        rw [live_modify (f := fun d => { d with obj := none }) fun _ => rfl, there]
        simp only [Option.map_some, LVRefCounted.forget, if_neg weak]
        by_cases here : u = b
        · rw [if_pos here, if_pos (obj.mpr here)]
        · rw [if_neg here, if_neg (fun points => here (obj.mp points))]

theorem points_iff (linked : Linked s.link s.objects.length) {d : LVRefCounted}
    (alive : s.live a = some c) (there : s.live b = some d) :
    d.obj.map (·.pRefCounted) = some a ↔ c.weakref = some b := by
  constructor
  · intro points
    obtain ⟨r, obj, eq⟩ := Option.map_eq_some_iff.mp points
    obtain ⟨-, -, l, at_r, -, weakref⟩ := linked.back (link_of_live there) obj
    rw [eq, link_of_live alive] at at_r
    cases at_r
    exact weakref
  · intro weakref
    obtain ⟨l, at_b, -, obj⟩ := linked.weak (link_of_live alive) weakref
    rw [link_of_live there] at at_b
    cases at_b
    exact (congrArg (Option.map _) obj).trans rfl

/-- An object of another kind is pointed to by its own weak reference only. -/
theorem live_destruct_of_linked (linked : Linked s.link s.objects.length)
    (alive : s.live a = some c) (plain : c.obj = none) (b : Nat) :
    (s.destruct a).live b = if b = a then none else (s.live b).map (·.forget a) := by
  refine live_destruct alive (fun b d _ there weakref => ?_)
    (fun b d _ there => points_iff linked alive there) b
  have := (points_iff linked there alive).mpr weakref
  rw [plain] at this
  cases this

theorem live_releaseWeakRef (linked : Linked s.link s.objects.length)
    (alive : s.live a = some c) (b : Nat) :
    (s.releaseWeakRef a).live b = if b = a then none else (s.live b).map (·.forget a) := by
  rw [releaseWeakRef, objects_of_live alive, Option.bind_some]
  cases obj : c.obj with
  | none => exact live_destruct_of_linked linked alive obj b
  | some o =>
    obtain ⟨-, -, l, at_o, type, weakref⟩ := linked.back (link_of_live alive) obj
    obtain ⟨e, alive_o, rfl⟩ := live_of_link at_o
    dsimp only
    set s₁ := s.modify o.pRefCounted fun c => { c with weakref := none }
    have live₁ (b : Nat) : s₁.live b = if o.pRefCounted = b then
        (s.live b).map (fun c => { c with weakref := none }) else s.live b :=
      live_modify fun _ => rfl
    obtain ⟨c₁, alive₁, weakref₁⟩ : ∃ c₁, s₁.live a = some c₁ ∧
        (o.pRefCounted ≠ a → c₁.weakref = c.weakref) := by
      by_cases eq : o.pRefCounted = a
      · exact ⟨_, by rw [live₁, if_pos eq, alive, Option.map_some], fun ne => absurd eq ne⟩
      · exact ⟨c, by rw [live₁, if_neg eq, alive], fun _ => rfl⟩
    have before {b : Nat} {d : LVRefCounted} (there : s₁.live b = some d) :
        ∃ d₀, s.live b = some d₀ ∧ d.obj = d₀.obj ∧
          d.weakref = if o.pRefCounted = b then none else d₀.weakref := by
      rw [live₁] at there
      split at there
      · rename_i eq
        obtain ⟨d₀, there₀, rfl⟩ := Option.map_eq_some_iff.mp there
        exact ⟨d₀, there₀, rfl, (if_pos eq).symm⟩
      · rename_i ne
        exact ⟨d, there, rfl, (if_neg ne).symm⟩
    rw [live_destruct alive₁ ?weak ?obj]
    case weak =>
      intro b d _ there weak
      obtain ⟨d₀, there₀, -, eq⟩ := before there
      rw [eq] at weak
      split at weak
      · cases weak
      · rename_i ne
        have points := (points_iff linked there₀ alive).mpr weak
        rw [obj, Option.map_some, Option.some.injEq] at points
        exact ne points
    case obj =>
      intro b d ne there
      obtain ⟨d₀, there₀, eq, -⟩ := before there
      rw [eq, points_iff linked alive there₀]
      by_cases self : o.pRefCounted = a
      · have : c.weakref = some a := by
          rw [self, alive] at alive_o
          cases alive_o
          exact weakref
        rw [live₁, if_pos self, alive] at alive₁
        cases alive₁
        simp [this, Ne.symm ne]
      · rw [weakref₁ self]
    by_cases eq : b = a
    · rw [if_pos eq, if_pos eq]
    · rw [if_neg eq, if_neg eq, live₁]
      split
      · rename_i here
        rw [← here, alive_o, Option.map_some, Option.map_some, Option.map_some]
        have : e.weakref = some a := weakref
        simp [LVRefCounted.forget, this]
      · rfl

theorem owned_of_weakref (type : c.type = .OT_WEAKREF) : c.owned = [] := by
  rw [LVRefCounted.owned, if_pos (.inr type)]

@[simp] theorem destruct_pending : (s.destruct a).pending = s.pending := by
  rw [destruct]
  cases (s.objects[a]?).bind (·.weakref) <;> rfl

@[simp] theorem destruct_length : (s.destruct a).objects.length = s.objects.length := by
  rw [destruct, modify_length]
  cases (s.objects[a]?).bind (·.weakref) with
  | none => rfl
  | some w => exact modify_length

@[simp] theorem releaseWeakRef_pending : (s.releaseWeakRef a).pending = s.pending := by
  rw [releaseWeakRef]
  cases (s.objects[a]?).bind (·.obj) <;> simp

@[simp] theorem releaseWeakRef_length :
    (s.releaseWeakRef a).objects.length = s.objects.length := by
  rw [releaseWeakRef]
  cases (s.objects[a]?).bind (·.obj) <;> simp

theorem count_destruct (get : s.objects[a]? = some c) (empty : c.owned = []) (r : Reference) :
    (s.destruct a).count r = s.count r := by
  have freed {s : Memory} {c : LVRefCounted} (get : s.objects[a]? = some c) (empty : c.owned = []) :
      (s.modify a fun c => { c with freed := true }).count r = s.count r := by
    have counts := count_modify (f := fun c => { c with freed := true }) get r
    have none : ({ c with freed := true } : LVRefCounted).owned = [] := by simp [LVRefCounted.owned]
    rw [empty, none] at counts
    exact counts
  rw [destruct, get, Option.bind_some]
  cases c.weakref with
  | none => exact freed get empty
  | some u =>
    dsimp only
    have reset : (s.modify u fun d => { d with obj := none }).count r = s.count r :=
      count_modify_same (f := fun d => { d with obj := none }) (fun _ => rfl) r
    rw [← reset]
    by_cases eq : u = a
    · exact freed (c := { c with obj := none }) (by rw [objects_modify, if_pos eq, get]; rfl) empty
    · exact freed (by rw [objects_modify, if_neg eq, get]) empty

theorem count_releaseWeakRef (alive : s.live a = some c) (type : c.type = .OT_WEAKREF)
    (r : Reference) : (s.releaseWeakRef a).count r = s.count r := by
  have get := objects_of_live alive
  have empty := owned_of_weakref type
  rw [releaseWeakRef, get, Option.bind_some]
  cases c.obj with
  | none => exact count_destruct get empty r
  | some o =>
    dsimp only
    have reset : (s.modify o.pRefCounted fun d => { d with weakref := none }).count r = s.count r :=
      count_modify_same (f := fun d => { d with weakref := none }) (fun _ => rfl) r
    rw [← reset]
    by_cases eq : o.pRefCounted = a
    · exact count_destruct (c := { c with weakref := none })
        (by rw [objects_modify, if_pos eq, get]; rfl) empty r
    · exact count_destruct (by rw [objects_modify, if_neg eq, get]) empty r

theorem Ending.congr (ending : s.Ending) (pending : s'.pending = s.pending)
    (live : ∀ b, .destruct b ∈ s.pending →
      (s'.live b).map LVRefCounted.tally = (s.live b).map LVRefCounted.tally) : s'.Ending where
  destruct {b} mem := by
    rw [pending] at mem
    obtain ⟨c, alive, rest⟩ := ending.destruct mem
    have now := live b mem
    rw [alive, Option.map_some] at now
    obtain ⟨c', alive', eq⟩ := Option.map_eq_some_iff.mp now
    obtain ⟨type, uiRef, owned⟩ : c'.type = c.type ∧ c'.uiRef = c.uiRef ∧ c'.owned = c.owned := by
      simpa [LVRefCounted.tally] using eq
    exact ⟨c', alive', by rwa [type, uiRef, owned]⟩
  once b := by
    rw [pending]
    exact ending.once b

/-- An object without references goes, and no pointer to it is left. -/
theorem Sound.free (sound : s.Sound out) (alive : s.live a = some c) (zero : c.uiRef = 0)
    (idle : .destruct a ∉ s.pending)
    (live : ∀ b, s'.live b = if b = a then none else (s.live b).map (·.forget a))
    (pending : s'.pending = s.pending) (length : s'.objects.length = s.objects.length) :
    s'.Sound out where
  counted := by
    refine sound.counted.free alive zero fun b => ?_
    rw [live]
    split
    · rfl
    · rw [Option.map_map]
      rfl
  linked := by
    have : s'.link = fun b => if b = a then none else (s.link b).map (·.forget a) := by
      funext b
      rw [link, live]
      split
      · rfl
      · rw [Option.map_map, link, Option.map_map]
        rfl
    rw [this, length]
    exact sound.linked.free a
  ending := by
    refine sound.ending.congr pending fun b mem => ?_
    have ne : b ≠ a := by
      rintro rfl
      exact idle mem
    rw [live, if_neg ne, Option.map_map]
    rfl

/-- What is counted of an object that `clear` changes is what is left to do. -/
theorem count_releaseObject (alive : s.live a = some c) (r : Reference) :
    (s.releaseObject a).count r = s.count r := by
  have get := objects_of_live alive
  have cleared := count_modify (f := LVRefCounted.clear) get r
  have none : c.clear.owned = [] := by simp [LVRefCounted.owned, LVRefCounted.clear]
  have pending (l : List Reference) :
      (l.map Destruction.release).flatMap Destruction.references = l := by
    induction l with
    | nil => rfl
    | cons x l ih =>
      rw [List.map_cons, List.flatMap_cons, ih]
      rfl
  rw [none, List.count_nil, Nat.add_zero] at cleared
  rw [← cleared]
  simp only [releaseObject, get, Option.map_some, Option.getD_some, count, references,
    modify, List.flatMap_append, List.flatMap_cons, List.count_append, pending,
    Destruction.references, List.count_nil]
  omega

theorem Sound.releaseObject (sound : s.Sound out) (alive : s.live a = some c) (zero : c.uiRef = 0)
    (plain : c.type ≠ .OT_WEAKREF) (idle : .destruct a ∉ s.pending) :
    (s.releaseObject a).Sound out := by
  have keeps : ∀ c : LVRefCounted, c.clear.freed = c.freed := fun _ => rfl
  have live (b : Nat) : (s.releaseObject a).live b =
      if a = b then (s.live b).map LVRefCounted.clear else s.live b := live_modify keeps
  constructor
  case counted =>
    have counted := sound.counted.same (a := a) keeps (fun _ => rfl) fun _ => rfl
    exact ⟨counted.count, counted.held⟩
  case linked =>
    have same : (s.releaseObject a).link = s.link := link_modify keeps fun _ => rfl
    have length : (s.releaseObject a).objects.length = s.objects.length := modify_length
    rw [same, length]
    exact sound.linked
  case ending =>
    have notMem (b : Nat) : .destruct b ∉ (((s.objects[a]?).map LVRefCounted.owned).getD []).map
        Destruction.release := by simp
    constructor
    case destruct =>
      intro b mem
      rw [live]
      by_cases eq : a = b
      · subst eq
        exact ⟨c.clear, by rw [if_pos rfl, alive, Option.map_some], plain, zero,
          by simp [LVRefCounted.owned, LVRefCounted.clear]⟩
      · rw [if_neg eq]
        refine sound.ending.destruct ?_
        simp only [Memory.releaseObject, List.mem_append, List.mem_cons] at mem
        rcases mem with mem | mem | mem
        · exact absurd mem (notMem b)
        · cases mem
          exact absurd rfl eq
        · exact mem
    case once =>
      intro b
      have once := sound.ending.once b
      simp only [Memory.releaseObject, List.count_append, List.count_cons,
        List.count_eq_zero.mpr (notMem b)]
      by_cases eq : a = b
      · subst eq
        rw [List.count_eq_zero.mpr idle]
        simp
      · simp [eq, once]

end Memory

end Lavril
