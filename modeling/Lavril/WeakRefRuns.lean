import Lavril.WeakRefs

/-!
# Weak references and the actions on objects

Every action keeps counts and links right, and a weak reference never gives an object
that is released. `SetRoot` releases the old root before it takes the new one, so it
frees the weak reference that it is about to store when both are the same and nothing
else refers to it; every other action is safe without conditions.
-/

namespace Lavril

/-- What an object has of its own: its type and the references it holds. -/
def LVRefCounted.contents (c : LVRefCounted) :
    LVObjectType × List Reference × Option Nat × Option Nat :=
  (c.type, c.members, c.root, c.env)

namespace Memory

variable {s s' : Memory} {out : Reference → Nat} {a b w : Nat} {c : LVRefCounted}
  {f : LVRefCounted → LVRefCounted} {r : Reference}

def contents (s : Memory) (a : Nat) :
    Option (LVObjectType × List Reference × Option Nat × Option Nat) :=
  (s.live a).map LVRefCounted.contents

theorem live_of_contents (same : s'.contents a = s.contents a) (alive : s.live a = some c) :
    ∃ c', s'.live a = some c' ∧ c'.contents = c.contents := by
  rw [contents, contents, alive, Option.map_some] at same
  exact Option.map_eq_some_iff.mp same

theorem typeOf_of_contents (same : s'.contents a = s.contents a) : s'.typeOf a = s.typeOf a := by
  have := congrArg (Option.map Prod.fst) same
  simp only [contents, Option.map_map] at this
  exact this

theorem type_of_contents {c c' : LVRefCounted} (same : c'.contents = c.contents) :
    c'.type = c.type :=
  congrArg Prod.fst same

theorem contents_modify (keeps : ∀ c, (f c).freed = c.freed)
    (same : ∀ c, (f c).contents = c.contents) : (s.modify a f).contents b = s.contents b := by
  rw [contents, contents, live_modify keeps]
  split
  · rw [Option.map_map]
    exact congrArg (Option.map · _) (funext same)
  · rfl

theorem owned_le_count (alive : s.live a = some c) (r : Reference) :
    c.owned.count r ≤ s.count r := by
  have cleared := count_modify (f := LVRefCounted.clear) (objects_of_live alive) r
  have none : c.clear.owned = [] := by simp [LVRefCounted.owned, LVRefCounted.clear]
  rw [none, List.count_nil] at cleared
  omega

/-! ## Releasing a reference -/

theorem Sound.decRef (sound : s.Sound fun x => out x + [r].count x) :
    (s.decRef r.pRefCounted).Sound out := by
  constructor
  case counted => exact sound.counted.decRef
  case linked =>
    have same : (s.decRef r.pRefCounted).link = s.link := link_modify (fun _ => rfl) fun _ => rfl
    have length : (s.decRef r.pRefCounted).objects.length = s.objects.length := modify_length
    rw [same, length]
    exact sound.linked
  case ending =>
    refine sound.ending.congr rfl fun b mem => ?_
    obtain ⟨c, alive, -, zero, -⟩ := sound.ending.destruct mem
    have ne : r.pRefCounted ≠ b := by
      rintro rfl
      obtain ⟨c', alive', type⟩ := sound.counted.held (r := r) (by simp)
      have count := sound.counted.count alive'
      rw [alive] at alive'
      cases alive'
      rw [type, List.count_singleton_self] at count
      omega
    rw [Memory.decRef, live_modify (f := fun c => { c with uiRef := c.uiRef - 1 }) fun _ => rfl,
      if_neg ne]

/-- The object of a reference that is given up, when its count has been decreased. -/
theorem Sound.live_decRef (sound : s.Sound fun x => out x + [r].count x) :
    ∃ c, s.live r.pRefCounted = some c ∧ c.type = r.type ∧ .destruct r.pRefCounted ∉ s.pending ∧
      (s.decRef r.pRefCounted).live r.pRefCounted = some { c with uiRef := c.uiRef - 1 } := by
  obtain ⟨c, alive, type⟩ := sound.counted.held (r := r) (by simp)
  refine ⟨c, alive, type, fun mem => ?_, ?_⟩
  · obtain ⟨c', alive', -, zero, -⟩ := sound.ending.destruct mem
    have count := sound.counted.count alive
    rw [alive] at alive'
    cases alive'
    rw [type, List.count_singleton_self] at count
    omega
  · rw [Memory.decRef, live_modify (f := fun c => { c with uiRef := c.uiRef - 1 }) fun _ => rfl,
      if_pos rfl, alive, Option.map_some]

theorem Sound.release (sound : s.Sound fun x => out x + [r].count x) :
    (s.release r).Sound out ∧ ∀ x, (s.release r).count x = s.count x := by
  obtain ⟨c, -, type, idle, alive⟩ := sound.live_decRef
  have sound' := sound.decRef
  have same (x : Reference) : (s.decRef r.pRefCounted).count x = s.count x :=
    count_modify_same (f := fun c => { c with uiRef := c.uiRef - 1 }) (fun _ => rfl) x
  rw [Memory.release, objects_of_live alive, Option.map_some]
  by_cases zero : c.uiRef - 1 = 0
  · rw [if_pos (congrArg some zero), Release]
    by_cases weak : r.type = .OT_WEAKREF
    · rw [if_pos weak]
      refine ⟨sound'.free alive zero idle (live_releaseWeakRef sound'.linked alive)
        releaseWeakRef_pending releaseWeakRef_length, fun x => ?_⟩
      rw [count_releaseWeakRef alive (type.trans weak), same]
    · rw [if_neg weak]
      refine ⟨sound'.releaseObject alive zero (fun eq => weak (type.symm.trans eq)) idle,
        fun x => ?_⟩
      rw [count_releaseObject alive, same]
  · rw [if_neg fun eq => zero (Option.some.inj eq)]
    exact ⟨sound', same⟩

/-- Releasing a weak reference changes nothing that other objects hold, and frees the
weak reference only when it was the last one to it. -/
theorem Sound.contents_release (sound : s.Sound fun x => out x + [r].count x)
    (weak : r.type = .OT_WEAKREF)
    (kept : b ≠ r.pRefCounted ∨ ∀ d, s.live b = some d → d.uiRef ≠ 1) :
    (s.release r).contents b = s.contents b ∧ (s.release r).pending = s.pending := by
  obtain ⟨c, alive₀, type, idle, alive⟩ := sound.live_decRef
  have sound' := sound.decRef
  have same : (s.decRef r.pRefCounted).contents b = s.contents b :=
    contents_modify (fun _ => rfl) fun _ => rfl
  rw [Memory.release, objects_of_live alive, Option.map_some]
  by_cases zero : c.uiRef - 1 = 0
  · rw [if_pos (congrArg some zero), Release, if_pos weak]
    have ne : b ≠ r.pRefCounted := by
      rintro rfl
      exact kept.elim (fun ne => ne rfl) fun many => many c alive₀ (by omega)
    refine ⟨?_, releaseWeakRef_pending⟩
    rw [← same, contents, contents, live_releaseWeakRef sound'.linked alive, if_neg ne,
      Option.map_map]
    rfl
  · rw [if_neg fun eq => zero (Option.some.inj eq)]
    exact ⟨same, rfl⟩

/-! ## Adding objects and references -/

/-- Without destructors, only counts and links matter. -/
theorem Ending.quiet (quiet : s.pending = []) : s.Ending where
  destruct mem := by
    rw [quiet] at mem
    cases mem
  once b := by simp [quiet]

theorem Sound.modify (sound : s.Sound out) (quiet : s.pending = [])
    (keeps : ∀ c, (f c).freed = c.freed) (counts : ∀ c, (f c).uiRef = c.uiRef)
    (links : ∀ c, (f c).link = c.link) : (s.modify a f).Sound out where
  counted := sound.counted.same keeps (fun c => congrArg Link.type (links c)) counts
  linked := by
    rw [link_modify keeps links, modify_length]
    exact sound.linked
  ending := .quiet quiet

theorem Sound.addRef (sound : s.Sound out) (quiet : s.pending = [])
    (typed : s.typeOf r.pRefCounted = some r.type) :
    (s.AddRef r.pRefCounted).Sound fun x => out x + [r].count x where
  counted := sound.counted.addRef typed
  linked := by
    have same : (s.AddRef r.pRefCounted).link = s.link := link_modify (fun _ => rfl) fun _ => rfl
    have length : (s.AddRef r.pRefCounted).objects.length = s.objects.length := modify_length
    rw [same, length]
    exact sound.linked
  ending := .quiet quiet

theorem contents_addRef : (s.AddRef a).contents b = s.contents b :=
  contents_modify (fun _ => rfl) fun _ => rfl

theorem count_addRef (r : Reference) : (s.AddRef a).count r = s.count r :=
  count_modify_same (f := fun c => { c with uiRef := c.uiRef + 1 }) (fun _ => rfl) r

theorem live_append_of_live (fresh : c.freed = false) {d : LVRefCounted} (alive : s.live b = some d) :
    (s.append c).live b = some d := by
  have := lt_of_live alive
  rw [live_append fresh, if_neg (by omega), alive]

theorem link_append (fresh : c.freed = false) :
    (s.append c).link = fun b => if b = s.objects.length then some c.link else s.link b := by
  funext b
  rw [link, live_append fresh]
  split <;> rfl

theorem append_length : (s.append c).objects.length = s.objects.length + 1 := by
  simp [append]

theorem Sound.append (sound : s.Sound out) (quiet : s.pending = []) (fresh : c.freed = false)
    (plain : c.type ≠ .OT_WEAKREF) (zero : c.uiRef = 0)
    (links : c.link = ⟨c.type, none, none, none⟩) : (s.append c).Sound out where
  counted := sound.counted.append fresh zero
  linked := by
    rw [link_append fresh, append_length, links]
    exact sound.linked.append plain
  ending := .quiet quiet

/-- References to objects that are there are added. -/
theorem Sound.addRefs (quiet : s.pending = []) {l : List Reference} (sound : s.Sound out)
    (typed : ∀ r ∈ l, s.typeOf r.pRefCounted = some r.type) :
    let s' := l.foldl (fun s r => s.AddRef r.pRefCounted) s
    (s'.Sound fun x => out x + l.count x) ∧ (∀ b, s'.contents b = s.contents b) ∧
      (∀ x, s'.count x = s.count x) ∧ s'.pending = [] := by
  induction l generalizing s out with
  | nil => exact ⟨by simpa using sound, fun _ => rfl, fun _ => rfl, quiet⟩
  | cons r l ih =>
    have added := sound.addRef quiet (typed r (.head l))
    obtain ⟨sound', contents, count, pending⟩ := ih (s := s.AddRef r.pRefCounted) quiet added
      fun x mem => (typeOf_of_contents contents_addRef).trans (typed x (.tail r mem))
    refine ⟨?_, fun b => (contents b).trans contents_addRef,
      fun x => (count x).trans (count_addRef x), pending⟩
    have eq : (fun x => out x + (r :: l).count x) = fun x => out x + [r].count x + l.count x := by
      funext x
      simp only [List.count_cons, List.count_nil]
      omega
    rw [List.foldl_cons, eq]
    exact sound'

/-! ## `GetWeakRef` -/

/-- What `GetWeakRef` does: the weak reference is there, and nothing else changes that
references have to do with. -/
theorem Sound.getWeakRef (sound : s.Sound out) (quiet : s.pending = [])
    (typed : s.typeOf r.pRefCounted = some r.type) :
    (s.GetWeakRef r).2.Sound out ∧
      (s.GetWeakRef r).2.typeOf (s.GetWeakRef r).1 = some .OT_WEAKREF ∧
      (∀ b, b < s.objects.length → (s.GetWeakRef r).2.contents b = s.contents b) ∧
      (∀ x, (s.GetWeakRef r).2.count x = s.count x) ∧ (s.GetWeakRef r).2.pending = [] := by
  obtain ⟨c, alive, type⟩ := Option.map_eq_some_iff.mp typed
  cases weakref : c.weakref with
  | some w =>
    have got : s.GetWeakRef r = (w, s) := by
      rw [GetWeakRef, objects_of_live alive, Option.bind_some, weakref]
    rw [got]
    obtain ⟨l, at_w, weak, -⟩ := sound.linked.weak (link_of_live alive) weakref
    obtain ⟨d, alive', rfl⟩ := live_of_link at_w
    refine ⟨sound, ?_, fun _ _ => rfl, fun _ => rfl, quiet⟩
    rw [typeOf, alive', Option.map_some]
    exact congrArg some weak
  | none =>
    set f : LVRefCounted → LVRefCounted := fun c => { c with weakref := some s.objects.length }
    set weak : LVRefCounted :=
      { LVRefCounted.new .OT_WEAKREF with obj := some r, target := some r.pRefCounted }
    have got : s.GetWeakRef r = (s.objects.length, (s.modify r.pRefCounted f).append weak) := by
      rw [GetWeakRef, objects_of_live alive, Option.bind_some, weakref]
    have keeps : ∀ c, (f c).freed = c.freed := fun _ => rfl
    rw [got]
    refine ⟨⟨?_, ?_, .quiet quiet⟩, ?_, fun b lt => ?_, fun x => ?_, quiet⟩
    · exact (sound.counted.same keeps (fun _ => rfl) fun _ => rfl).append rfl rfl
    · have links : ((s.modify r.pRefCounted f).append weak).link = fun b =>
          if b = s.objects.length then
            some ⟨.OT_WEAKREF, none, some ⟨c.link.type, r.pRefCounted⟩, some r.pRefCounted⟩
          else if b = r.pRefCounted then some { c.link with weakref := some s.objects.length }
          else s.link b := by
        funext b
        rw [link_append rfl, modify_length]
        dsimp only
        split
        · have : (⟨c.link.type, r.pRefCounted⟩ : Reference) = r := by
            rw [LVRefCounted.link, type]
          rw [this]
          rfl
        · rw [link, live_modify keeps]
          by_cases eq : r.pRefCounted = b
          · subst eq
            rw [if_pos rfl, if_pos rfl, alive]
            rfl
          · rw [if_neg eq, if_neg (Ne.symm eq)]
            rfl
      rw [links, append_length, modify_length]
      exact sound.linked.attach (link_of_live alive) weakref
    · rw [typeOf, live_append rfl, modify_length, if_pos rfl]
      rfl
    · rw [contents, live_append rfl, modify_length, if_neg (by omega)]
      exact contents_modify keeps fun _ => rfl
    · rw [count_append, owned_of_weakref rfl, List.count_nil, Nat.add_zero]
      exact count_modify_same (f := f) (fun _ => rfl) x

/-! ## Fields with a weak reference -/

/-- A field that holds a weak reference, or null, gets another one, after `__ObjRelease`. -/
theorem Sound.assign (sound : s.Sound s.count) (quiet : s.pending = []) {field : Option Nat}
    (alive : s.live a = some c) (plain : c.type ≠ .OT_WEAKREF)
    (typed : s.typeOf w = some .OT_WEAKREF)
    (kept : ∀ old, field = some old → w ≠ old ∨ ∀ d, s.live w = some d → d.uiRef ≠ 1)
    (had : ∀ old, field = some old → ⟨.OT_WEAKREF, old⟩ ∈ c.owned)
    (keeps : ∀ c, (f c).freed = c.freed) (counts : ∀ c, (f c).uiRef = c.uiRef)
    (links : ∀ c, (f c).link = c.link)
    (owns : ∀ c', c'.freed = false → c'.contents = c.contents → ∀ x,
      (f c').owned.count x + (field.toList.map (⟨.OT_WEAKREF, ·⟩)).count x =
        c'.owned.count x + [⟨.OT_WEAKREF, w⟩].count x) :
    let s' := ((s.ObjRelease field).modify a f).AddRef w
    s'.Sound s'.count ∧ s'.pending = [] := by
  -- the references that stay when the old one is given up
  obtain ⟨out, total, sound₁, same₁, typed₁, pending₁, c₁, alive₁, contents₁⟩ :
      ∃ out : Reference → Nat,
        (∀ x, s.count x = out x + (field.toList.map (⟨.OT_WEAKREF, ·⟩)).count x) ∧
        (s.ObjRelease field).Sound out ∧ (∀ x, (s.ObjRelease field).count x = s.count x) ∧
        (s.ObjRelease field).typeOf w = some .OT_WEAKREF ∧ (s.ObjRelease field).pending = [] ∧
        ∃ c₁, (s.ObjRelease field).live a = some c₁ ∧ c₁.contents = c.contents := by
    cases field with
    | none => exact ⟨s.count, fun x => by simp, sound, fun _ => rfl, typed, quiet, c, alive, rfl⟩
    | some old =>
      have enough (x : Reference) : [⟨.OT_WEAKREF, old⟩].count x ≤ s.count x := by
        refine le_trans ?_ (owned_le_count alive x)
        by_cases eq : (⟨.OT_WEAKREF, old⟩ : Reference) = x
        · rw [← eq, List.count_singleton_self]
          exact List.count_pos_iff.mpr (had old rfl)
        · simp [eq]
      have split : s.count = fun x => s.count x - [(⟨.OT_WEAKREF, old⟩ : Reference)].count x +
          [(⟨.OT_WEAKREF, old⟩ : Reference)].count x := by
        funext x
        have := enough x
        omega
      have taken := split ▸ sound
      have isOld : s.typeOf old = some .OT_WEAKREF := by
        obtain ⟨d, alive', type⟩ := sound.counted.held (r := ⟨.OT_WEAKREF, old⟩)
          (lt_of_lt_of_le (by simp) (enough _))
        rw [typeOf, alive', Option.map_some, type]
      have ne : a ≠ old := by
        rintro rfl
        rw [typeOf, alive, Option.map_some] at isOld
        exact plain (Option.some.inj isOld)
      obtain ⟨sound₁, same₁⟩ := taken.release
      obtain ⟨contents₁, pending₁⟩ := taken.contents_release (b := a) rfl (.inl ne)
      have contents₂ := (taken.contents_release (b := w) rfl (kept old rfl)).1
      exact ⟨_, congrFun split, sound₁, same₁, (typeOf_of_contents contents₂).trans typed,
        pending₁.trans quiet, live_of_contents contents₁ alive⟩
  have sound₂ := sound₁.modify pending₁ (a := a) keeps counts links
  have typed₂ : ((s.ObjRelease field).modify a f).typeOf w = some .OT_WEAKREF := by
    rw [← typed₁, typeOf, typeOf, live_modify keeps]
    split
    · rw [Option.map_map]
      exact congrArg (Option.map · _) (funext fun c => congrArg Link.type (links c))
    · rfl
  have sound₃ := sound₂.addRef (r := ⟨.OT_WEAKREF, w⟩) pending₁ typed₂
  refine ⟨?_, pending₁⟩
  have now : (((s.ObjRelease field).modify a f).AddRef w).count =
      fun x => out x + [(⟨.OT_WEAKREF, w⟩ : Reference)].count x := by
    funext x
    have counted := count_modify (f := f) (objects_of_live alive₁) x
    have owned := owns c₁ (freed_of_live alive₁) contents₁ x
    have same := same₁ x
    have total := total x
    rw [count_addRef]
    omega
  rw [now]
  exact sound₃

/-- Counts and links are right, with the references that there are. -/
def Valid (s : Memory) : Prop := s.Sound s.count

theorem Sound.valid (sound : s.Sound out) (count : ∀ x, s.count x = out x) : s.Valid := by
  rw [Valid, funext count]
  exact sound

namespace Valid

theorem typed_of_mem (valid : s.Valid) (mem : r ∈ s.references) :
    s.typeOf r.pRefCounted = some r.type := by
  obtain ⟨c, alive, type⟩ := valid.counted.held (mem_references_iff.mp mem)
  rw [typeOf, alive, Option.map_some, type]

/-- A weak reference gives an object that is there. -/
theorem typed_of_yielded (valid : s.Valid) (mem : r ∈ s.yielded) :
    s.typeOf r.pRefCounted = some r.type := by
  obtain ⟨w, held, gives⟩ := List.mem_filterMap.mp mem
  split at gives
  · obtain ⟨d, alive, -⟩ := valid.counted.held (mem_references_iff.mp held)
    rw [objects_of_live alive, Option.bind_some] at gives
    obtain ⟨-, -, l, at_r, type, -⟩ := valid.linked.back (link_of_live alive) gives
    obtain ⟨c, alive', rfl⟩ := live_of_link at_r
    rw [typeOf, alive', Option.map_some]
    exact congrArg some type
  · cases gives

theorem typed (valid : s.Valid) (obtainable : s.Obtainable r) :
    s.typeOf r.pRefCounted = some r.type :=
  obtainable.elim valid.typed_of_mem fun rest => rest.elim valid.typed_of_yielded id

end Valid

/-- A reference that is held already gets its count. -/
theorem Sound.valid_addRef (sound : s.Sound out) (quiet : s.pending = [])
    (typed : s.typeOf r.pRefCounted = some r.type)
    (count : ∀ x, s.count x = out x + [r].count x) : (s.AddRef r.pRefCounted).Valid :=
  (sound.addRef quiet typed).valid fun x => (count_addRef x).trans (count x)

/-- A reference that is dropped is what a destructor is to release. -/
theorem Sound.valid_drop {slots : List Reference} (sound : s.Sound out)
    (count : ∀ x, ({ s with slots := slots, pending := [.release r] } : Memory).count x = out x) :
    ({ s with slots := slots, pending := [.release r] } : Memory).Valid := by
  refine Sound.valid ⟨⟨sound.counted.count, sound.counted.held⟩, sound.linked, ?_⟩ count
  exact ⟨fun mem => by simp at mem, fun b => by simp⟩

theorem count_eraseIdx {l : List Reference} {i : Nat} (get : l[i]? = some r) (x : Reference) :
    (l.eraseIdx i).count x + [r].count x = l.count x := by
  obtain ⟨lt, rfl⟩ := List.getElem?_eq_some_iff.mp get
  have perm := (List.getElem_cons_eraseIdx_perm lt).count_eq x
  simp only [List.count_cons, List.count_nil] at perm ⊢
  omega

/-- `SetRoot` would free the weak reference that it stores: it is the root that the
closure has, and nothing else refers to it. -/
def LosesRoot (s : Memory) (a : Nat) (r : Reference) : Prop :=
  ∃ w ∈ (s.objects[a]?).bind (·.root),
    (s.objects[r.pRefCounted]?).bind (·.weakref) = some w ∧
      (s.objects[w]?).map (·.uiRef) = some 1

theorem typeOf_append_new (fresh : c.freed = false) {type : LVObjectType}
    (typed : s.typeOf w = some type) : (s.append c).typeOf w = some type := by
  obtain ⟨d, alive, type'⟩ := Option.map_eq_some_iff.mp typed
  rw [typeOf, live_append_of_live fresh alive, Option.map_some, type']

namespace Valid

theorem create (valid : s.Valid) (quiet : s.pending = []) (fresh : c.freed = false)
    (plain : c.type ≠ .OT_WEAKREF) (zero : c.uiRef = 0)
    (links : c.link = ⟨c.type, none, none, none⟩) (owns : c.owned = []) : (s.append c).Valid := by
  refine (valid.append quiet fresh plain zero links).valid fun x => ?_
  rw [count_append, owns, List.count_nil, Nat.add_zero]

theorem getWeakRef (valid : s.Valid) (quiet : s.pending = [])
    (typed : s.typeOf r.pRefCounted = some r.type) : (s.GetWeakRef r).2.Valid := by
  obtain ⟨sound, -, -, count, -⟩ := Sound.getWeakRef valid quiet typed
  exact sound.valid count

theorem closure (valid : s.Valid) (quiet : s.pending = [])
    (typed : s.typeOf w = some .OT_WEAKREF) : (s.Create w).Valid := by
  have sound := Sound.append (c := { LVRefCounted.new .OT_CLOSURE with root := some w }) valid quiet
    rfl (by simp [LVRefCounted.new]) rfl rfl
  exact sound.valid_addRef (r := ⟨.OT_WEAKREF, w⟩) quiet (typeOf_append_new rfl typed)
    fun x => count_append x

theorem push (valid : s.Valid) (quiet : s.pending = [])
    (typed : s.typeOf r.pRefCounted = some r.type) :
    ({ s with slots := r :: s.slots }.AddRef r.pRefCounted).Valid := by
  have sound : ({ s with slots := r :: s.slots } : Memory).Sound s.count :=
    ⟨⟨valid.counted.count, valid.counted.held⟩, valid.linked, .quiet quiet⟩
  refine sound.valid_addRef quiet typed fun x => ?_
  simp only [count, references, List.cons_append, List.count_cons, List.count_nil]
  omega

theorem store (valid : s.Valid) (quiet : s.pending = []) (alive : s.holder a = some c)
    (typed : s.typeOf r.pRefCounted = some r.type) :
    ((s.modify a fun c => { c with members := r :: c.members }).AddRef r.pRefCounted).Valid := by
  set f : LVRefCounted → LVRefCounted := fun c => { c with members := r :: c.members }
  obtain ⟨alive, plain⟩ := Option.filter_eq_some_iff.mp alive
  have sound := Sound.modify (f := f) (a := a) valid quiet (fun _ => rfl) (fun _ => rfl) fun _ => rfl
  have typed' : (s.modify a f).typeOf r.pRefCounted = some r.type := by
    rw [← typed, typeOf, typeOf, live_modify (f := f) fun _ => rfl]
    split
    · rw [Option.map_map]
      rfl
    · rfl
  refine sound.valid_addRef quiet typed' fun x => ?_
  have counted := count_modify (f := f) (objects_of_live alive) x
  have owned : (f c).owned = r :: c.owned := by
    simp [f, LVRefCounted.owned, freed_of_live alive, of_decide_eq_true plain]
  rw [owned, List.count_cons] at counted
  simp only [List.count_cons, List.count_nil]
  omega

theorem pop (valid : s.Valid) (quiet : s.pending = []) {i : Nat} (get : s.slots[i]? = some r) :
    ({ s with slots := s.slots.eraseIdx i, pending := [.release r] } : Memory).Valid := by
  refine Sound.valid_drop valid fun x => ?_
  have := count_eraseIdx get x
  simp only [count, references, quiet, List.count_append, List.flatMap_cons, List.flatMap_nil,
    List.append_nil, Destruction.references]
  omega

theorem erase (valid : s.Valid) (quiet : s.pending = []) {i : Nat} (alive : s.holder a = some c)
    (get : c.members[i]? = some r) :
    ({ s.modify a fun c => { c with members := c.members.eraseIdx i } with
      pending := [.release r] } : Memory).Valid := by
  set f : LVRefCounted → LVRefCounted := fun c => { c with members := c.members.eraseIdx i }
  obtain ⟨alive, plain⟩ := Option.filter_eq_some_iff.mp alive
  have sound := Sound.modify (f := f) (a := a) valid quiet (fun _ => rfl) (fun _ => rfl) fun _ => rfl
  refine sound.valid_drop fun x => ?_
  have erased := count_eraseIdx get x
  have counted := count_modify (f := f) (objects_of_live alive) x
  have owned : (f c).owned.count x + c.members.count x =
      c.owned.count x + (c.members.eraseIdx i).count x := by
    simp only [f, LVRefCounted.owned, freed_of_live alive, of_decide_eq_true plain,
      Bool.false_eq_true, or_self, if_false, List.count_append]
    omega
  have released : ({ s.modify a f with slots := s.slots, pending := [.release r] } : Memory).count x =
      (s.modify a f).count x + [r].count x := by
    simp only [count, references, modify_pending, modify_slots, quiet, List.count_append,
      List.flatMap_cons, List.flatMap_nil, List.append_nil, Destruction.references]
  refine released.trans ?_
  omega

theorem setRoot (valid : s.Valid) (quiet : s.pending = []) (closure : s.typeOf a = some .OT_CLOSURE)
    (typed : s.typeOf w = some .OT_WEAKREF)
    (kept : (s.objects[a]?).bind (·.root) = some w → (s.objects[w]?).map (·.uiRef) ≠ some 1) :
    (s.SetRoot a w).Valid := by
  obtain ⟨c, alive, type⟩ := Option.map_eq_some_iff.mp closure
  have plain : c.type ≠ .OT_WEAKREF := by simp [type]
  have root : (s.objects[a]?).bind (·.root) = c.root := by
    rw [objects_of_live alive, Option.bind_some]
  rw [SetRoot, root]
  refine (Sound.assign (f := fun c => { c with root := some w }) valid quiet alive plain typed
    ?kept ?had (fun _ => rfl) (fun _ => rfl) (fun _ => rfl) ?owns).1
  case kept =>
    intro old eq
    by_cases same : w = old
    · refine .inr fun d alive' one => kept (root.trans (eq.trans (congrArg some same.symm))) ?_
      rw [objects_of_live alive', Option.map_some, one]
    · exact .inl same
  case had =>
    intro old eq
    simp [LVRefCounted.owned, freed_of_live alive, plain, eq]
  case owns =>
    intro c' fresh same x
    simp only [LVRefCounted.contents, Prod.mk.injEq] at same
    obtain ⟨type', -, root', -⟩ := same
    simp only [LVRefCounted.owned, fresh, type', plain, root', Bool.false_eq_true, or_self,
      if_false, List.map_append, List.count_append, Option.toList_some, List.map_cons,
      List.map_nil]
    omega

/-- A clone holds what the closure holds. -/
theorem clone (valid : s.Valid) (quiet : s.pending = []) (alive : s.live a = some c)
    (plain : c.type ≠ .OT_WEAKREF) :
    (s.Clone a).1 = s.objects.length ∧ (s.Clone a).2.Valid ∧ (s.Clone a).2.pending = [] ∧
      (∀ b, b < s.objects.length → (s.Clone a).2.contents b = s.contents b) ∧
      (s.Clone a).2.contents s.objects.length = some c.contents ∧
      ∀ x, (s.Clone a).2.count x = s.count x + c.owned.count x := by
  set copy : LVRefCounted :=
    { c with uiRef := 0, weakref := none, obj := none, target := none, freed := false }
  have clone : s.Clone a = (s.objects.length,
      c.owned.foldl (fun s r => s.AddRef r.pRefCounted) (s.append copy)) := by
    rw [Clone, objects_of_live alive]
  have owned : copy.owned = c.owned := by
    simp [copy, LVRefCounted.owned, freed_of_live alive]
  have typed : ∀ r ∈ c.owned, (s.append copy).typeOf r.pRefCounted = some r.type := by
    intro r mem
    refine typeOf_append_new rfl (valid.typed_of_mem (mem_references_iff.mpr ?_))
    exact lt_of_lt_of_le (List.count_pos_iff.mpr mem) (owned_le_count alive r)
  have appended := Sound.append (c := copy) valid quiet rfl plain rfl rfl
  obtain ⟨sound, contents', count, pending⟩ :=
    Sound.addRefs (s := s.append copy) quiet appended typed
  have total (x : Reference) : (s.Clone a).2.count x = s.count x + c.owned.count x := by
    rw [clone, count, count_append, owned]
  rw [clone] at total ⊢
  refine ⟨rfl, sound.valid total, pending, fun b lt => ?_, ?_, total⟩
  · rw [contents', contents, live_append rfl, if_neg (by omega)]
    rfl
  · rw [contents', contents, live_append rfl, if_pos rfl]
    rfl

theorem bindEnv (valid : s.Valid) (quiet : s.pending = []) (alive : s.live a = some c)
    (plain : c.type ≠ .OT_WEAKREF) (typed : s.typeOf r.pRefCounted = some r.type) :
    (s.bindEnv a r).Valid := by
  obtain ⟨sound₁, typed₁, contents₁, count₁, quiet₁⟩ := Sound.getWeakRef valid quiet typed
  have valid₁ := sound₁.valid count₁
  rw [Memory.bindEnv]
  set w := (s.GetWeakRef r).1
  set s₁ := (s.GetWeakRef r).2
  obtain ⟨c₁, alive₁, same₁⟩ := live_of_contents (contents₁ a (lt_of_live alive)) alive
  have plain₁ : c₁.type ≠ .OT_WEAKREF := by rwa [type_of_contents same₁]
  obtain ⟨place, valid₂, quiet₂, contents₂, copied, count₂⟩ := valid₁.clone quiet₁ alive₁ plain₁
  obtain ⟨c₂, alive₂, same₂⟩ := Option.map_eq_some_iff.mp copied
  have plain₂ : c₂.type ≠ .OT_WEAKREF := by rwa [type_of_contents same₂]
  obtain ⟨d, alive_w, -⟩ := Option.map_eq_some_iff.mp typed₁
  have typed₂ : (s₁.Clone a).2.typeOf w = some .OT_WEAKREF :=
    (typeOf_of_contents (contents₂ w (lt_of_live alive_w))).trans typed₁
  rw [place]
  have env : ((s₁.Clone a).2.objects[s₁.objects.length]?).bind (·.env) = c₂.env := by
    rw [objects_of_live alive₂, Option.bind_some]
  rw [env]
  refine (Sound.assign (f := fun c => { c with env := some w }) valid₂ quiet₂ alive₂ plain₂ typed₂
    ?kept ?had (fun _ => rfl) (fun _ => rfl) (fun _ => rfl) ?owns).1
  case kept =>
    -- the closure that was cloned refers to the environment, too
    intro old eq
    by_cases same : w = old
    · refine .inr fun d alive' one => ?_
      have type : d.type = .OT_WEAKREF := by
        rw [typeOf, alive', Option.map_some] at typed₂
        exact Option.some.inj typed₂
      have counts := valid₂.counted.count alive'
      have total := count₂ ⟨.OT_WEAKREF, w⟩
      have before := owned_le_count alive₁ ⟨.OT_WEAKREF, w⟩
      have own : 0 < c₁.owned.count ⟨.OT_WEAKREF, w⟩ := by
        refine List.count_pos_iff.mpr ?_
        have : c₁.env = some w := by
          rw [same, ← eq]
          simp only [LVRefCounted.contents, Prod.mk.injEq] at same₂
          exact same₂.2.2.2.symm
        simp [LVRefCounted.owned, freed_of_live alive₁, plain₁, this]
      rw [type, one] at counts
      omega
    · exact .inl same
  case had =>
    intro old eq
    simp [LVRefCounted.owned, freed_of_live alive₂, plain₂, eq]
  case owns =>
    intro c' fresh same x
    simp only [LVRefCounted.contents, Prod.mk.injEq] at same
    obtain ⟨type', -, -, env'⟩ := same
    simp only [LVRefCounted.owned, fresh, type', plain₂, env', Bool.false_eq_true, or_self,
      if_false, List.map_append, List.count_append, Option.toList_some, List.map_cons,
      List.map_nil]
    omega

end Valid

/-! ## Runs -/

/-- The condition for an action: a closure does not lose its root while it gets it. -/
def KeepsRoot (s : Memory) : Action → Prop
  | .setclosureroot a r => ¬s.LosesRoot a r
  | _ => True

theorem Valid.setclosureroot (valid : s.Valid) (quiet : s.pending = [])
    (closure : s.typeOf a = some .OT_CLOSURE) (typed : s.typeOf r.pRefCounted = some r.type)
    (keeps : ¬s.LosesRoot a r) : ((s.GetWeakRef r).2.SetRoot a (s.GetWeakRef r).1).Valid := by
  obtain ⟨sound₁, typed₁, contents₁, count₁, quiet₁⟩ := Sound.getWeakRef valid quiet typed
  obtain ⟨c, alive, type⟩ := Option.map_eq_some_iff.mp closure
  obtain ⟨e, alive_r, -⟩ := Option.map_eq_some_iff.mp typed
  have lt := lt_of_live alive
  refine (sound₁.valid count₁).setRoot quiet₁ ((typeOf_of_contents (contents₁ a lt)).trans closure)
    typed₁ fun root one => ?_
  obtain ⟨c₁, alive₁, same⟩ := live_of_contents (contents₁ a lt) alive
  simp only [LVRefCounted.contents, Prod.mk.injEq] at same
  rw [objects_of_live alive₁, Option.bind_some, same.2.2.1] at root
  cases weakref : e.weakref with
  | some w =>
    have got : s.GetWeakRef r = (w, s) := by
      rw [GetWeakRef, objects_of_live alive_r, Option.bind_some, weakref]
    rw [got] at root one
    refine keeps ⟨w, ?_, ?_, one⟩
    · rw [objects_of_live alive, Option.bind_some, root]
      rfl
    · rw [objects_of_live alive_r, Option.bind_some, weakref]
  | none =>
    -- a new weak reference is nobody's root
    have new : (s.GetWeakRef r).1 = s.objects.length := by
      rw [GetWeakRef, objects_of_live alive_r, Option.bind_some, weakref]
    have plain : c.type ≠ .OT_WEAKREF := by simp [type]
    have mem : (⟨.OT_WEAKREF, s.objects.length⟩ : Reference) ∈ c.owned := by
      simp [LVRefCounted.owned, freed_of_live alive, plain, root, new]
    have pos := lt_of_lt_of_le (List.count_pos_iff.mpr mem) (owned_le_count alive _)
    obtain ⟨d, alive_w, -⟩ := valid.counted.held pos
    exact absurd (lt_of_live alive_w) (lt_irrefl _)

theorem Valid.perform (valid : s.Valid) (quiet : s.pending = []) {action : Action}
    (keeps : s.KeepsRoot action) (performs : s.perform action = some s') : s'.Valid := by
  cases action with
  | create type =>
    simp only [Memory.perform, Option.ite_none_right_eq_some, Option.some.injEq] at performs
    obtain ⟨⟨-, plain⟩, rfl⟩ := performs
    exact valid.create quiet rfl plain rfl rfl (by simp [LVRefCounted.owned, LVRefCounted.new])
  | closure root =>
    simp only [Memory.perform, Option.ite_none_right_eq_some, Option.some.injEq] at performs
    obtain ⟨⟨obtainable, -⟩, rfl⟩ := performs
    obtain ⟨sound, typed, -, count, quiet'⟩ := Sound.getWeakRef valid quiet (valid.typed obtainable)
    exact (sound.valid count).closure quiet' typed
  | push r =>
    simp only [Memory.perform, Option.ite_none_right_eq_some, Option.some.injEq] at performs
    obtain ⟨obtainable, rfl⟩ := performs
    exact valid.push quiet (valid.typed obtainable)
  | pop i =>
    obtain ⟨r, get, rfl⟩ := Option.map_eq_some_iff.mp performs
    exact valid.pop quiet get
  | store a r =>
    simp only [Memory.perform, Option.ite_none_right_eq_some, Option.some.injEq] at performs
    obtain ⟨⟨obtainable, holder⟩, rfl⟩ := performs
    obtain ⟨c, holder⟩ := Option.isSome_iff_exists.mp holder
    exact valid.store quiet holder (valid.typed obtainable)
  | erase a i =>
    obtain ⟨r, get, rfl⟩ := Option.map_eq_some_iff.mp performs
    obtain ⟨c, holder, get⟩ := Option.bind_eq_some_iff.mp get
    exact valid.erase quiet holder get
  | weakref r =>
    simp only [Memory.perform, Option.ite_none_right_eq_some, Option.some.injEq] at performs
    obtain ⟨obtainable, rfl⟩ := performs
    exact valid.getWeakRef quiet (valid.typed obtainable)
  | setclosureroot a r =>
    simp only [Memory.perform, Option.ite_none_right_eq_some, Option.some.injEq] at performs
    obtain ⟨⟨closure, obtainable, -⟩, rfl⟩ := performs
    exact valid.setclosureroot quiet closure (valid.typed obtainable) keeps
  | bindenv a r =>
    simp only [Memory.perform, Option.ite_none_right_eq_some, Option.some.injEq] at performs
    obtain ⟨⟨closure, obtainable, -⟩, rfl⟩ := performs
    obtain ⟨c, alive, plain⟩ : ∃ c, s.live a = some c ∧ c.type ≠ .OT_WEAKREF := by
      rcases closure with closure | closure <;>
      · obtain ⟨c, alive, type⟩ := Option.map_eq_some_iff.mp closure
        exact ⟨c, alive, by simp [type]⟩
    exact valid.bindEnv quiet alive plain (valid.typed obtainable)

theorem Valid.step (valid : s.Valid) {action : Option Action}
    (keeps : ∀ a ∈ action, s.KeepsRoot a) (steps : s.step action = some s') : s'.Valid := by
  cases action with
  | some action =>
    simp only [Memory.step, Option.ite_none_right_eq_some] at steps
    exact valid.perform steps.1 (keeps action rfl) steps.2
  | none =>
    obtain ⟨objects, slots, pending⟩ := s
    match pending, steps with
    | .release r :: rest, steps =>
      cases steps
      set t : Memory := ⟨objects, slots, rest⟩
      have total (x : Reference) : (⟨objects, slots, .release r :: rest⟩ : Memory).count x =
          t.count x + [r].count x := by
        simp only [t, count, references, List.count_append, List.flatMap_cons,
          Destruction.references]
        omega
      have sound : t.Sound fun x => t.count x + [r].count x := by
        rw [← funext total]
        refine ⟨⟨valid.counted.count, valid.counted.held⟩, valid.linked, ?_⟩
        refine ⟨fun mem => valid.ending.destruct (.tail _ mem), fun b => ?_⟩
        have := valid.ending.once b
        simpa using this
      obtain ⟨sound', same⟩ := sound.release
      exact sound'.valid same
    | .destruct a :: rest, steps =>
      cases steps
      obtain ⟨c, alive, plain, zero, owns⟩ := valid.ending.destruct (.head rest)
      set t : Memory := ⟨objects, slots, rest⟩
      have once (b : Nat) := valid.ending.once b
      simp only [List.count_cons] at once
      have sound : t.Sound t.count :=
        ⟨⟨valid.counted.count, valid.counted.held⟩, valid.linked,
          ⟨fun mem => valid.ending.destruct (.tail _ mem),
            fun b => le_trans (Nat.le_add_right _ _) (once b)⟩⟩
      have idle : .destruct a ∉ t.pending := by
        intro mem
        have pos := List.count_pos_iff.mpr mem
        have := once a
        rw [if_pos (by simp)] at this
        dsimp only [t] at pos
        omega
      have obj : c.obj = none := by
        cases obj : c.obj with
        | none => rfl
        | some r => exact absurd (valid.linked.back (link_of_live alive) obj).1 plain
      have alive' : t.live a = some c := alive
      exact (sound.free alive' zero idle (live_destruct_of_linked sound.linked alive' obj)
        destruct_pending destruct_length).valid (count_destruct (objects_of_live alive') owns)

theorem valid_empty : empty.Valid := by
  constructor
  case counted =>
    exact ⟨fun alive => by simp [live, empty] at alive,
      fun pos => by simp [count, references, empty] at pos⟩
  case linked =>
    constructor <;> intros <;> simp_all [link, live, empty]
  case ending => exact .quiet rfl

theorem Run.valid (run : Run KeepsRoot s) : s.Valid := by
  induction run with
  | empty => exact valid_empty
  | step _ keeps steps valid => exact valid.step keeps steps

/-! ## Weak references -/

/-- An object has at most one weak reference, `_weakref` is null or the weak reference
whose `_obj` is the object with its type, a weak reference holds its object as long as
this is there and null afterwards, and what is referred to, or what a weak reference
gives, is there with its type. -/
structure WeakRefsHold (s : Memory) : Prop where
  unique {w w' a : Nat} {d d' : LVRefCounted} : s.live w = some d → s.live w' = some d' → d.target = some a →
    d'.target = some a → w = w'
  back {a w : Nat} {c : LVRefCounted} : s.live a = some c → c.weakref = some w →
    ∃ d, s.live w = some d ∧ d.type = .OT_WEAKREF ∧ d.obj = some ⟨c.type, a⟩
  obj {w : Nat} {d : LVRefCounted} : s.live w = some d → d.type = .OT_WEAKREF →
    ∃ a, d.target = some a ∧ d.obj = (s.live a).map fun c => ⟨c.type, a⟩
  held {r : Reference} : r ∈ s.references → s.typeOf r.pRefCounted = some r.type
  yields {r : Reference} : r ∈ s.yielded → s.typeOf r.pRefCounted = some r.type

theorem Valid.linksHold (valid : s.Valid) : s.WeakRefsHold where
  unique alive alive' := valid.linked.unique (link_of_live alive) (link_of_live alive')
  back alive weakref := by
    obtain ⟨l, at_w, weak, obj⟩ := valid.linked.weak (link_of_live alive) weakref
    obtain ⟨d, alive', rfl⟩ := live_of_link at_w
    exact ⟨d, alive', weak, obj⟩
  obj {w d} alive weak := by
    obtain ⟨a, target⟩ := valid.linked.made (link_of_live alive) weak
    refine ⟨a, target, ?_⟩
    cases there : s.live a with
    | some c =>
      exact (valid.linked.target (link_of_live alive) target).2 c.link (link_of_live there)
    | none =>
      -- what `_obj` points to would be there
      cases obj : d.obj with
      | none => rfl
      | some r =>
        obtain ⟨-, target', l, at_r, -⟩ := valid.linked.back (link_of_live alive) obj
        obtain ⟨c, alive', -⟩ := live_of_link at_r
        have : some a = some r.pRefCounted := target.symm.trans target'
        cases this
        rw [there] at alive'
        cases alive'
  held := valid.typed_of_mem
  yields := valid.typed_of_yielded

theorem weakRefsHold (run : Run KeepsRoot s) : s.WeakRefsHold := run.valid.linksHold

instance (s : Memory) (a : Nat) (r : Reference) : Decidable (s.LosesRoot a r) :=
  inferInstanceAs (Decidable (∃ w ∈ _, _))

instance : (s : Memory) → (action : Action) → Decidable (s.KeepsRoot action)
  | s, .setclosureroot a r => inferInstanceAs (Decidable (¬s.LosesRoot a r))
  | _, .create _ | _, .closure _ | _, .push _ | _, .pop _ | _, .store _ _ | _, .erase _ _
  | _, .weakref _ | _, .bindenv _ _ => isTrue trivial

/-- The state after some steps, when these are allowed and can be taken. -/
def replay (allowed : Memory → Action → Prop) [∀ s a, Decidable (allowed s a)] (s : Memory) :
    List (Option Action) → Option Memory
  | [] => some s
  | action :: rest =>
    if ∀ a ∈ action, allowed s a then (s.step action).bind fun s' => s'.replay allowed rest
    else none

theorem Run.replay {allowed : Memory → Action → Prop} [∀ s a, Decidable (allowed s a)]
    {actions : List (Option Action)} (run : Run allowed s)
    (replays : s.replay allowed actions = some s') : Run allowed s' := by
  induction actions generalizing s with
  | nil =>
    cases replays
    exact run
  | cons action rest ih =>
    simp only [Memory.replay, Option.ite_none_right_eq_some] at replays
    obtain ⟨allows, replays⟩ := replays
    obtain ⟨s₁, steps, replays⟩ := Option.bind_eq_some_iff.mp replays
    exact ih (run.step allows steps) replays

/-- A closure over the root table at 0; the table at 3 is made its root. -/
def rootSet : List (Option Action) :=
  [some (.create .OT_TABLE), some (.push ⟨.OT_TABLE, 0⟩), some (.closure ⟨.OT_TABLE, 0⟩),
    some (.push ⟨.OT_CLOSURE, 2⟩), some (.create .OT_TABLE), some (.push ⟨.OT_TABLE, 3⟩),
    some (.setclosureroot 2 ⟨.OT_TABLE, 3⟩)]

/-- The table is dropped. -/
def tableDropped : List (Option Action) := [some (.pop 0), none, none]

theorem weakRefsHold_rootSet :
    ∃ s, empty.replay KeepsRoot (rootSet ++ tableDropped) = some s ∧ s.WeakRefsHold := by
  have replays : empty.replay KeepsRoot (rootSet ++ tableDropped) = some _ := rfl
  exact ⟨_, replays, weakRefsHold (.replay .empty replays)⟩

/-- The closure gets the root that it has: its weak reference is freed, and goes on to
give the table after this is released. -/
theorem weakRefs_fail : ¬∀ s, Run (fun _ _ => True) s → s.WeakRefsHold := by
  intro holds
  have replays : empty.replay (fun _ _ => True)
      (rootSet ++ some (.setclosureroot 2 ⟨.OT_TABLE, 3⟩) :: tableDropped) = some _ := rfl
  have given := (holds _ (.replay .empty replays)).yields (r := ⟨.OT_TABLE, 3⟩) (by decide)
  revert given
  decide

end Memory

end Lavril
