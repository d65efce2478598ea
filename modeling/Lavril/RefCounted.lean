import Lavril.Vm

/-!
# Reference counted objects and weak references

The objects in memory with their counts, the references to them from outside, and
the destructors that are still to run. An address is the position of an object; what
is freed keeps its bytes and its address is not used again.
-/

namespace Lavril

/-- An `LVObject` of a reference counted type. -/
structure Reference where
  type : LVObjectType
  pRefCounted : Nat
  deriving DecidableEq

/-- An object. `obj` and `target` are for an `LVWeakRef`: `_obj`, and (ghost) the object
it was created for. `root` and `env` are for closures. -/
structure LVRefCounted where
  type : LVObjectType
  uiRef : Int
  weakref : Option Nat
  obj : Option Reference
  target : Option Nat
  members : List Reference
  root : Option Nat
  env : Option Nat
  freed : Bool

namespace LVRefCounted

/-- A new object of a type. -/
def new (type : LVObjectType) : LVRefCounted := ⟨type, 0, none, none, none, [], none, none, false⟩

/-- The references that the destructors of an object release, in order; an `LVWeakRef` has
none. -/
def owned (c : LVRefCounted) : List Reference :=
  if c.freed ∨ c.type = .OT_WEAKREF then []
  else c.members ++ (c.root.toList ++ c.env.toList).map (⟨.OT_WEAKREF, ·⟩)

/-- The object once its destructor has given up what it owns. -/
def clear (c : LVRefCounted) : LVRefCounted := { c with members := [], root := none, env := none }

end LVRefCounted

/-- What is left to do of the destructors that run: to release a reference, or to end
with `~LVRefCounted` and free the object. -/
inductive Destruction where
  | release (r : Reference)
  | destruct (a : Nat)
  deriving DecidableEq

def Destruction.references : Destruction → List Reference
  | .release r => [r]
  | .destruct _ => []

/-- `slots` are the references from outside the objects. -/
structure Memory where
  objects : List LVRefCounted
  slots : List Reference
  pending : List Destruction

namespace Memory

/-- The object at an address that is not freed. -/
def live (s : Memory) (a : Nat) : Option LVRefCounted := (s.objects[a]?).filter fun c => !c.freed

/-- The references that are counted. -/
def references (s : Memory) : List Reference :=
  s.slots ++ s.objects.flatMap LVRefCounted.owned ++ s.pending.flatMap Destruction.references

/-- What the weak references give that something refers to. -/
def yielded (s : Memory) : List Reference :=
  s.references.filterMap fun w =>
    if w.type = .OT_WEAKREF then (s.objects[w.pRefCounted]?).bind (·.obj) else none

def modify (s : Memory) (a : Nat) (f : LVRefCounted → LVRefCounted) : Memory :=
  { s with objects := s.objects.modify a f }

/-- Memory with a new object. -/
def append (s : Memory) (c : LVRefCounted) : Memory := { s with objects := s.objects ++ [c] }

/-- `__AddRef`. -/
def AddRef (s : Memory) (a : Nat) : Memory := s.modify a fun c => { c with uiRef := c.uiRef + 1 }

def decRef (s : Memory) (a : Nat) : Memory := s.modify a fun c => { c with uiRef := c.uiRef - 1 }

/-- `~LVRefCounted`, and the memory is freed. -/
def destruct (s : Memory) (a : Nat) : Memory :=
  let reset :=
    match (s.objects[a]?).bind (·.weakref) with
    | some w => s.modify w fun d => { d with obj := none }
    | none => s
  reset.modify a fun c => { c with freed := true }

/-- `LVWeakRef::Release`. -/
def releaseWeakRef (s : Memory) (w : Nat) : Memory :=
  match (s.objects[w]?).bind (·.obj) with
  | some o => (s.modify o.pRefCounted fun c => { c with weakref := none }).destruct w
  | none => s.destruct w

/-- `Release` of the other objects: what they own is released before `~LVRefCounted`. -/
def releaseObject (s : Memory) (a : Nat) : Memory :=
  let owned := ((s.objects[a]?).map LVRefCounted.owned).getD []
  { s.modify a LVRefCounted.clear with
    pending := owned.map .release ++ .destruct a :: s.pending }

def Release (s : Memory) (r : Reference) : Memory :=
  if r.type = .OT_WEAKREF then s.releaseWeakRef r.pRefCounted else s.releaseObject r.pRefCounted

/-- `__Release` and `__ObjRelease`. -/
def release (s : Memory) (r : Reference) : Memory :=
  let s := s.decRef r.pRefCounted
  if (s.objects[r.pRefCounted]?).map (·.uiRef) = some 0 then s.Release r else s

/-- `LVRefCounted::GetWeakRef` of the object of a reference, with its type. -/
def GetWeakRef (s : Memory) (r : Reference) : Nat × Memory :=
  match (s.objects[r.pRefCounted]?).bind (·.weakref) with
  | some w => (w, s)
  | none =>
    let w := s.objects.length
    let s := s.modify r.pRefCounted fun c => { c with weakref := some w }
    let weak := { LVRefCounted.new .OT_WEAKREF with obj := some r, target := some r.pRefCounted }
    (w, s.append weak)

/-- `__ObjRelease` of a field that has a weak reference or null. -/
def ObjRelease (s : Memory) (field : Option Nat) : Memory :=
  match field with
  | some w => s.release ⟨.OT_WEAKREF, w⟩
  | none => s

/-- `LVClosure::SetRoot`. -/
def SetRoot (s : Memory) (a w : Nat) : Memory :=
  let s := s.ObjRelease ((s.objects[a]?).bind (·.root))
  (s.modify a fun c => { c with root := some w }).AddRef w

/-- The object of `Create` for a closure with a root. -/
def Create (s : Memory) (w : Nat) : Memory :=
  (s.append { LVRefCounted.new .OT_CLOSURE with root := some w }).AddRef w

/-- `LVClosure::Clone` and `LVNativeClosure::Clone`. -/
def Clone (s : Memory) (a : Nat) : Nat × Memory :=
  match s.objects[a]? with
  | some c =>
    let copy := { c with uiRef := 0, weakref := none, obj := none, target := none, freed := false }
    (s.objects.length, c.owned.foldl (fun s r => s.AddRef r.pRefCounted) (s.append copy))
  | none => (a, s)

/-- The effect of `lv_bindenv` on the objects. -/
def bindEnv (s : Memory) (a : Nat) (r : Reference) : Memory :=
  let w := (s.GetWeakRef r).1
  let copy := (s.GetWeakRef r).2.Clone a
  let s := copy.2.ObjRelease ((copy.2.objects[copy.1]?).bind (·.env))
  (s.modify copy.1 fun c => { c with env := some w }).AddRef w

def typeOf (s : Memory) (a : Nat) : Option LVObjectType := (s.live a).map (·.type)

/-- The object at an address, when it is one that has members. -/
def holder (s : Memory) (a : Nat) : Option LVRefCounted :=
  (s.live a).filter fun c => c.type ≠ .OT_WEAKREF

/-- The references that the program can have in hand: those it holds, what weak references
give, and the objects it has a pointer to. -/
def Obtainable (s : Memory) (r : Reference) : Prop :=
  r ∈ s.references ∨ r ∈ s.yielded ∨ s.typeOf r.pRefCounted = some r.type

instance (s : Memory) (r : Reference) : Decidable (s.Obtainable r) := instDecidableOr

/-- What is done with objects and references to them. -/
inductive Action where
  | create (type : LVObjectType)
  | closure (root : Reference)
  | push (r : Reference)
  | pop (i : Nat)
  | store (a : Nat) (r : Reference)
  | erase (a i : Nat)
  | weakref (r : Reference)
  | setclosureroot (a : Nat) (r : Reference)
  | bindenv (a : Nat) (r : Reference)

/-- An action, when no destructor runs. -/
def perform (s : Memory) : Action → Option Memory
  | .create type =>
    if type.refCounted ∧ type ≠ .OT_WEAKREF then
      some (s.append (.new type))
    else none
  | .closure root =>
    if s.Obtainable root ∧ root.type = .OT_TABLE then
      let (w, s) := s.GetWeakRef root
      some (s.Create w)
    else none
  | .push r =>
    if s.Obtainable r then some ({ s with slots := r :: s.slots }.AddRef r.pRefCounted) else none
  | .pop i =>
    (s.slots[i]?).map fun r => { s with slots := s.slots.eraseIdx i, pending := [.release r] }
  | .store a r =>
    if s.Obtainable r ∧ (s.holder a).isSome then
      some ((s.modify a fun c => { c with members := r :: c.members }).AddRef r.pRefCounted)
    else none
  | .erase a i =>
    ((s.holder a).bind (·.members[i]?)).map fun r =>
      { s.modify a fun c => { c with members := c.members.eraseIdx i } with
        pending := [.release r] }
  | .weakref r => if s.Obtainable r then some (s.GetWeakRef r).2 else none
  | .setclosureroot a r =>
    if s.typeOf a = some .OT_CLOSURE ∧ s.Obtainable r ∧ r.type = .OT_TABLE then
      let (w, s) := s.GetWeakRef r
      some (s.SetRoot a w)
    else none
  | .bindenv a r =>
    if (s.typeOf a = some .OT_CLOSURE ∨ s.typeOf a = some .OT_NATIVECLOSURE) ∧ s.Obtainable r ∧
        r.type ∈ [.OT_TABLE, .OT_ARRAY, .OT_CLASS, .OT_INSTANCE] then
      some (s.bindEnv a r)
    else none

/-- One step: an action, or `none` for the destructor that runs, which goes first. -/
def step (s : Memory) : Option Action → Option Memory
  | some action => if s.pending = [] then s.perform action else none
  | none =>
    match s.pending with
    | [] => none
    | .release r :: rest => some ({ s with pending := rest }.release r)
    | .destruct a :: rest => some ({ s with pending := rest }.destruct a)

def empty : Memory := ⟨[], [], []⟩

/-- The states that runs reach whose actions are allowed. -/
inductive Run (allowed : Memory → Action → Prop) : Memory → Prop
  | empty : Run allowed empty
  | step {s s' : Memory} {action : Option Action} (run : Run allowed s)
      (allows : ∀ a ∈ action, allowed s a) (steps : s.step action = some s') : Run allowed s'

/-! ## What is in memory -/

variable {s : Memory} {a b : Nat} {c : LVRefCounted} {f : LVRefCounted → LVRefCounted}

theorem live_eq_some : s.live a = some c ↔ s.objects[a]? = some c ∧ c.freed = false := by
  simp [live, Option.filter_eq_some_iff]

theorem lt_of_live (alive : s.live a = some c) : a < s.objects.length :=
  (List.getElem?_eq_some_iff.mp (live_eq_some.mp alive).1).1

theorem objects_of_live (alive : s.live a = some c) : s.objects[a]? = some c :=
  (live_eq_some.mp alive).1

theorem freed_of_live (alive : s.live a = some c) : c.freed = false := (live_eq_some.mp alive).2

@[simp] theorem modify_slots : (s.modify a f).slots = s.slots := rfl
@[simp] theorem modify_pending : (s.modify a f).pending = s.pending := rfl

@[simp] theorem modify_length : (s.modify a f).objects.length = s.objects.length :=
  List.length_modify ..

theorem objects_modify :
    (s.modify a f).objects[b]? = if a = b then (s.objects[b]?).map f else s.objects[b]? := by
  rw [modify, List.getElem?_modify]
  split <;> simp

theorem live_modify (keeps : ∀ c, (f c).freed = c.freed) :
    (s.modify a f).live b = if a = b then (s.live b).map f else s.live b := by
  rw [live, live, objects_modify]
  split
  · cases s.objects[b]? with
    | none => rfl
    | some c => cases h : c.freed <;> simp [Option.filter, keeps, h]
  · rfl

theorem live_free : (s.modify a fun c => { c with freed := true }).live b =
    if a = b then none else s.live b := by
  rw [live, live, objects_modify]
  split
  · cases s.objects[b]? <;> simp [Option.filter]
  · rfl

theorem live_append (fresh : c.freed = false) :
    (s.append c).live b = if b = s.objects.length then some c else s.live b := by
  rw [live, live, append, List.getElem?_append]
  by_cases lt : b < s.objects.length
  · rw [if_pos lt, if_neg (by omega)]
  · rw [if_neg lt, List.getElem?_singleton]
    by_cases eq : b = s.objects.length
    · simp [eq, Option.filter, fresh]
    · rw [if_neg eq, if_neg (by omega), List.getElem?_eq_none (by omega)]

/-! ## References -/

theorem count_flatMap_modify {α β : Type} [BEq β] (g : α → List β) (f : α → α) (x : β) :
    ∀ {l : List α} {i : Nat} {c : α}, l[i]? = some c →
      ((l.modify i f).flatMap g).count x + (g c).count x =
        (l.flatMap g).count x + (g (f c)).count x
  | [], _, _, get => by simp at get
  | d :: l, 0, c, get => by
    obtain rfl : d = c := by simpa using get
    simp only [List.modify_zero_cons, List.flatMap_cons, List.count_append]
    omega
  | d :: l, i + 1, c, get => by
    have rest := count_flatMap_modify g f x (l := l) (i := i) (by simpa using get)
    simp only [List.modify_succ_cons, List.flatMap_cons, List.count_append]
    omega

/-- How many references there are that are the reference `r`. -/
def count (s : Memory) (r : Reference) : Nat := s.references.count r

theorem count_modify (get : s.objects[a]? = some c) (r : Reference) :
    (s.modify a f).count r + c.owned.count r = s.count r + (f c).owned.count r := by
  have objects := count_flatMap_modify LVRefCounted.owned f r get
  simp only [count, references, modify, List.count_append] at *
  omega

theorem count_modify_same (same : ∀ c, (f c).owned = c.owned) (r : Reference) :
    (s.modify a f).count r = s.count r := by
  cases get : s.objects[a]? with
  | none =>
    rw [modify, List.modify_eq_self (List.getElem?_eq_none_iff.mp get)]
  | some c =>
    have := count_modify (f := f) get r
    rw [same] at this
    omega

theorem count_append (r : Reference) : (s.append c).count r = s.count r + c.owned.count r := by
  simp only [count, references, append, List.flatMap_append, List.flatMap_singleton,
    List.count_append]
  omega

theorem mem_references_iff {r : Reference} : r ∈ s.references ↔ 0 < s.count r :=
  List.count_pos_iff.symm

end Memory

end Lavril
