import Lavril.DoublyLinked

/-!
# A collector over counted references

Objects hold counted references to each other and are linked in a chain. `mark`
moves what it reaches to a second chain; `sweep` goes through what is left, makes
each object give up its references, and so frees it or leaves it to be freed by
the objects that come later. An object is known by its address.
-/

universe u v

namespace Collector

/-- What giving up references does, one after the other. -/
inductive Action (V : Type v) where
  /-- Releases a reference to an object. -/
  | drop (a : Nat)
  /-- Stores a value in another object, with a reference of its own. -/
  | give (a : Nat) (value : V)

/-- How objects hold references. -/
structure Layout (O : Type u) (V : Type v) where
  /-- The references that marking follows, in order. -/
  marks : O → List Nat
  /-- What `Finalize` does, and the object it leaves. -/
  finalize : O → List (Action V)
  finalized : O → O
  /-- What `Release` does before and after it takes the object off the chain. -/
  before : O → List (Action V)
  after : O → List (Action V)
  /-- An object in which a value is stored, and the reference that is given up for it. -/
  receive : O → V → O
  replaced : O → V → Option Nat
  /-- The object that a value refers to. -/
  address : V → Option Nat

/-- An object with its reference count and its mark bit. -/
structure Cell (O : Type u) where
  obj : O
  uiRef : Nat
  marked : Bool

structure Heap (O : Type u) where
  cells : Nat → Option (Cell O)
  links : Links Nat
  /-- The chain of all objects, and that of the marked ones. -/
  gcChain : Option Nat
  tchain : Option Nat
  /-- The objects that the sweep has finalised. -/
  swept : List Nat

namespace Heap

variable {O : Type u} (h : Heap O)

def modify (a : Nat) (f : Cell O → Cell O) : Heap O :=
  { h with cells := Function.update h.cells a ((h.cells a).map f) }

def setMark (a : Nat) (marked : Bool) : Heap O := h.modify a ({ · with marked })

def addRef (a : Nat) : Heap O := h.modify a fun c => { c with uiRef := c.uiRef + 1 }

def decRef (a : Nat) : Heap O := h.modify a fun c => { c with uiRef := c.uiRef - 1 }

def setObj (a : Nat) (obj : O) : Heap O := h.modify a ({ · with obj })

/-- Leaves the object that `Finalize` makes of it. -/
def finalise (a : Nat) (obj : O) : Heap O := { h.setObj a obj with swept := a :: h.swept }

/-- Takes an object off the chain. -/
def unlink (a : Nat) : Heap O :=
  let (links, head) := h.links.remove h.gcChain a
  { h with links := links, gcChain := head }

/-- Links a new object, with one reference. -/
def create (a : Nat) (obj : O) : Heap O :=
  let (links, head) := h.links.add h.gcChain a
  { h with
    cells := Function.update h.cells a (some ⟨obj, 1, false⟩)
    links := links
    gcChain := head }

/-- Puts an object on the chain of the marked ones. -/
def linkMarked (a : Nat) : Heap O :=
  let (links, head) := h.links.add h.tchain a
  { h with links := links, tchain := head }

def free (a : Nat) : Heap O := { h with cells := Function.update h.cells a none }

end Heap

section

variable {O : Type u} {V : Type v} (L : Layout O V)

/-- Marks an object and what it reaches. `none` stands for a dangling reference or
for too little fuel. -/
def mark : Nat → Nat → Heap O → Option (Heap O)
  | 0, _, _ => none
  | fuel + 1, a, h =>
    match h.cells a with
    | none => none
    | some c =>
      if c.marked then some h
      else
        ((L.marks c.obj).foldlM (fun h b => mark fuel b h) (h.setMark a true)).map fun h =>
          (h.unlink a).linkMarked a

def markAll (fuel : Nat) (roots : List Nat) (h : Heap O) : Option (Heap O) :=
  roots.foldlM (fun h a => mark L fuel a h) h

/-- Adds a reference to an object, if there is one to refer to. -/
def addRefTo (target : Option Nat) (h : Heap O) : Option (Heap O) :=
  match target with
  | none => some h
  | some a => (h.cells a).map fun _ => h.addRef a

/-- Releases a reference and frees the object when its count becomes zero. An object
that is marked keeps the mark bit in its count. -/
def drop (release : Nat → Heap O → Option (Heap O)) (a : Nat) (h : Heap O) : Option (Heap O) :=
  match h.cells a with
  | none => none
  | some c =>
    if c.uiRef - 1 = 0 ∧ c.marked = false then release a (h.decRef a) else some (h.decRef a)

/-- One action. Storing a value adds a reference to it and then releases the one it
replaces. -/
def perform (release : Nat → Heap O → Option (Heap O)) (h : Heap O) :
    Action V → Option (Heap O)
  | .drop a => drop release a h
  | .give a value =>
    match h.cells a with
    | none => none
    | some c => do
      let h ← addRefTo (L.address value) h
      let h := h.setObj a (L.receive c.obj value)
      (L.replaced c.obj value).elim (some h) (drop release · h)

def performAll (release : Nat → Heap O → Option (Heap O)) (actions : List (Action V))
    (h : Heap O) : Option (Heap O) := actions.foldlM (perform L release) h

/-- Gives up the references of an object, takes it off the chain and frees it. -/
def release : Nat → Nat → Heap O → Option (Heap O)
  | 0, _, _ => none
  | fuel + 1, a, h =>
    match h.cells a with
    | none => none
    | some c => do
      let h ← performAll L (release fuel) (L.before c.obj) h
      let h := if c.marked then h else h.unlink a
      let h ← performAll L (release fuel) (L.after c.obj) h
      return h.free a

/-- Finalises an object of the chain and releases the reference that protects it,
after the next object has been given one. -/
def visit (fuel t : Nat) (h : Heap O) : Option (Option Nat × Heap O) :=
  match h.cells t with
  | none => none
  | some c => do
    let h ← performAll L (release L fuel) (L.finalize c.obj) (h.finalise t (L.finalized c.obj))
    let nx := h.links.next t
    let h ← addRefTo nx h
    let h ← drop (release L fuel) t h
    return (nx, h)

/-- Goes through the chain from an object on, and counts the objects. -/
def sweep (fuel : Nat) : Nat → Option Nat → Heap O → Option (Nat × Heap O)
  | _, none, h => some (0, h)
  | 0, some _, _ => none
  | steps + 1, some t, h => do
    let (nx, h) ← visit L fuel t h
    let (n, h) ← sweep fuel steps nx h
    return (n + 1, h)

/-- Takes the mark bit off the objects of the chain that starts with `t`. -/
def unmarkAll : Nat → Option Nat → Heap O → Option (Heap O)
  | _, none, h => some h
  | 0, some _, _ => none
  | steps + 1, some t, h => unmarkAll steps (h.links.next t) (h.setMark t false)

/-- The collection, with the number of objects it has gone through. -/
def collect (fuel : Nat) (roots : List Nat) (h : Heap O) : Option (Nat × Heap O) := do
  let h ← markAll L fuel roots { h with tchain := none, swept := [] }
  let t := h.gcChain
  let h ← addRefTo t h
  let (n, h) ← sweep L fuel fuel t h
  let h ← unmarkAll fuel h.tchain h
  return (n, { h with gcChain := h.tchain, tchain := none })

end

end Collector
