import Lavril.Object
import Lavril.Chain

/-!
# The hash table

`LVTable` keeps its chains inside one array of nodes. A node taken for a
colliding key comes from `firstfree`, which only moves down; a node that sits
in another key's main position is moved away when that key arrives. Pointers
into the array are indices, and `next = none` is the null pointer. The hash
function is a parameter.

`none` as the result of an operation means a failed assertion, a walk that
does not end, or a recursion between `newSlot` and `rehash` deeper than the
given depth.
-/

namespace Lavril

structure HashNode where
  val : LVObject
  key : LVObject
  next : Option Nat

def HashNode.empty : HashNode := ⟨.null, .null, none⟩

structure LVTable where
  firstfree : Nat
  nodes : Nat → HashNode
  numofnodes : Nat
  usednodes : Int

def MINPOWER2 : Nat := 4

namespace LVTable

def countUsed (t : LVTable) : Int := t.usednodes

def modify (t : LVTable) (i : Nat) (f : HashNode → HashNode) : LVTable :=
  { t with nodes := Function.update t.nodes i (f (t.nodes i)) }

def allocNodes (t : LVTable) (nSize : Nat) : LVTable :=
  { t with nodes := fun _ => .empty, numofnodes := nSize, firstfree := nSize - 1 }

/-- `while (nInitialSize > pow2size) pow2size = pow2size << 1`. -/
def pow2size (nInitialSize : Int) : Nat → Nat → Nat
  | 0, p => p
  | fuel + 1, p => if nInitialSize > p then pow2size nInitialSize fuel (p <<< 1) else p

def create (nInitialSize : Int) : LVTable :=
  allocNodes ⟨0, fun _ => .empty, 0, 0⟩ (pow2size nInitialSize nInitialSize.toNat MINPOWER2)

/-- `type(o) != OT_WEAKREF ? o : _weakref(o)->_obj`. -/
def realval (weakref : LVObjectValue → LVObject) (o : LVObject) : LVObject :=
  if o.type ≠ .OT_WEAKREF then o else weakref o.unVal

/-- Following the `next` pointers. -/
def next (t : LVTable) (i : Nat) : Option Nat := (t.nodes i).next

/-- `_Get`: the node on the chain of `hash` that holds `key`. -/
def _get (t : LVTable) (key : LVObject) (hash : Nat) : Option (Option Nat) :=
  Chain.search t.next
    (fun n => decide ((t.nodes n).key.unVal = key.unVal ∧ (t.nodes n).key.type = key.type))
    t.numofnodes hash

/-- The free-pointer loop of `newSlot`: the first node at or below `firstfree`
with no key and no link. -/
def correctFirstfree (t : LVTable) : Nat → Option Nat
  | 0 => if (t.nodes 0).key.type = .OT_NULL ∧ (t.nodes 0).next = none then some 0 else none
  | f + 1 =>
    if (t.nodes (f + 1)).key.type = .OT_NULL ∧ (t.nodes (f + 1)).next = none then some (f + 1)
    else correctFirstfree t f

section hashing

variable (HashObj : LVObject → Nat)

/-- `HashObj(key) & (_numofnodes - 1)`. -/
def mainPosition (t : LVTable) (key : LVObject) : Nat := HashObj key &&& (t.numofnodes - 1)

def get (weakref : LVObjectValue → LVObject) (t : LVTable) (key : LVObject) :
    Option (Option LVObject) :=
  if key.type = .OT_NULL then some none
  else (t._get key (t.mainPosition HashObj key)).map
    (Option.map fun n => realval weakref (t.nodes n).val)

/-- The node that will hold a key that is not in the table, with the table
rearranged to make room for it. -/
def insertionNode (t : LVTable) (key : LVObject) : Option (LVTable × Nat) :=
  let mp := t.mainPosition HashObj key
  if (t.nodes mp).key.type ≠ .OT_NULL then
    let n := t.firstfree
    let othern := t.mainPosition HashObj (t.nodes mp).key
    if mp > n ∧ othern ≠ mp then
      -- move the colliding node into the free position
      match Chain.search t.next (fun o => decide (t.next o = some mp)) t.numofnodes othern with
      | some (some othern) =>
        let t := t.modify othern ({ · with next := some n })
        let t := t.modify n fun _ => t.nodes mp
        some (t.modify mp fun _ => .empty, mp)
      | _ => none
    else
      -- the new node goes into the free position
      let t := t.modify n ({ · with next := (t.nodes mp).next })
      some (t.modify mp ({ · with next := some n }), n)
  else some (t, mp)

/-- `Rehash`, given the `NewSlot` it reinserts with. -/
def rehash (newSlot : LVTable → LVObject → LVObject → Option (Bool × LVTable)) (force : Bool)
    (t : LVTable) : Option LVTable :=
  let oldsize := if t.numofnodes < 4 then 4 else t.numofnodes
  let nelems := t.countUsed
  let reinsert (nSize : Nat) : Option LVTable :=
    (List.range oldsize).foldlM (fun (new : LVTable) i =>
        let old := t.nodes i
        if old.key.type ≠ .OT_NULL then (newSlot new old.key old.val).map Prod.snd
        else some new)
      { t.allocNodes nSize with usednodes := 0 }
  if nelems ≥ ((oldsize - oldsize / 4 : Nat) : Int) then reinsert (oldsize * 2)
  else if nelems ≤ ((oldsize / 4 : Nat) : Int) ∧ oldsize > MINPOWER2 then reinsert (oldsize / 2)
  else if force then reinsert oldsize
  else some t

/-- `NewSlot`; the first argument bounds the depth of its recursion. -/
def newSlot : Nat → LVTable → LVObject → LVObject → Option (Bool × LVTable)
  | 0, _, _, _ => none
  | depth + 1, t, key, val =>
    if key.type = .OT_NULL then none
    else match t._get key (t.mainPosition HashObj key) with
      | none => none
      | some (some n) => some (false, t.modify n ({ · with val := val }))
      | some none =>
        match t.insertionNode HashObj key with
        | none => none
        | some (t, mp) =>
          let t := t.modify mp ({ · with key := key })
          match t.correctFirstfree t.firstfree with
          | some free =>
            let t := t.modify mp ({ · with val := val })
            some (true, { t with firstfree := free, usednodes := t.usednodes + 1 })
          | none =>
            match rehash (newSlot depth) true { t with firstfree := 0 } with
            | none => none
            | some t => newSlot depth t key val

def set (t : LVTable) (key val : LVObject) : Option (Bool × LVTable) :=
  match t._get key (t.mainPosition HashObj key) with
  | none => none
  | some (some n) => some (true, t.modify n ({ · with val := val }))
  | some none => some (false, t)

def remove (depth : Nat) (t : LVTable) (key : LVObject) : Option LVTable :=
  match t._get key (t.mainPosition HashObj key) with
  | none => none
  | some none => some t
  | some (some n) =>
    let t := t.modify n ({ · with val := .null, key := .null })
    rehash (newSlot HashObj depth) false { t with usednodes := t.usednodes - 1 }

def clearNodes (t : LVTable) : LVTable :=
  { t with nodes := fun i =>
      if i < t.numofnodes then { t.nodes i with key := .null, val := .null } else t.nodes i }

def clear (depth : Nat) (t : LVTable) : Option LVTable :=
  rehash (newSlot HashObj depth) true { t.clearNodes with usednodes := 0 }

/-- `Clone`: `Next` gives the live nodes in order. -/
def clone (depth : Nat) (t : LVTable) : Option LVTable :=
  (List.range t.numofnodes).foldlM (fun (nt : LVTable) i =>
      let n := t.nodes i
      if n.key.type ≠ .OT_NULL then (newSlot HashObj depth nt n.key n.val).map Prod.snd
      else some nt)
    (create t.numofnodes)

end hashing

end LVTable

end Lavril
