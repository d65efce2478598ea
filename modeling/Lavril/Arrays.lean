import Lavril.Vector
import Lavril.Table

/-!
# Arrays

An array is a vector of values. The operations check their indices, grow the vector and
shrink it again; each array has the elements that the same operations make of a list.

An array is known by a number. `none` as the result of an operation means that there is
no such array, or an access outside its storage.
-/

namespace Lavril

open LVVector

/-- The storage, and the arrays there are. -/
structure Arrays where
  memory : Storage LVObject
  array : Nat → Option LVVector

namespace LVArray

variable (m : Storage LVObject) (v : LVVector)

/-- `ShrinkIfNeeded`. -/
def shrinkIfNeeded : Storage LVObject × LVVector :=
  if v.size ≤ v.allocated >>> 2 then v.shrinktofit m else (m, v)

def get (weakref : LVObjectValue → LVObject) (nidx : Int) : Option (Option LVObject) :=
  if 0 ≤ nidx ∧ nidx < v.size then
    match v.read m nidx.toNat with
    | none => none
    | some o => some (some (LVTable.realval weakref o))
  else some none

def set (nidx : Int) (val : LVObject) : Option (Bool × Storage LVObject × LVVector) :=
  if 0 ≤ nidx ∧ nidx < v.size then (v.assign m nidx.toNat val).map (true, ·, v)
  else some (false, m, v)

def resize (size : Int) (fill : LVObject) : Option (Storage LVObject × LVVector) :=
  (v.resize m (size % 2 ^ 64).toNat fill).map fun (m, v) => shrinkIfNeeded m v

def append (o : LVObject) : Option (Storage LVObject × LVVector) := v.pushBack m o

def pop : Option (Storage LVObject × LVVector) :=
  (v.popBack m).map fun (m, v) => shrinkIfNeeded m v

def insert (idx : Int) (val : LVObject) : Option (Bool × Storage LVObject × LVVector) :=
  if idx < 0 ∨ idx > v.size then some (false, m, v)
  else (v.insert m idx.toNat val).map fun r => (true, r)

def remove (idx : Int) : Option (Bool × Storage LVObject × LVVector) :=
  if idx < 0 ∨ idx ≥ v.size then some (false, m, v)
  else (v.remove m idx.toNat).map fun (m, v) => (true, shrinkIfNeeded m v)

/-- The loop of `lv_arrayreverse`. -/
def swapEnds (size : Nat) : Nat → Nat → Storage LVObject → Option (Storage LVObject)
  | 0, _, m => some m
  | n + 1, i, m =>
    match v.read m i, v.read m (size - i) with
    | some t, some o =>
      match v.assign m i o with
      | none => none
      | some m =>
        match v.assign m (size - i) t with
        | none => none
        | some m => swapEnds size n (i + 1) m
    | _, _ => none

def reverse : Option (Storage LVObject × LVVector) :=
  if v.size > 0 then (swapEnds v (v.size - 1) (v.size >>> 1) 0 m).map (·, v) else some (m, v)

end LVArray

namespace Arrays

def initial : Arrays := ⟨⟨fun _ => none, 0⟩, fun _ => none⟩

def put (w : Arrays) (a : Nat) (r : Storage LVObject × LVVector) : Arrays :=
  ⟨r.1, Function.update w.array a (some r.2)⟩

/-- The loop of `Extend`: the elements of `b` from `i` on, at the end of `a`. -/
def extendFrom (a b : Nat) : Nat → Nat → Arrays → Option Arrays
  | 0, _, w => some w
  | n + 1, i, w =>
    match w.array a, w.array b with
    | some v, some u =>
      match u.read w.memory i with
      | none => none
      | some o =>
        match LVArray.append w.memory v o with
        | none => none
        | some r => extendFrom a b n (i + 1) (w.put a r)
    | _, _ => none

inductive Operation where
  | create (a : Nat) (nInitialSize : Int)
  | append (a : Nat) (o : LVObject)
  | insert (a : Nat) (idx : Int) (val : LVObject)
  | remove (a : Nat) (idx : Int)
  | pop (a : Nat)
  | resize (a : Nat) (size : Int) (fill : LVObject)
  | set (a : Nat) (nidx : Int) (val : LVObject)
  | get (a : Nat) (nidx : Int)
  | extend (a b : Nat)
  | reverse (a : Nat)
  | clone (a b : Nat)

/-- What an operation answers: true or false, and the value that `Get` gives. -/
structure Reply where
  ok : Bool
  value : Option LVObject
  deriving DecidableEq

def done : Reply := ⟨true, none⟩

/-- An operation on one array that there is. -/
def on (w : Arrays) (a : Nat)
    (f : Storage LVObject → LVVector → Option (Bool × Storage LVObject × LVVector)) :
    Option (Reply × Arrays) :=
  match w.array a with
  | none => none
  | some v => (f w.memory v).map fun (ok, r) => (⟨ok, none⟩, w.put a r)

def apply (weakref : LVObjectValue → LVObject) (w : Arrays) : Operation → Option (Reply × Arrays)
  | .create a nInitialSize =>
    (LVVector.empty.resize w.memory (nInitialSize % 2 ^ 64).toNat .null).map fun r => (done, w.put a r)
  | .append a o => w.on a fun m v => (LVArray.append m v o).map (true, ·)
  | .insert a idx val => w.on a (LVArray.insert · · idx val)
  | .remove a idx => w.on a (LVArray.remove · · idx)
  | .pop a => w.on a fun m v => (LVArray.pop m v).map (true, ·)
  | .resize a size fill => w.on a fun m v => (LVArray.resize m v size fill).map (true, ·)
  | .set a nidx val => w.on a (LVArray.set · · nidx val)
  | .get a nidx =>
    match w.array a with
    | none => none
    | some v => (LVArray.get w.memory v weakref nidx).map fun value => (⟨value.isSome, value⟩, w)
  | .extend a b =>
    match w.array b with
    | none => none
    | some u => (extendFrom a b u.size 0 w).map (done, ·)
  | .reverse a => w.on a fun m v => (LVArray.reverse m v).map (true, ·)
  | .clone a b =>
    match w.array a with
    | none => none
    | some v => (LVVector.empty.copy w.memory v).map fun r => (done, w.put b r)

/-! ## Lists -/

/-- The arrays as lists. -/
abbrev Lists := Nat → Option (List LVObject)

/-- What an operation is on lists. -/
def meaning (weakref : LVObjectValue → LVObject) (s : Lists) : Operation → Reply × Lists
  | .create a nInitialSize =>
    (done, Function.update s a (some (List.replicate nInitialSize.toNat .null)))
  | .append a o => (done, Function.update s a ((s a).map (· ++ [o])))
  | .insert a idx val =>
    match s a with
    | none => (⟨false, none⟩, s)
    | some l =>
      if 0 ≤ idx ∧ idx ≤ l.length then
        (done, Function.update s a (some (l.insertIdx idx.toNat val)))
      else (⟨false, none⟩, s)
  | .remove a idx =>
    match s a with
    | none => (⟨false, none⟩, s)
    | some l =>
      if 0 ≤ idx ∧ idx < l.length then (done, Function.update s a (some (l.eraseIdx idx.toNat)))
      else (⟨false, none⟩, s)
  | .pop a => (done, Function.update s a ((s a).map List.dropLast))
  | .resize a size fill => (done, Function.update s a ((s a).map fun l =>
      l.take size.toNat ++ List.replicate (size.toNat - l.length) fill))
  | .set a nidx val =>
    match s a with
    | none => (⟨false, none⟩, s)
    | some l =>
      if 0 ≤ nidx ∧ nidx < l.length then (done, Function.update s a (some (l.set nidx.toNat val)))
      else (⟨false, none⟩, s)
  | .get a nidx =>
    let value := (s a).bind fun l =>
      if 0 ≤ nidx then l[nidx.toNat]?.map (LVTable.realval weakref) else none
    (⟨value.isSome, value⟩, s)
  | .extend a b => (done, Function.update s a ((s a).map (· ++ (s b).getD [])))
  | .reverse a => (done, Function.update s a ((s a).map List.reverse))
  | .clone a b => (done, Function.update s b (s a))

end Arrays

/-! ## One array -/

namespace LVArray

variable {m : Storage LVObject} {v : LVVector} {l : List LVObject}

theorem shrinkIfNeeded_holds (holds : LVVector.Holds m v l) :
    LVVector.Holds (shrinkIfNeeded m v).1 (shrinkIfNeeded m v).2 l ∧
      LVVector.Frame m v (shrinkIfNeeded m v).1 (shrinkIfNeeded m v).2 := by
  rw [shrinkIfNeeded]
  split
  · exact holds.shrinktofit
  · exact ⟨holds, .refl rfl⟩

/-- An operation on the vector followed by `ShrinkIfNeeded`. -/
theorem becomes_shrunk {r : Option (Storage LVObject × LVVector)} (becomes : Becomes m v r l) :
    Becomes m v (r.map fun (m, v) => shrinkIfNeeded m v) l := by
  obtain ⟨m', v', rfl, holds, frame⟩ := becomes
  obtain ⟨shrunk, frame'⟩ := shrinkIfNeeded_holds holds
  exact ⟨_, _, rfl, shrunk, frame.trans frame'⟩

theorem resize_becomes (holds : LVVector.Holds m v l) {size : Int} (nonneg : 0 ≤ size)
    (fits : size.toNat > v.allocated → size.toNat < 2 ^ 60) (fill : LVObject) :
    Becomes m v (resize m v size fill)
      (l.take size.toNat ++ List.replicate (size.toNat - l.length) fill) := by
  have small := holds.small
  have same : (size % 2 ^ 64).toNat = size.toNat := by
    by_cases larger : size.toNat > v.allocated
    · have := fits larger
      omega
    · omega
  rw [resize, same]
  exact becomes_shrunk (holds.resize fits fill)

theorem pop_becomes (holds : LVVector.Holds m v l) (nonempty : l ≠ []) :
    Becomes m v (pop m v) l.dropLast := by
  rcases holds with has | ⟨-, none⟩
  · exact becomes_shrunk (has.popBack nonempty)
  · exact absurd none nonempty

theorem has_of_lt (holds : LVVector.Holds m v l) {i : Nat} (lt : i < l.length) : Has m v l := by
  rcases holds with has | ⟨-, rfl⟩
  · exact has
  · cases lt

theorem swapEnds_has (n : Nat) : ∀ {m : Storage LVObject} {now : List LVObject} {i : Nat},
    Has m v now → now.length = l.length → i + n = l.length / 2 →
    (∀ j < l.length, now[j]? =
      if j < i ∨ l.length - 1 - i < j then l[l.length - 1 - j]? else l[j]?) →
    ∃ m', swapEnds v (l.length - 1) n i m = some m' ∧ Has m' v l.reverse ∧ LVVector.Frame m v m' v := by
  induction n with
  | zero =>
    intro m now i has length half elements
    refine ⟨m, rfl, ?_, .refl rfl⟩
    have reversed : now = l.reverse := by
      apply List.ext_getElem?
      intro j
      by_cases inside : j < l.length
      · rw [elements j inside, List.getElem?_reverse inside]
        by_cases middle : j < i ∨ l.length - 1 - i < j
        · rw [if_pos middle]
        · have same : l.length - 1 - j = j := by omega
          rw [if_neg middle, same]
      · rw [List.getElem?_eq_none (by omega), List.getElem?_eq_none (by simp; omega)]
    exact reversed ▸ has
  | succ n ih =>
    intro m now i has length half elements
    have low : i < now.length := by omega
    have high : l.length - 1 - i < now.length := by omega
    have first := has.read low
    have last := has.read high
    rw [List.getElem?_eq_getElem low] at first
    rw [List.getElem?_eq_getElem high] at last
    obtain ⟨m₁, run₁, has₁, frame₁⟩ := has.assign low now[l.length - 1 - i]
    obtain ⟨m₂, run₂, has₂, frame₂⟩ :=
      has₁.assign (i := l.length - 1 - i) (by simpa using high) now[i]
    obtain ⟨m', rest, after, frame⟩ := ih has₂ (i := i + 1) (by simpa using length) (by omega) (by
      intro j inside
      by_cases top : j = l.length - 1 - i
      · subst top
        have back : l.length - 1 - (l.length - 1 - i) = i := by omega
        rw [List.getElem?_set_self (by simpa using high), if_pos (by omega), back,
          ← List.getElem?_eq_getElem low, elements i (by omega), if_neg (by omega)]
      · rw [List.getElem?_set_ne (Ne.symm top)]
        by_cases bottom : j = i
        · subst bottom
          rw [List.getElem?_set_self low, if_pos (by omega), ← List.getElem?_eq_getElem high,
            elements _ (by omega), if_neg (by omega)]
        · rw [List.getElem?_set_ne (Ne.symm bottom), elements j inside]
          by_cases swapped : j < i ∨ l.length - 1 - i < j
          · rw [if_pos swapped, if_pos (by omega)]
          · rw [if_neg swapped, if_neg (by omega)])
    refine ⟨m', ?_, after, (frame₁.trans frame₂).trans frame⟩
    simp only [swapEnds, first, last, run₁, run₂]
    exact rest

theorem reverse_becomes (holds : LVVector.Holds m v l) : Becomes m v (reverse m v) l.reverse := by
  have size := holds.size
  by_cases nonempty : v.size > 0
  · have has := has_of_lt holds (i := 0) (by omega)
    obtain ⟨m', run, after, frame⟩ := swapEnds_has (l := l) (l.length / 2) has rfl (i := 0)
      (by omega) (by
        intro j inside
        rw [if_neg (by omega)])
    refine ⟨m', v, ?_, .inl after, frame⟩
    rw [reverse, if_pos nonempty, size, Nat.shiftRight_eq_div_pow, run]
    rfl
  · obtain rfl : l = [] := List.eq_nil_of_length_eq_zero (by omega)
    exact ⟨m, v, by rw [reverse, if_neg nonempty], holds, .refl rfl⟩

/-- An operation that checks its index: in range it answers true and does what the list
operation does, out of range it answers false and does nothing. -/
def Checks (m : Storage LVObject) (v : LVVector) (inRange : Prop)
    (r : Option (Bool × Storage LVObject × LVVector)) (l' : List LVObject) : Prop :=
  (inRange → ∃ m' v', r = some (true, m', v') ∧ LVVector.Holds m' v' l' ∧ LVVector.Frame m v m' v') ∧
  (¬ inRange → r = some (false, m, v))

theorem set_checks (holds : LVVector.Holds m v l) (nidx : Int) (val : LVObject) :
    Checks m v (0 ≤ nidx ∧ nidx < l.length) (set m v nidx val) (l.set nidx.toNat val) := by
  have size := holds.size
  refine ⟨fun inRange => ?_, fun out => ?_⟩
  · have has := has_of_lt holds (i := nidx.toNat) (by omega)
    obtain ⟨m', run, after, frame⟩ := has.assign (i := nidx.toNat) (by omega) val
    refine ⟨m', v, ?_, .inl after, frame⟩
    rw [set, if_pos (by omega), run]
    rfl
  · rw [set, if_neg (by omega)]

theorem insert_checks (holds : LVVector.Holds m v l) (idx : Int)
    (fits : v.size + 1 > v.allocated → v.size + 1 < 2 ^ 60) (val : LVObject) :
    Checks m v (0 ≤ idx ∧ idx ≤ l.length) (insert m v idx val) (l.insertIdx idx.toNat val) := by
  have size := holds.size
  refine ⟨fun inRange => ?_, fun out => ?_⟩
  · obtain ⟨m', v', run, after, frame⟩ := holds.insert idx.toNat (by omega) fits val
    refine ⟨m', v', ?_, after, frame⟩
    rw [insert, if_neg (by omega), run]
    rfl
  · rw [insert, if_pos (by omega)]

theorem remove_checks (holds : LVVector.Holds m v l) (idx : Int) :
    Checks m v (0 ≤ idx ∧ idx < l.length) (remove m v idx) (l.eraseIdx idx.toNat) := by
  have size := holds.size
  refine ⟨fun inRange => ?_, fun out => ?_⟩
  · have has := has_of_lt holds (i := idx.toNat) (by omega)
    obtain ⟨m', v', run, after, frame⟩ := becomes_shrunk (has.remove idx.toNat (by omega))
    refine ⟨m', v', ?_, after, frame⟩
    obtain ⟨⟨m₁, v₁⟩, first, last⟩ := Option.map_eq_some_iff.mp run
    rw [remove, if_neg (by omega), first]
    simp only [Option.map_some, last]
  · rw [remove, if_pos (by omega)]

theorem get_eq (holds : LVVector.Holds m v l) (weakref : LVObjectValue → LVObject) (nidx : Int) :
    get m v weakref nidx =
      some (if 0 ≤ nidx then l[nidx.toNat]?.map (LVTable.realval weakref) else none) := by
  have size := holds.size
  rw [get]
  by_cases inRange : 0 ≤ nidx ∧ nidx < v.size
  · have lt : nidx.toNat < l.length := by omega
    have has := has_of_lt holds lt
    have read := has.read lt
    rw [List.getElem?_eq_getElem lt] at read ⊢
    rw [if_pos inRange, if_pos inRange.1]
    simp only [read, Option.map_some]
  · rw [if_neg inRange]
    by_cases nonneg : 0 ≤ nidx
    · rw [if_pos nonneg, List.getElem?_eq_none (by omega)]
      rfl
    · rw [if_neg nonneg]

end LVArray

/-! ## All arrays -/

namespace Arrays

/-- The arrays have the elements of the lists, each in storage of its own. -/
structure Represents (w : Arrays) (s : Lists) : Prop where
  holds : ∀ a v, w.array a = some v → ∃ l, s a = some l ∧ LVVector.Holds w.memory v l
  absent : ∀ a, w.array a = none → s a = none
  below : ∀ a v p, w.array a = some v → v.vals = some p → p < w.memory.brk
  apart : ∀ a b v u p, w.array a = some v → w.array b = some u → v.vals = some p →
    u.vals = some p → a = b

variable {w w' : Arrays} {s : Lists} {a b : Nat} {v : LVVector} {l : List LVObject}

theorem initial_represents : initial.Represents fun _ => none := by
  refine ⟨?_, fun _ _ => rfl, ?_, ?_⟩
  · rintro a v ⟨⟩
  · rintro a v p ⟨⟩
  · rintro a b v u p ⟨⟩

theorem holds_frame {m m' : Storage LVObject} {u v' : LVVector} (frame : LVVector.Frame m v m' v')
    (holds : LVVector.Holds m u l) (other : ∀ p, u.vals = some p → v.vals ≠ some p) : LVVector.Holds m' u l := by
  rcases holds with has | is
  · obtain ⟨cell, stored, elements⟩ := has.stored
    obtain ⟨p, -, is, -⟩ := id stored
    exact .inl ⟨has.size, has.room, cell,
      frame.stored stored (by rw [is]; exact (other p is).symm), elements⟩
  · exact .inr is

/-- An operation that changes one array, or makes one, leaves the others alone. -/
theorem Represents.put (rep : w.Represents s) {r : Storage LVObject × LVVector}
    (was : w.array a = some v ∨ v = LVVector.empty) (holds : LVVector.Holds r.1 r.2 l)
    (frame : LVVector.Frame w.memory v r.1 r.2) :
    (w.put a r).Represents (Function.update s a (some l)) := by
  have own : ∀ b u, b ≠ a → w.array b = some u → ∀ p, u.vals = some p → v.vals ≠ some p := by
    intro b u other is p vals same
    rcases was with found | rfl
    · exact other (rep.apart b a u v p is found vals same)
    · cases same
  have place : ∀ p, r.2.vals = some p → p < r.1.brk ∧ ∀ b u, b ≠ a → w.array b = some u →
      u.vals ≠ some p := by
    intro p is
    rcases frame.vals with same | ⟨q, new, ge, lt⟩
    · rw [same] at is
      refine ⟨?_, fun b u other found vals => own b u other found p vals is⟩
      rcases was with found | rfl
      · exact Nat.lt_of_lt_of_le (rep.below a v p found is) frame.brk
      · cases is
    · obtain rfl := Option.some.inj (new.symm.trans is)
      refine ⟨lt, fun b u other found vals => ?_⟩
      exact absurd (rep.below b u q found vals) (by omega)
  constructor
  · intro b u found
    by_cases here : b = a
    · subst here
      simp only [Arrays.put, Function.update_self] at found
      obtain rfl := Option.some.inj found
      exact ⟨l, Function.update_self .., holds⟩
    · simp only [Arrays.put, Function.update_of_ne here] at found
      obtain ⟨l', is, held⟩ := rep.holds b u found
      exact ⟨l', by rw [Function.update_of_ne here, is],
        holds_frame frame held (own b u here found)⟩
  · intro b none
    by_cases here : b = a
    · subst here
      simp [Arrays.put] at none
    · rw [Function.update_of_ne here]
      simp only [Arrays.put, Function.update_of_ne here] at none
      exact rep.absent b none
  · intro b u p found vals
    by_cases here : b = a
    · subst here
      simp only [Arrays.put, Function.update_self] at found
      obtain rfl := Option.some.inj found
      exact (place p vals).1
    · simp only [Arrays.put, Function.update_of_ne here] at found
      exact Nat.lt_of_lt_of_le (rep.below b u p found vals) frame.brk
  · intro b c u t p foundB foundC valsB valsC
    by_cases here : b = a
    · by_cases there : c = a
      · exact here.trans there.symm
      · subst here
        simp only [Arrays.put, Function.update_self] at foundB
        simp only [Arrays.put, Function.update_of_ne there] at foundC
        obtain rfl := Option.some.inj foundB
        exact absurd valsC ((place p valsB).2 c t there foundC)
    · by_cases there : c = a
      · subst there
        simp only [Arrays.put, Function.update_self] at foundC
        simp only [Arrays.put, Function.update_of_ne here] at foundB
        obtain rfl := Option.some.inj foundC
        exact absurd valsB ((place p valsC).2 b u here foundB)
      · simp only [Arrays.put, Function.update_of_ne here] at foundB
        simp only [Arrays.put, Function.update_of_ne there] at foundC
        exact rep.apart b c u t p foundB foundC valsB valsC

/-- The numbers of elements that appending `n` elements asks `_realloc` for. -/
def requests : Nat → Nat → Nat → List Nat
  | _, _, 0 => []
  | allocated, size, n + 1 =>
    if allocated ≤ size then
      size * 2 :: requests (if size * 2 > 0 then size * 2 else 4) (size + 1) n
    else requests allocated (size + 1) n

/-- What the operation is made for: arrays that there are, a pop of an array that is not
empty, sizes that are not negative. -/
def Allowed (s : Lists) : Operation → Prop
  | .create a nInitialSize => s a = none ∧ 0 ≤ nInitialSize
  | .append a _ | .insert a _ _ | .remove a _ | .set a _ _ | .get a _ | .reverse a => s a ≠ none
  | .pop a => ∃ l, s a = some l ∧ l ≠ []
  | .resize a size _ => s a ≠ none ∧ 0 ≤ size
  | .extend a b => s a ≠ none ∧ s b ≠ none
  | .clone a b => s a ≠ none ∧ s b = none

/-- No block of 2^60 elements or more is asked for. -/
def Fits (w : Arrays) : Operation → Prop
  | .create _ nInitialSize => nInitialSize < 2 ^ 60
  | .append a _ => ∀ v, w.array a = some v → ∀ n ∈ requests v.allocated v.size 1, n < 2 ^ 60
  | .insert a _ _ => ∀ v, w.array a = some v → v.size + 1 > v.allocated → v.size + 1 < 2 ^ 60
  | .resize a size _ => ∀ v, w.array a = some v → size.toNat > v.allocated → size < 2 ^ 60
  | .extend a b => ∀ v u, w.array a = some v → w.array b = some u →
      ∀ n ∈ requests v.allocated v.size u.size, n < 2 ^ 60
  | _ => True

theorem put_same (found : w.array a = some v) : w.put a (w.memory, v) = w := by
  rw [put, Function.update_eq_self_iff.mpr found.symm]

theorem Represents.found (rep : w.Represents s) (there : s a ≠ none) :
    ∃ v l, w.array a = some v ∧ s a = some l ∧ LVVector.Holds w.memory v l := by
  cases found : w.array a with
  | none => exact absurd (rep.absent a found) there
  | some v =>
    obtain ⟨l, is, holds⟩ := rep.holds a v found
    exact ⟨v, l, rfl, is, holds⟩

/-- The loop of `Extend`; `now` are the elements of `b` when it began, which `b` still
begins with, be it `a` itself. -/
theorem extendFrom_represents (now : List LVObject) (n : Nat) :
    ∀ {w : Arrays} {s : Lists} {i : Nat} {v : LVVector} {l' : List LVObject},
      w.Represents s → w.array a = some v → s a = some (l ++ now.take i) → s b = some l' →
      now <+: l' → i + n = now.length →
      (∀ k ∈ requests v.allocated v.size n, k < 2 ^ 60) →
      ∃ w', extendFrom a b n i w = some w' ∧
        w'.Represents (Function.update s a (some (l ++ now))) := by
  induction n with
  | zero =>
    intro w s i v l' rep found is _ _ length _
    refine ⟨w, rfl, ?_⟩
    have whole : s a = some (l ++ now) := by
      rw [is, List.take_of_length_le (by omega)]
    rwa [Function.update_eq_self_iff.mpr whole.symm]
  | succ n ih =>
    intro w s i v l' rep found is source begins length fits
    have lt : i < now.length := by omega
    obtain ⟨u, l₁, foundB, isB, holdsB⟩ := rep.found (a := b) (by rw [source]; nofun)
    obtain rfl := Option.some.inj (isB.symm.trans source)
    have read : u.read w.memory i = some now[i] := by
      have has := LVArray.has_of_lt holdsB (lt.trans_le begins.length_le)
      rw [has.read (lt.trans_le begins.length_le), ← List.getElem?_eq_getElem lt]
      obtain ⟨more, rfl⟩ := begins
      exact List.getElem?_append_left lt
    obtain ⟨l₂, isA, holdsA⟩ := rep.holds a v found
    obtain rfl := Option.some.inj (isA.symm.trans is)
    obtain ⟨m', v', run, has, frame, size, allocated⟩ := holdsA.pushBack (by
      intro full
      refine fits _ ?_
      rw [requests, if_pos full]
      exact List.mem_cons_self) now[i]
    have next : l ++ now.take i ++ [now[i]] = l ++ now.take (i + 1) := by
      rw [List.take_add_one, List.getElem?_eq_getElem lt, List.append_assoc]
      rfl
    rw [next] at has
    have rep' := rep.put (r := (m', v')) (.inl found) (.inl has) frame
    have fits' : ∀ k ∈ requests v'.allocated v'.size n, k < 2 ^ 60 := by
      intro k mem
      refine fits k ?_
      rw [requests]
      rw [size, allocated] at mem
      by_cases full : v.allocated ≤ v.size
      · rw [if_pos full] at mem ⊢
        exact List.mem_cons_of_mem _ mem
      · rw [if_neg full] at mem ⊢
        exact mem
    have source' : ∃ l₃, Function.update s a (some (l ++ now.take (i + 1))) b = some l₃ ∧
        now <+: l₃ := by
      by_cases self : b = a
      · subst self
        obtain rfl := Option.some.inj (is.symm.trans source)
        refine ⟨_, Function.update_self .., begins.trans ?_⟩
        rw [← next]
        exact List.prefix_append _ _
      · exact ⟨_, by rw [Function.update_of_ne self, source], begins⟩
    obtain ⟨l₃, source', begins'⟩ := source'
    obtain ⟨w', rest, after⟩ := ih rep' (i := i + 1) (v := v')
      (Function.update_self ..) (Function.update_self ..) source' begins' (by omega) fits'
    refine ⟨w', ?_, by rwa [Function.update_idem] at after⟩
    simp only [extendFrom, found, foundB, read, LVArray.append, run]
    exact rest

/-- An operation on one array that always does what the list operation does. -/
theorem Represents.on_becomes (rep : w.Represents s) (found : w.array a = some v)
    {f : Storage LVObject → LVVector → Option (Storage LVObject × LVVector)}
    (becomes : Becomes w.memory v (f w.memory v) l) :
    ∃ w', w.on a (fun m v => (f m v).map (true, ·)) = some (done, w') ∧
      w'.Represents (Function.update s a (some l)) := by
  obtain ⟨m', v', run, holds, frame⟩ := becomes
  refine ⟨w.put a (m', v'), ?_, rep.put (.inl found) holds frame⟩
  simp only [on, found, run]
  rfl

/-- An operation on one array that checks its index. -/
theorem Represents.on_checks (rep : w.Represents s) (found : w.array a = some v)
    {f : Storage LVObject → LVVector → Option (Bool × Storage LVObject × LVVector)}
    {inRange : Prop} [Decidable inRange]
    (checks : LVArray.Checks w.memory v inRange (f w.memory v) l) :
    let r := if inRange then (done, Function.update s a (some l)) else (⟨false, none⟩, s)
    ∃ w', w.on a f = some (r.1, w') ∧ w'.Represents r.2 ∧ (r.1.ok = false → w' = w) := by
  by_cases inside : inRange
  · obtain ⟨m', v', run, holds, frame⟩ := checks.1 inside
    simp only [if_pos inside]
    refine ⟨w.put a (m', v'), ?_, rep.put (.inl found) holds frame, nofun⟩
    simp only [on, found, run]
    rfl
  · simp only [if_neg inside]
    refine ⟨w, ?_, rep, fun _ => rfl⟩
    simp only [on, found, checks.2 inside, Option.map_some, put_same found]

/-- One operation does to the arrays what it does to the lists. -/
theorem Represents.apply (weakref : LVObjectValue → LVObject) (rep : w.Represents s)
    {op : Operation} (allowed : Allowed s op) (fits : w.Fits op) :
    ∃ w', w.apply weakref op = some ((meaning weakref s op).1, w') ∧
      w'.Represents (meaning weakref s op).2 ∧ ((meaning weakref s op).1.ok = false → w' = w) := by
  cases op with
  | create a nInitialSize =>
    obtain ⟨new, nonneg⟩ := allowed
    have fits : nInitialSize < 2 ^ 60 := fits
    have same : (nInitialSize % 2 ^ 64).toNat = nInitialSize.toNat := by omega
    obtain ⟨m', v', run, holds, frame⟩ := (holds_empty : LVVector.Holds w.memory LVVector.empty []).resize
      (n := nInitialSize.toNat) (fun _ => by omega) LVObject.null
    refine ⟨w.put a (m', v'), ?_, ?_, nofun⟩
    · rw [Arrays.apply, same, run]
      rfl
    · rw [List.take_nil, List.nil_append, List.length_nil, Nat.sub_zero] at holds
      exact rep.put (.inr rfl) holds frame
  | append a o =>
    obtain ⟨v, l, found, is, holds⟩ := rep.found allowed
    obtain ⟨m', v', run, has, frame, -⟩ := holds.pushBack (fun full => fits v found _ (by
      rw [requests, if_pos full]
      exact List.mem_cons_self)) o
    obtain ⟨w', run, after⟩ := rep.on_becomes found (f := (LVArray.append · · o))
      ⟨m', v', run, .inl has, frame⟩
    exact ⟨w', run, by simpa [meaning, is] using after, nofun⟩
  | insert a idx val =>
    obtain ⟨v, l, found, is, holds⟩ := rep.found allowed
    simp only [meaning, is]
    exact rep.on_checks found (f := (LVArray.insert · · idx val))
      (LVArray.insert_checks holds idx (fits v found) val)
  | remove a idx =>
    obtain ⟨v, l, found, is, holds⟩ := rep.found allowed
    simp only [meaning, is]
    exact rep.on_checks found (f := (LVArray.remove · · idx)) (LVArray.remove_checks holds idx)
  | pop a =>
    obtain ⟨l, is, nonempty⟩ := allowed
    obtain ⟨v, l₁, found, is₁, holds⟩ := rep.found (a := a) (by rw [is]; nofun)
    obtain rfl := Option.some.inj (is₁.symm.trans is)
    obtain ⟨w', run, after⟩ := rep.on_becomes found (f := LVArray.pop)
      (LVArray.pop_becomes holds nonempty)
    exact ⟨w', run, by simpa [meaning, is] using after, nofun⟩
  | resize a size fill =>
    obtain ⟨there, nonneg⟩ := allowed
    obtain ⟨v, l, found, is, holds⟩ := rep.found there
    have fits : size.toNat > v.allocated → size < 2 ^ 60 := fits v found
    obtain ⟨w', run, after⟩ := rep.on_becomes found (f := (LVArray.resize · · size fill))
      (LVArray.resize_becomes holds nonneg (fun larger => by have := fits larger; omega) fill)
    exact ⟨w', run, by simpa [meaning, is] using after, nofun⟩
  | set a nidx val =>
    obtain ⟨v, l, found, is, holds⟩ := rep.found allowed
    simp only [meaning, is]
    exact rep.on_checks found (f := (LVArray.set · · nidx val)) (LVArray.set_checks holds nidx val)
  | get a nidx =>
    obtain ⟨v, l, found, is, holds⟩ := rep.found allowed
    refine ⟨w, ?_, rep, fun _ => rfl⟩
    simp only [Arrays.apply, found, LVArray.get_eq holds, meaning, is, Option.bind_some,
      Option.map_some]
  | extend a b =>
    obtain ⟨thereA, thereB⟩ := allowed
    obtain ⟨v, l, found, is, holds⟩ := rep.found thereA
    obtain ⟨u, l', foundB, isB, holdsB⟩ := rep.found thereB
    obtain ⟨w', run, after⟩ := extendFrom_represents (a := a) (b := b) (l := l) l' u.size
      rep (i := 0) found (by simpa using is) isB (List.prefix_refl _) (by simpa using holdsB.size)
      (fits v u found foundB)
    refine ⟨w', ?_, by simpa [meaning, is, isB] using after, nofun⟩
    simp only [Arrays.apply, foundB, run]
    rfl
  | reverse a =>
    obtain ⟨v, l, found, is, holds⟩ := rep.found allowed
    obtain ⟨w', run, after⟩ := rep.on_becomes found (f := LVArray.reverse)
      (LVArray.reverse_becomes holds)
    exact ⟨w', run, by simpa [meaning, is] using after, nofun⟩
  | clone a b =>
    obtain ⟨there, new⟩ := allowed
    obtain ⟨v, l, found, is, holds⟩ := rep.found there
    obtain ⟨m', v', run, copied, frame⟩ := holds.copy
    refine ⟨w.put b (m', v'), ?_, ?_, nofun⟩
    · simp only [Arrays.apply, found, run]
      rfl
    · simpa [meaning, is] using rep.put (r := (m', v')) (.inr rfl) copied frame

/-- Runs of operations, with what the lists have become. -/
inductive Reaches (weakref : LVObjectValue → LVObject) : Arrays → Lists → Prop
  | initial : Reaches weakref initial fun _ => none
  | step {w w' : Arrays} {s : Lists} {op : Operation} {reply : Reply} (before : Reaches weakref w s)
      (allowed : Allowed s op) (fits : w.Fits op)
      (run : w.apply weakref op = some (reply, w')) : Reaches weakref w' (meaning weakref s op).2

theorem Reaches.represents {weakref : LVObjectValue → LVObject} (reaches : Reaches weakref w s) :
    w.Represents s := by
  induction reaches with
  | initial => exact initial_represents
  | step before allowed fits run ih =>
    obtain ⟨w₁, run₁, after, -⟩ := ih.apply weakref allowed fits
    obtain ⟨-, rfl⟩ := Prod.mk.inj (Option.some.inj (run₁.symm.trans run))
    exact after

/-- In a run that never asks for a block of 2^60 elements or more every operation answers
what it answers on lists, one that fails changes nothing, and every array has the elements
of its list, in a block that has room for them. -/
theorem arrays_refine_lists {weakref : LVObjectValue → LVObject} (reaches : Reaches weakref w s) :
    (∀ op, Allowed s op → w.Fits op → ∃ w',
      w.apply weakref op = some ((meaning weakref s op).1, w') ∧
      Reaches weakref w' (meaning weakref s op).2 ∧
      ((meaning weakref s op).1.ok = false → w' = w)) ∧
    ∀ a v, w.array a = some v → ∃ l, s a = some l ∧ v.size = l.length ∧ v.size ≤ v.allocated ∧
      ∀ i < l.length, v.read w.memory i = l[i]? := by
  have rep := reaches.represents
  refine ⟨fun op allowed fits => ?_, fun a v found => ?_⟩
  · obtain ⟨w', run, -, same⟩ := rep.apply weakref allowed fits
    exact ⟨w', run, .step reaches allowed fits run, same⟩
  · obtain ⟨l, is, holds⟩ := rep.holds a v found
    exact ⟨l, is, holds.size, holds.room, fun i lt => (LVArray.has_of_lt holds lt).read lt⟩

/-- Making an array of three elements. -/
theorem arrays_refine_lists_create : ∃ w, Reaches (fun _ => .null) w
    (meaning (fun _ => .null) (fun _ => none) (.create 0 3)).2 := by
  obtain ⟨w, -, reaches, -⟩ := (arrays_refine_lists (.initial : Reaches (fun _ => .null) _ _)).1
    (.create 0 3) ⟨rfl, by decide⟩ (show (3 : Int) < 2 ^ 60 by decide)
  exact ⟨w, reaches⟩

/-- A block of 2^60 elements has no byte: the resized array is written outside of it. -/
theorem arrays_not_lists : ∃ w s, Reaches (fun _ => .null) w s ∧
    Allowed s (.resize 0 (2 ^ 60) .null) ∧
    w.apply (fun _ => .null) (.resize 0 (2 ^ 60) .null) = none := by
  have reaches : Reaches (fun _ => .null) _ _ := @Reaches.step _ _ _ _ (.create 0 0) _ .initial
    ⟨rfl, by decide⟩ (show (0 : Int) < 2 ^ 60 by decide) rfl
  exact ⟨_, _, reaches, ⟨nofun, by decide⟩, rfl⟩

end Arrays

end Lavril
