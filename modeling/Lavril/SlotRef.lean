import Lavril.Frames
import Lavril.Operators

/-!
# References into the stack

`resize` may move the stack to new storage. A C++ reference to a slot stays with
the storage it was taken in, so a native function that keeps one while script
code runs may come back to storage that has been freed.
-/

namespace Lavril

/-- A virtual machine with the storage that its stack is in. -/
structure PlacedVM extends LVVM where
  storage : Nat

/-- `LVObjectPtr&`, or a pointer, to a slot. -/
structure SlotRef where
  storage : Nat
  slot : Int
  deriving DecidableEq

namespace PlacedVM

variable (s : PlacedVM)

def ref (slot : Int) : SlotRef := ⟨s.storage, slot⟩

/-- Reads through a reference; `freed` is what is left of storage that was freed. -/
def read (freed : SlotRef → LVObject) (r : SlotRef) : LVObject :=
  if r.storage = s.storage then s.stack r.slot else freed r

/-- Writes through a reference, which changes the stack if that is where it leads. -/
def write (r : SlotRef) (o : LVObject) : PlacedVM :=
  if r.storage = s.storage then { s with toLVVM := s.setSlot r.slot o } else s

def push (o : LVObject) : PlacedVM := { s with toLVVM := s.toLVVM.push o }

def pushAll (values : List LVObject) : PlacedVM := values.foldl push s

def pop (n : Nat) : PlacedVM := { s with toLVVM := s.toLVVM.pop n }

/-- `EnterFrame`, where a stack that grows moves. -/
def enterFrame (newbase newtop : Int) (tailcall : Bool) : Option PlacedVM :=
  (s.toLVVM.enterFrame newbase newtop tailcall).map fun v =>
    ⟨v, if v.stacksize = s.stacksize then s.storage else s.storage + 1⟩

def leaveFrame : Option PlacedVM := s.toLVVM.leaveFrame.map fun v => ⟨v, s.storage⟩

/-- The elements of the array at an address. -/
def elements (a : Nat) : List LVObject :=
  match s.heap a with
  | some (.array values) => values
  | _ => []

/-- `Set` of that array at an index, which does nothing beyond its end. -/
def setElement (a n : Nat) (o : LVObject) : PlacedVM :=
  { s with heap := Function.update s.heap a (some (.array ((s.elements a).set n o))) }

end PlacedVM

/-- What script code does that a native function calls: from the number of the
call and of the arguments on the stack, the value it gives or a failure. -/
abbrev Callback := Nat → Nat → PlacedVM → Option LVObject × PlacedVM

/-- A call: the storage before and after it, and whether it has succeeded. -/
structure CallRecord where
  before : Nat
  after : Nat
  succeeded : Bool

/-- What a native function has done with its references. -/
structure RefTrace where
  /-- The uses of references, with the storage of the stack at that moment. -/
  uses : List (SlotRef × Nat) := []
  /-- The first arguments of the calls. -/
  firsts : List LVObject := []
  /-- Values stored through a reference, and what the slot has afterwards. -/
  stores : List (LVObject × LVObject) := []
  calls : List CallRecord := []

def RefTrace.append (t t' : RefTrace) : RefTrace :=
  ⟨t.uses ++ t'.uses, t.firsts ++ t'.firsts, t.stores ++ t'.stores, t.calls ++ t'.calls⟩

/-- Every reference denotes its slot of the current storage when it is used, so
the calls get the array and the slot gets its value. -/
structure RefTrace.Sound (t : RefTrace) (array : LVObject) : Prop where
  uses : ∀ u ∈ t.uses, u.1.storage = u.2
  firsts : ∀ o ∈ t.firsts, o = array
  stores : ∀ p ∈ t.stores, p.2 = p.1

/-- A loop over an array that calls back, with the state `σ` it carries along. -/
structure ArrayLoop (σ : Type) where
  /-- Where each first argument is read: a reference, or a value taken before the loop. -/
  this : SlotRef ⊕ LVObject
  /-- The other arguments. -/
  operands : σ → Nat → LVObject → List LVObject
  result : σ → Nat → LVObject → LVObject → PlacedVM → σ × PlacedVM

namespace ArrayLoop

variable {σ : Type}

/-- The iterations from `n` on, `val` being the last element that was read. -/
def iterate (l : ArrayLoop σ) (freed : SlotRef → LVObject) (callback : Callback) (a : Nat) :
    Nat → Nat → LVObject → σ → PlacedVM → Option σ × PlacedVM × RefTrace
  | 0, _, _, acc, s => (some acc, s, {})
  | k + 1, n, val, acc, s =>
    let val := ((s.elements a)[n]?).getD val
    let first := l.this.elim (s.read freed) id
    let operands := first :: l.operands acc n val
    let called := callback n operands.length (s.pushAll operands)
    let trace : RefTrace := {
      uses := l.this.elim (fun r => [(r, s.storage)]) fun _ => []
      firsts := [first]
      calls := [⟨s.storage, called.2.storage, called.1.isSome⟩] }
    match called.1 with
    | none => (none, called.2.pop operands.length, trace)
    | some res =>
      let (acc, s') := l.result acc n val res (((called.2.pop operands.length).push res).pop 1)
      let (end_, last, rest) := iterate l freed callback a k (n + 1) val acc s'
      (end_, last, trace.append rest)

end ArrayLoop

/-- The native functions that go on after script code they have called. -/
inductive CallingNative where
  | array_filter | array_reduce | array_map | array_apply
  | lv_resume (retval : Bool)

namespace CallingNative

section

variable (freed : SlotRef → LVObject) (callback : Callback) (s : PlacedVM)

/-- `stack_get(v, 1)`. -/
def thisRef : SlotRef := s.ref s.stackbase

/-- `_array(o)`. -/
def thisArray : Nat :=
  match (s.register 0).unVal with
  | .raw bits => bits.toNat
  | .pString _ => 0

/-- Pushes an array that was built. -/
def pushArray (values : List LVObject) (s : PlacedVM) : PlacedVM :=
  let (ret, v) := s.create .OT_ARRAY (.array values)
  PlacedVM.push { s with toLVVM := v } ret

/-- The end of a native function after its loop, with the number of results. -/
def finish {σ : Type} (out : Option σ × PlacedVM × RefTrace) (f : σ → PlacedVM → Int × PlacedVM) :
    Option Int × PlacedVM × RefTrace :=
  match out.1 with
  | none => (none, out.2)
  | some acc => (some (f acc out.2.1).1, (f acc out.2.1).2, out.2.2)

def filterLoop : ArrayLoop (List LVObject) where
  this := .inl (thisRef s)
  operands _ n val := [.integer n, val]
  result ret _ val res s := (if isFalse res then ret else ret ++ [val], s)

def filter : Option Int × PlacedVM × RefTrace :=
  let a := thisArray s
  finish ((filterLoop s).iterate freed callback a (s.elements a).length 0 .null [] s)
    fun ret s => (1, pushArray ret s)

def reduceLoop : ArrayLoop LVObject where
  this := .inl (thisRef s)
  operands res _ other := [res, other]
  result _ _ _ res s := (res, s)

def reduce : Option Int × PlacedVM × RefTrace :=
  let a := thisArray s
  match s.elements a with
  | [] => (some 0, s, {})
  | res :: rest =>
    finish ((reduceLoop s).iterate freed callback a rest.length 1 .null res s)
      fun res s => (1, s.push res)

/-- `__map_array` into a new array. -/
def mapLoop : ArrayLoop (List LVObject) where
  this := .inr (s.register 0)
  operands _ _ temp := [temp]
  result dest _ _ res s := (dest ++ [res], s)

def map : Option Int × PlacedVM × RefTrace :=
  let a := thisArray s
  finish ((mapLoop s).iterate freed callback a (s.elements a).length 0 .null [] s)
    fun ret s => (1, pushArray ret s)

/-- `__map_array` into the array itself. -/
def applyLoop : ArrayLoop Unit where
  this := .inr (s.register 0)
  operands _ _ temp := [temp]
  result _ n _ res s' := ((), s'.setElement (thisArray s) n res)

def apply : Option Int × PlacedVM × RefTrace :=
  let a := thisArray s
  finish ((applyLoop s).iterate freed callback a (s.elements a).length 0 .null () s)
    fun _ s => (0, s)

/-- `lv_resume`, with the address of the slot pushed for the result given to
`Execute`, which swaps the value in once the generator has yielded or returned. -/
def resume (retval : Bool) : Option Int × PlacedVM × RefTrace :=
  if (s.stack (s.top - 1)).type ≠ .OT_GENERATOR then (none, s, {})
  else
    let s₁ := s.push .null
    let outres := s₁.ref (s₁.top - 1)
    let called := callback 0 0 s₁
    let call : CallRecord := ⟨s₁.storage, called.2.storage, called.1.isSome⟩
    match called.1 with
    | none => (none, called.2, { calls := [call] })
    | some temp_reg =>
      let s₂ := called.2.write outres temp_reg
      (some 0, if retval then s₂ else s₂.pop 1, {
        uses := [(outres, called.2.storage)]
        stores := [(temp_reg, s₂.stack outres.slot)]
        calls := [call] })

def run : CallingNative → Option Int × PlacedVM × RefTrace
  | .array_filter => filter freed callback s
  | .array_reduce => reduce freed callback s
  | .array_map => map freed callback s
  | .array_apply => apply freed callback s
  | .lv_resume retval => resume callback s retval

end

/-- No call moves the stack that the function uses a reference after. -/
def StaysInPlace (t : RefTrace) : CallingNative → Prop
  | .array_filter | .array_reduce => ∀ c ∈ t.calls.dropLast, c.after = c.before
  | .array_map | .array_apply => True
  | .lv_resume _ => ∀ c ∈ t.calls, c.succeeded → c.after = c.before

end CallingNative

/-- What `Call` keeps of the frame of its native caller: where it is, and its
slots below the arguments. -/
structure Callback.Keeps (nparams : Nat) (s s' : PlacedVM) : Prop where
  stackbase : s'.stackbase = s.stackbase
  top : s'.top = s.top
  below : ∀ slot, s.stackbase ≤ slot → slot < s.top - nparams → s'.stack slot = s.stack slot

namespace PlacedVM

variable {s : PlacedVM}

/-- No reference goes stale while a metamethod runs: `EnterFrame` refuses to grow
the stack. -/
theorem enterFrame_metamethod {newbase newtop : Int} {tailcall : Bool} {s' : PlacedVM}
    (running : s.nmetamethodscall ≠ 0) (run : s.enterFrame newbase newtop tailcall = some s') :
    s'.storage = s.storage := by
  obtain ⟨v, enter, rfl⟩ := Option.map_eq_some_iff.mp run
  obtain ⟨v₁, frame, grow⟩ := Option.bind_eq_some_iff.mp enter
  have same : v₁.stacksize = s.stacksize ∧ v₁.nmetamethodscall = s.nmetamethodscall := by
    split at frame
    · split at frame
      · cases frame
      · cases frame
        exact ⟨rfl, rfl⟩
    · cases frame
      exact ⟨rfl, rfl⟩
  simp only [same.2, if_pos running] at grow
  split at grow
  · cases grow
  · cases grow
    simp only [same.1, if_true]

theorem pushAll_spec (values : List LVObject) :
    (s.pushAll values).top = s.top + values.length ∧
    (s.pushAll values).stackbase = s.stackbase ∧ (s.pushAll values).storage = s.storage ∧
    ∀ slot, slot < s.top → (s.pushAll values).stack slot = s.stack slot := by
  induction values generalizing s with
  | nil => simp [pushAll]
  | cons o values ih =>
    obtain ⟨top, base, storage, stack⟩ := ih (s := s.push o)
    have top₁ : (s.push o).top = s.top + 1 := rfl
    refine ⟨?_, base, storage, fun slot lt => ?_⟩
    · simp only [pushAll, List.foldl_cons, List.length_cons] at top ⊢
      omega
    · have below := stack slot (by omega)
      rw [push, LVVM.push] at below
      exact below.trans (LVVM.setSlot_stack_of_ne (by omega))

/-- After a call the operands are popped, and the result is pushed and popped. -/
theorem afterCall_spec {s₁ s₂ : PlacedVM} {n : Nat} (o : LVObject)
    (keeps : Callback.Keeps n s₁ s₂) :
    (((s₂.pop n).push o).pop 1).top = s₁.top - n ∧
    (((s₂.pop n).push o).pop 1).stackbase = s₁.stackbase ∧
    ∀ slot, s₁.stackbase ≤ slot → slot < s₁.top - n →
      (((s₂.pop n).push o).pop 1).stack slot = s₁.stack slot := by
  have top := keeps.top
  refine ⟨?_, keeps.stackbase, fun slot low lt => ?_⟩
  · simp only [pop, push, LVVM.pop, LVVM.push]
    omega
  · rw [← keeps.below slot low lt]
    simp only [pop, push, LVVM.pop, LVVM.push]
    rw [LVVM.nullSlots_stack_of_lt (by omega), LVVM.setSlot_stack_of_ne (by omega),
      LVVM.nullSlots_stack_of_lt (by omega)]

end PlacedVM

namespace ArrayLoop

variable {σ : Type} {freed : SlotRef → LVObject} {callback : Callback}

/-- The frame of the native function, with the array at its base. -/
structure InFrame (base : Int) (array : LVObject) (s : PlacedVM) : Prop where
  stackbase : s.stackbase = base
  this : base < s.top
  array : s.stack base = array

/-- What a loop does with the result of a call leaves the frame alone. -/
def Quiet (l : ArrayLoop σ) : Prop :=
  ∀ acc n val res s, (l.result acc n val res s).2.stackbase = s.stackbase ∧
    (l.result acc n val res s).2.top = s.top ∧ (l.result acc n val res s).2.stack = s.stack ∧
    (l.result acc n val res s).2.storage = s.storage

theorem InFrame.next {l : ArrayLoop σ} (quiet : l.Quiet) {base : Int} {array : LVObject}
    {s s₂ : PlacedVM} {operands : List LVObject} (frame : InFrame base array s)
    (keeps : Callback.Keeps operands.length (s.pushAll operands) s₂) (acc : σ) (n : Nat)
    (val res : LVObject) :
    InFrame base array
      (l.result acc n val res (((s₂.pop operands.length).push res).pop 1)).2 ∧
    (l.result acc n val res (((s₂.pop operands.length).push res).pop 1)).2.storage = s₂.storage := by
  obtain ⟨quietBase, quietTop, quietStack, quietStorage⟩ :=
    quiet acc n val res (((s₂.pop operands.length).push res).pop 1)
  obtain ⟨top, base₁, stack⟩ := PlacedVM.afterCall_spec res keeps
  obtain ⟨topAll, baseAll, -, stackAll⟩ := PlacedVM.pushAll_spec (s := s) operands
  have this := frame.this
  have stackbase := frame.stackbase
  refine ⟨⟨?_, ?_, ?_⟩, quietStorage⟩
  · rw [quietBase, base₁, baseAll, stackbase]
  · rw [quietTop, top]
    omega
  · rw [quietStack, stack base (by omega) (by omega), stackAll base this, frame.array]

/-- The calls of a loop whose first arguments are copies get the array. -/
theorem iterate_copy {l : ArrayLoop σ} {array : LVObject} (copy : l.this = .inr array)
    (a k n : Nat) (val : LVObject) (acc : σ) (s : PlacedVM) :
    (l.iterate freed callback a k n val acc s).2.2.Sound array := by
  induction k generalizing n val acc s with
  | zero => exact ⟨by simp [iterate], by simp [iterate], by simp [iterate]⟩
  | succ k ih =>
    simp only [iterate, copy, Sum.elim_inr, id_eq]
    split
    · exact ⟨by simp, by simp, by simp⟩
    · have rest := ih (n + 1)
      refine ⟨?_, ?_, ?_⟩
      · simpa [RefTrace.append] using (rest _ _ _).uses
      · simpa [RefTrace.append] using (rest _ _ _).firsts
      · simpa [RefTrace.append] using (rest _ _ _).stores

/-- An iteration starts with the use of the reference, and makes a call. -/
theorem iterate_starts {l : ArrayLoop σ} {r : SlotRef} (this : l.this = .inl r) (a k n : Nat)
    (val : LVObject) (acc : σ) (s : PlacedVM) :
    (r, s.storage) ∈ (l.iterate freed callback a (k + 1) n val acc s).2.2.uses ∧
    (l.iterate freed callback a (k + 1) n val acc s).2.2.calls ≠ [] := by
  simp only [iterate, this, Sum.elim_inl]
  split
  · simp
  · simp [RefTrace.append]

/-- An iteration that goes on, with the trace of the iterations after it. -/
theorem sound_append_iff {r : SlotRef} {array : LVObject} {here : Nat} {c : CallRecord}
    {rest : RefTrace} (valid : r.storage = here) (before : c.before = here)
    (step : c.after = here → (rest.Sound array ↔ ∀ c ∈ rest.calls.dropLast, c.after = c.before))
    (moved : rest = {} ∨ (r, c.after) ∈ rest.uses ∧ rest.calls ≠ []) :
    (RefTrace.append ⟨[(r, here)], [array], [], [c]⟩ rest).Sound array ↔
      ∀ c' ∈ (RefTrace.append ⟨[(r, here)], [array], [], [c]⟩ rest).calls.dropLast,
        c'.after = c'.before := by
  rcases moved with rfl | ⟨use, calls⟩
  · exact ⟨by simp [RefTrace.append], fun _ => ⟨by simp [RefTrace.append, valid],
      by simp [RefTrace.append], by simp [RefTrace.append]⟩⟩
  · have last : ([c] ++ rest.calls).dropLast = c :: rest.calls.dropLast := by
      rw [List.singleton_append, List.dropLast_cons_of_ne_nil calls]
    simp only [RefTrace.append, last, List.forall_mem_cons]
    constructor
    · intro sound
      have inPlace : c.after = here :=
        (sound.uses (r, c.after) (List.mem_append_right _ use)).symm.trans valid
      have restSound : rest.Sound array := {
        uses := fun u mem => sound.uses u (List.mem_append_right _ mem)
        firsts := fun o mem => sound.firsts o (List.mem_append_right _ mem)
        stores := fun p mem => sound.stores p (List.mem_append_right _ mem) }
      exact ⟨by rw [inPlace, before], (step inPlace).mp restSound⟩
    · rintro ⟨inPlace, others⟩
      have restSound := (step (by rw [inPlace, before])).mpr others
      refine ⟨fun u mem => ?_, fun o mem => ?_, fun p mem => ?_⟩
      · rcases List.mem_append.mp mem with first | later
        · obtain rfl := List.mem_singleton.mp first
          exact valid
        · exact restSound.uses u later
      · rcases List.mem_append.mp mem with first | later
        · exact List.mem_singleton.mp first
        · exact restSound.firsts o later
      · exact restSound.stores p mem

/-- A loop that keeps a reference is sound when no call but the last moves the stack. -/
theorem iterate_ref_iff {l : ArrayLoop σ} {r : SlotRef} {array : LVObject} (this : l.this = .inl r)
    (quiet : l.Quiet)
    (keeps : ∀ n nparams s, Callback.Keeps nparams s (callback n nparams s).2)
    (a k n : Nat) (val : LVObject) (acc : σ) {s : PlacedVM} (frame : InFrame r.slot array s)
    (here : s.storage = r.storage) :
    (l.iterate freed callback a k n val acc s).2.2.Sound array ↔
      ∀ c ∈ (l.iterate freed callback a k n val acc s).2.2.calls.dropLast, c.after = c.before := by
  induction k generalizing n val acc s with
  | zero =>
    exact ⟨by simp [iterate], fun _ => ⟨by simp [iterate], by simp [iterate], by simp [iterate]⟩⟩
  | succ k ih =>
    have first : s.read freed r = array := by
      rw [PlacedVM.read, if_pos here.symm, frame.array]
    simp only [iterate, this, Sum.elim_inl, first]
    split
    · exact ⟨by simp, fun _ => ⟨by simp [here], by simp, by simp⟩⟩
    case h_2 res _ =>
      obtain ⟨frame', storage'⟩ := frame.next quiet (keeps n _ _) acc n _ res
      refine sound_append_iff here.symm rfl (fun inPlace => ?_) ?_
      · exact ih (n + 1) _ _ frame' (by rw [storage', ← here]; exact inPlace)
      · cases k with
        | zero => exact .inl rfl
        | succ k =>
          have starts := @iterate_starts _ freed callback _ _ this a k (n + 1)
          right
          rw [← storage']
          exact starts _ _ _

end ArrayLoop

namespace CallingNative

variable {freed : SlotRef → LVObject} {callback : Callback} {s : PlacedVM}

theorem finish_trace {σ : Type} (out : Option σ × PlacedVM × RefTrace)
    (f : σ → PlacedVM → Int × PlacedVM) : (finish out f).2.2 = out.2.2 := by
  simp only [finish]
  split <;> rfl

theorem inFrame (this : s.stackbase < s.top) :
    ArrayLoop.InFrame (thisRef s).slot (s.register 0) s :=
  ⟨rfl, this, by simp [LVVM.register, thisRef, PlacedVM.ref]⟩

theorem filter_sound_iff (this : s.stackbase < s.top)
    (keeps : ∀ n nparams s, Callback.Keeps nparams s (callback n nparams s).2) :
    (filter freed callback s).2.2.Sound (s.register 0) ↔
      ∀ c ∈ (filter freed callback s).2.2.calls.dropLast, c.after = c.before := by
  simp only [filter, finish_trace]
  exact ArrayLoop.iterate_ref_iff rfl (fun _ _ _ _ _ => ⟨rfl, rfl, rfl, rfl⟩) keeps _ _ _ _ _
    (inFrame this) rfl

theorem reduce_sound_iff (this : s.stackbase < s.top)
    (keeps : ∀ n nparams s, Callback.Keeps nparams s (callback n nparams s).2) :
    (reduce freed callback s).2.2.Sound (s.register 0) ↔
      ∀ c ∈ (reduce freed callback s).2.2.calls.dropLast, c.after = c.before := by
  simp only [reduce]
  split
  · exact ⟨by simp, fun _ => ⟨by simp, by simp, by simp⟩⟩
  · simp only [finish_trace]
    exact ArrayLoop.iterate_ref_iff rfl (fun _ _ _ _ _ => ⟨rfl, rfl, rfl, rfl⟩) keeps _ _ _ _ _
      (inFrame this) rfl

theorem map_sound : (map freed callback s).2.2.Sound (s.register 0) := by
  simp only [map, finish_trace]
  exact ArrayLoop.iterate_copy rfl _ _ _ _ _ _

theorem apply_sound : (apply freed callback s).2.2.Sound (s.register 0) := by
  simp only [apply, finish_trace]
  exact ArrayLoop.iterate_copy rfl _ _ _ _ _ _

theorem resume_sound_iff (retval : Bool) :
    (resume callback s retval).2.2.Sound (s.register 0) ↔
      ∀ c ∈ (resume callback s retval).2.2.calls, c.succeeded → c.after = c.before := by
  simp only [resume]
  split
  · exact ⟨by simp, fun _ => ⟨by simp, by simp, by simp⟩⟩
  · split
    case h_1 failed =>
      simp only [failed, Option.isSome_none]
      exact ⟨by simp, fun _ => ⟨by simp, by simp, by simp⟩⟩
    case h_2 temp_reg value =>
      simp only [value, Option.isSome_some, List.forall_mem_singleton, forall_const]
      constructor
      · intro sound
        exact (sound.uses _ (List.mem_singleton_self _)).symm
      · intro inPlace
        refine ⟨?_, by simp, ?_⟩
        · simp [PlacedVM.ref, inPlace]
        · simp [PlacedVM.write, PlacedVM.ref, inPlace]

/-- A callback that needs so many slots above its arguments and gives null. -/
def deepCallback (slots : Int) : Callback := fun _ nparams s =>
  match (s.enterFrame (s.top - nparams) (s.top + slots) false).bind PlacedVM.leaveFrame with
  | some s' => if s.top ≤ s.stacksize then (some .null, s') else (none, s)
  | none => (none, s)

theorem deepCallback_keeps (slots : Int) (n nparams : Nat) (s : PlacedVM) :
    Callback.Keeps nparams s (deepCallback slots n nparams s).2 := by
  simp only [deepCallback]
  split
  case h_2 => exact ⟨rfl, rfl, fun _ _ _ => rfl⟩
  case h_1 s' run =>
    split
    case isFalse => exact ⟨rfl, rfl, fun _ _ _ => rfl⟩
    case isTrue inside =>
      obtain ⟨entered, entering, leaving⟩ := Option.bind_eq_some_iff.mp run
      obtain ⟨v₁, enter, rfl⟩ := Option.map_eq_some_iff.mp entering
      obtain ⟨v₂, leave, rfl⟩ := Option.map_eq_some_iff.mp leaving
      obtain ⟨base, top, ⟨ci, frame, prevbase, prevtop, -⟩, stack, -⟩ := LVVM.enterFrame_spec enter
      obtain ⟨base', top', -, stack'⟩ := LVVM.leaveFrame_spec frame leave
      have topSame : v₂.top = s.top := by
        rw [top', base, prevbase, prevtop]
        omega
      refine ⟨?_, topSame, fun slot _ lt => ?_⟩
      · simp only [base', base, prevbase]
        omega
      · have low : slot < v₂.top := by omega
        exact (stack' slot low).trans (stack slot (by omega) (by omega))

/-- The frame of `filter` on an array of two elements, 24 slots below the end of
the stack. -/
def filterFrame : PlacedVM where
  stack slot := if slot = 998 then .ofAddress .OT_ARRAY 0 else .null
  stacksize := 1024
  stackbase := 998
  top := 1000
  callsstack := []
  alloccallsstacksize := 4
  nmetamethodscall := 0
  nnativecalls := 0
  etraps := []
  openouters := []
  heap a := if a = 0 then some (.array [.integer 1, .integer 2]) else none
  next := 1
  storage := 0

end CallingNative

end Lavril
