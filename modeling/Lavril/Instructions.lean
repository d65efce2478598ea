import Lavril.Operators
import Mathlib.Data.BitVec
import Mathlib.Logic.Function.Basic

/-!
# Instructions that work on objects

`execute` runs one instruction of a frame. What `Get`, `Set` and the other
operations on objects do is a parameter. They may run script code, which sees
the objects and everything else outside of the frame (`World`), the last error
and the registers of the frame that a closure has captured, and may change any
of it. No other register can be reached from outside.
-/

namespace Lavril

/-- Why an operation does not come to its end: an error is in `_lasterror`, or
the processor has trapped a division. -/
inductive Abort where
  | raised
  | fault
  deriving DecidableEq

section

variable (captured : Int → Prop) (World : Type)

structure Interpreter where
  regs : Int → LVObject
  lasterror : LVObject
  world : World

/-- What an operation on objects can see and change. -/
structure Visible where
  cells : {r // captured r} → LVObject
  lasterror : LVObject
  world : World

/-- A reference handed to an operation: to a captured register or to a value
that stays as it is. -/
inductive Operand where
  | value (o : LVObject)
  | register (r : {r // captured r})

abbrev Operation (α : Type) := EStateM Abort (Visible captured World) α

/-- What is not represented. The number handed to `get` and `set` is `selfidx`,
that handed to `getOuter` and `setOuter` the outer's place in the closure. -/
structure Operations where
  get : Operand captured → Operand captured → Int → Operation captured World LVObject
  set : Operand captured → Operand captured → Operand captured → Int → Operation captured World Unit
  newSlot : Operand captured → Operand captured → Operand captured → Operation captured World Unit
  append : Operand captured → LVObject → Operation captured World Unit
  setOuter : Int → LVObject → Operation captured World Unit
  /-- `ARITH_OP` on operands that are not both numbers: `StringCat`, `ArithMetaMethod`. -/
  arithObjects : Char → Operand captured → Operand captured → Operation captured World LVObject
  floatArith : Char → LVObject → LVObject → LVObject
  /-- `tofloat(o1) == tofloat(o2)`. -/
  floatEq : LVObject → LVObject → Bool
  /-- The instructions that `execute` leaves out. -/
  other : LVInstruction → EStateM Abort (Interpreter World) Unit

end

section

variable {captured : Int → Prop} {World σ : Type}

/-- What stands in a referred place. -/
def Operand.read (o : Operand captured) (s : Visible captured World) : LVObject :=
  match o with
  | .value o => o
  | .register r => s.cells r

def Visible.raiseError (text : String) {α : Type} : Operation captured World α :=
  fun s => .error .raised { s with lasterror := .string text }

/-! ## Arithmetic -/

/-- The limit of a 32-bit `int`. -/
def INT_MIN : BitVec 64 := BitVec.ofInt 64 (-2147483648)

/-- The division instruction of the processor, and its remainder. -/
def machineDivide (divide : BitVec 64 → BitVec 64 → BitVec 64) (i1 i2 : BitVec 64) :
    EStateM Abort σ LVObject := fun s =>
  if i2 = 0 ∨ (i1 = BitVec.intMin 64 ∧ i2 = -1) then .error .fault s
  else .ok (.integer (divide i1 i2)) s

/-- `ARITH_OP` on two integers. -/
def arithIntegers (op : Char) (i1 i2 : BitVec 64) : Operation captured World LVObject :=
  if op = '+' then pure (.integer (i1 + i2))
  else if op = '-' then pure (.integer (i1 - i2))
  else if op = '/' then
    if i2 = 0 then Visible.raiseError "division by zero"
    else if i2 = -1 ∧ i1 = INT_MIN then Visible.raiseError "integer overflow"
    else machineDivide BitVec.sdiv i1 i2
  else if op = '*' then pure (.integer (i1 * i2))
  else if op = '%' then
    if i2 = 0 then Visible.raiseError "modulo by zero"
    else if i2 = -1 ∧ i1 = INT_MIN then pure (.integer 0)
    else machineDivide BitVec.srem i1 i2
  else pure (.integer 0xDEADBEEF)

variable (ops : Operations captured World)

/-- `ARITH_OP`. -/
def arithOp (op : Char) (o1 o2 : Operand captured) : Operation captured World LVObject := fun s =>
  match o1.read s, o2.read s with
  | ⟨.OT_INTEGER, .raw i1⟩, ⟨.OT_INTEGER, .raw i2⟩ => arithIntegers op i1 i2 s
  | a, b => if isNumeric a ∧ isNumeric b then .ok (ops.floatArith op a b) s
    else ops.arithObjects op o1 o2 s

/-- The macro `_ARITH_`, with what it computes for integers. -/
def arithMacro (integers : BitVec 64 → BitVec 64 → Operation captured World LVObject) (op : Char)
    (o1 o2 : Operand captured) : Operation captured World LVObject := fun s =>
  match o1.read s, o2.read s with
  | ⟨.OT_INTEGER, .raw i1⟩, ⟨.OT_INTEGER, .raw i2⟩ => integers i1 i2 s
  | a, b => if isNumeric a ∧ isNumeric b then .ok (ops.floatArith op a b) s
    else arithOp ops op o1 o2 s

/-- `_ARITH_NOZERO`, on integers. -/
def divideNoZero (i1 i2 : BitVec 64) : Operation captured World LVObject :=
  if i2 = 0 then Visible.raiseError "division by zero" else machineDivide BitVec.sdiv i1 i2

/-- `IsEqual`. -/
def Operations.isEqual (o1 o2 : LVObject) : Bool :=
  if o1.type = o2.type then o1.unVal = o2.unVal
  else if isNumeric o1 ∧ isNumeric o2 then ops.floatEq o1 o2
  else false

/-! ## The interpreter -/

theorem then_ok {α β : Type} {x : EStateM Abort σ α} {g : α → EStateM Abort σ β} {f f₁ : σ} {a : α}
    (run : x f = .ok a f₁) : (x >>= g) f = g a f₁ := by
  change EStateM.bind x g f = _
  unfold EStateM.bind
  rw [run]

theorem then_error {α β : Type} {x : EStateM Abort σ α} {g : α → EStateM Abort σ β} {f f₁ : σ}
    {e : Abort} (run : x f = .error e f₁) : (x >>= g) f = .error e f₁ := by
  change EStateM.bind x g f = _
  unfold EStateM.bind
  rw [run]

namespace Interpreter

variable [DecidablePred captured]

/-- The reference `STK(r)`. -/
def operand (f : Interpreter World) (r : Int) : Operand captured :=
  if h : captured r then .register ⟨r, h⟩ else .value (f.regs r)

def visible (f : Interpreter World) : Visible captured World :=
  ⟨fun r => f.regs r, f.lasterror, f.world⟩

/-- The frame after an operation. -/
def update (f : Interpreter World) (s : Visible captured World) : Interpreter World where
  regs r := if h : captured r then s.cells ⟨r, h⟩ else f.regs r
  lasterror := s.lasterror
  world := s.world

/-- Runs an operation on references to the frame. -/
def perform {α : Type} (operation : Interpreter World → Operation captured World α) :
    EStateM Abort (Interpreter World) α := fun f =>
  match operation f f.visible with
  | .ok a s => .ok a (f.update s)
  | .error e s => .error e (f.update s)

def setReg (f : Interpreter World) (r : Int) (o : LVObject) : Interpreter World :=
  { f with regs := Function.update f.regs r o }

@[simp] theorem setReg_self (f : Interpreter World) (r : Int) (o : LVObject) :
    (f.setReg r o).regs r = o := Function.update_self ..

theorem setReg_of_ne (f : Interpreter World) {r s : Int} (o : LVObject) (ne : s ≠ r) :
    (f.setReg r o).regs s = f.regs s := Function.update_of_ne ne ..

def store (r : Int) (o : LVObject) : EStateM Abort (Interpreter World) Unit := fun f =>
  .ok ⟨⟩ (f.setReg r o)

/-- `STK(r) = STK(r')`. -/
def move (r r' : Int) : EStateM Abort (Interpreter World) Unit := fun f =>
  store r (f.regs r') f

/-- The result of a call of `ARITH_OP` that is not looked at. -/
def unguarded (x : EStateM Abort (Interpreter World) Unit) : EStateM Abort (Interpreter World) Unit :=
  fun f =>
    match x f with
    | .error .raised f => .ok ⟨⟩ f
    | result => result

theorem operand_of_not {r : Int} (hidden : ¬ captured r) (f : Interpreter World) :
    f.operand r = (.value (f.regs r) : Operand captured) := dif_neg hidden

theorem operand_read (f : Interpreter World) (r : Int) :
    (f.operand r : Operand captured).read f.visible = f.regs r := by
  unfold operand
  split <;> rfl

theorem perform_congr {α : Type}
    {operation operation' : Interpreter World → Operation captured World α}
    {f : Interpreter World} (eq : operation f f.visible = operation' f f.visible) :
    perform operation f = perform operation' f := by
  unfold perform
  rw [eq]

theorem perform_ok {α : Type} {operation : Interpreter World → Operation captured World α}
    {f : Interpreter World} {a : α} {s : Visible captured World}
    (run : operation f f.visible = .ok a s) : perform operation f = .ok a (f.update s) := by
  unfold perform
  rw [run]

theorem perform_error {α : Type} {operation : Interpreter World → Operation captured World α}
    {f : Interpreter World} {e : Abort} {s : Visible captured World}
    (run : operation f f.visible = .error e s) : perform operation f = .error e (f.update s) := by
  unfold perform
  rw [run]

theorem update_regs (f : Interpreter World) (s : Visible captured World) {r : Int}
    (hidden : ¬ captured r) : (f.update s).regs r = f.regs r := dif_neg hidden

/-- What an operation does not see stays. -/
theorem perform_regs {α : Type} {operation : Interpreter World → Operation captured World α}
    {f f₁ : Interpreter World} {a : α} (run : perform operation f = .ok a f₁) {r : Int}
    (hidden : ¬ captured r) : f₁.regs r = f.regs r := by
  unfold perform at run
  split at run
  · cases run
    exact update_regs f _ hidden
  · cases run

/-- `DerefInc` for a compound assignment. `self` and `key` are copied; the result
is in the target before it is stored in the object. -/
def derefInc (op : Char) (target self key incr : Int) : EStateM Abort (Interpreter World) Unit :=
  fun f => (do
    let tself := Operand.value (f.regs self)
    let tkey := Operand.value (f.regs key)
    let tmp ← perform fun _ => ops.get tself tkey self
    let result ← perform fun f => arithOp ops op (.value tmp) (f.operand incr)
    store target result
    perform fun f => ops.set tself tkey (f.operand target) self) f

/-- The object that `APPENDARRAY` appends. -/
def appended (literals : Int → LVObject) (i : LVInstruction) (f : Interpreter World) : LVObject :=
  if i.arg2 = AAT_STACK then f.regs i.arg1
  else if i.arg2 = AAT_LITERAL then literals i.arg1
  else if i.arg2 = AAT_INT then .integer (BitVec.ofInt 64 i.arg1)
  else if i.arg2 = AAT_FLOAT then .float ((BitVec.ofInt 32 i.arg1).setWidth 64)
  else if i.arg2 = AAT_BOOL then ⟨.OT_BOOL, .raw (BitVec.ofInt 64 i.arg1)⟩
  else .integer 0

/-- `PREPCALL` and `PREPCALLK`, with the key. -/
def prepCall (key : Interpreter World → Operand captured) (i : LVInstruction) :
    EStateM Abort (Interpreter World) Unit := do
  let value ← perform fun f => ops.get (f.operand i.arg2) (key f) i.arg2
  move i.arg3 i.arg2
  store i.arg0 value

/-- The instruction `i`; `literals` are `_literals` of the running function. -/
def execute (literals : Int → LVObject) (i : LVInstruction) :
    EStateM Abort (Interpreter World) Unit :=
  let condLiteral (f : Interpreter World) : LVObject :=
    if i.arg3 ≠ 0 then literals i.arg1 else f.regs i.arg1
  let arith (operation : Operand captured → Operand captured → Operation captured World LVObject) :
      EStateM Abort (Interpreter World) Unit := do
    let result ← perform fun f => operation (f.operand i.arg2) (f.operand i.arg1)
    store i.arg0 result
  match i.op with
  | .OP_LOAD => store i.arg0 (literals i.arg1)
  | .OP_LOADINT => store i.arg0 (.integer (BitVec.ofInt 64 i.arg1))
  | .OP_LOADFLOAT => store i.arg0 (.float ((BitVec.ofInt 32 i.arg1).setWidth 64))
  | .OP_LOADBOOL => store i.arg0 (.bool (decide (i.arg1 ≠ 0)))
  | .OP_DLOAD => do
    store i.arg0 (literals i.arg1)
    store i.arg2 (literals i.arg3)
  | .OP_PREPCALL => prepCall ops (·.operand i.arg1) i
  | .OP_PREPCALLK => prepCall ops (fun _ => .value (literals i.arg1)) i
  | .OP_GETK => do
    let value ← perform fun f => ops.get (f.operand i.arg2) (.value (literals i.arg1)) i.arg2
    store i.arg0 value
  | .OP_GET => do
    let value ← perform fun f => ops.get (f.operand i.arg1) (f.operand i.arg2) i.arg1
    store i.arg0 value
  | .OP_MOVE => move i.arg0 i.arg1
  | .OP_DMOVE => do
    move i.arg0 i.arg1
    move i.arg2 i.arg3
  | .OP_NEWSLOT => do
    perform fun f => ops.newSlot (f.operand i.arg1) (f.operand i.arg2) (f.operand i.arg3)
    if i.arg0 ≠ 0xFF then move i.arg0 i.arg3
  | .OP_SET => do
    perform fun f => ops.set (f.operand i.arg1) (f.operand i.arg2) (f.operand i.arg3) i.arg1
    if i.arg0 ≠ 0xFF then move i.arg0 i.arg3
  | .OP_SETOUTER => do
    perform fun f => ops.setOuter i.arg1 (f.regs i.arg2)
    if i.arg0 ≠ 0xFF then move i.arg0 i.arg2
  | .OP_EQ => fun f => store i.arg0 (.bool (ops.isEqual (f.regs i.arg2) (condLiteral f))) f
  | .OP_NE => fun f => store i.arg0 (.bool (!ops.isEqual (f.regs i.arg2) (condLiteral f))) f
  | .OP_ADD => arith (arithMacro ops (fun i1 i2 => pure (.integer (i1 + i2))) '+')
  | .OP_SUB => arith (arithMacro ops (fun i1 i2 => pure (.integer (i1 - i2))) '-')
  | .OP_MUL => arith (arithMacro ops (fun i1 i2 => pure (.integer (i1 * i2))) '*')
  | .OP_DIV => arith (arithMacro ops divideNoZero '/')
  | .OP_MOD => unguarded (arith (arithOp ops '%'))
  | .OP_LOADNULLS => fun f => .ok ⟨⟩ { f with regs := fun r =>
      if i.arg0 ≤ r ∧ r < i.arg0 + i.arg1 then .null else f.regs r }
  | .OP_APPENDARRAY => perform fun f => ops.append (f.operand i.arg0) (appended literals i f)
  | .OP_COMPARITH =>
    -- the object's register and the operand's share `arg1`
    let arg1 : BitVec 32 := BitVec.ofInt 32 i.arg1
    derefInc ops (Char.ofNat i.arg3) i.arg0 (arg1 >>> 16).toNat i.arg2 (arg1 &&& 0xFFFF#32).toNat
  | _ => ops.other i

/-! ## Frames that differ in some registers -/

/-- The same frame apart from the registers in `free`. -/
structure SameOff (free : Int → Prop) (f f' : Interpreter World) : Prop where
  regs : ∀ r, ¬ free r → f'.regs r = f.regs r
  lasterror : f'.lasterror = f.lasterror
  world : f'.world = f.world

/-- The same result, on frames that are the same apart from `free`, or apart from
`freed` when there is an error. -/
inductive SameResult {α : Type} (free freed : Int → Prop) :
    EStateM.Result Abort (Interpreter World) α → EStateM.Result Abort (Interpreter World) α → Prop
  | ok {a f f'} (same : SameOff free f f') : SameResult free freed (.ok a f) (.ok a f')
  | raised {f f'} (same : SameOff freed f f') :
      SameResult free freed (.error .raised f) (.error .raised f')
  | fault {f f'} : SameResult free freed (.error .fault f) (.error .fault f')

variable {free freed free' : Int → Prop} {f f' : Interpreter World} {α β : Type}

theorem SameOff.refl (f : Interpreter World) : SameOff free f f := ⟨fun _ _ => rfl, rfl, rfl⟩

theorem SameOff.mono (same : SameOff free f f') (imp : ∀ r, free r → free' r) :
    SameOff free' f f' :=
  ⟨fun r notFree => same.regs r fun h => notFree (imp r h), same.lasterror, same.world⟩

theorem SameOff.operand (same : SameOff free f f') {r : Int} (notFree : ¬ free r) :
    f'.operand r = (f.operand r : Operand captured) := by
  unfold Interpreter.operand
  by_cases h : captured r
  · rw [dif_pos h, dif_pos h]
  · rw [dif_neg h, dif_neg h, same.regs r notFree]

omit [DecidablePred captured] in
theorem SameOff.visible (same : SameOff free f f') (hidden : ∀ r, free r → ¬ captured r) :
    f'.visible = (f.visible : Visible captured World) := by
  unfold Interpreter.visible
  rw [same.lasterror, same.world]
  congr 1
  funext r
  exact same.regs r fun h => hidden r h r.2

theorem SameOff.update (same : SameOff free f f') (s : Visible captured World) :
    SameOff free (f.update s) (f'.update s) where
  regs r notFree := by
    unfold Interpreter.update
    by_cases h : captured r
    · simp only [dif_pos h]
    · simp only [dif_neg h]
      exact same.regs r notFree
  lasterror := rfl
  world := rfl

/-- The same operation cannot tell the frames apart. -/
theorem SameOff.perform {operation operation' : Interpreter World → Operation captured World α}
    (same : SameOff free f f') (hidden : ∀ r, free r → ¬ captured r)
    (eq : operation' f' = operation f) :
    SameResult free free (perform operation f) (perform operation' f') := by
  unfold Interpreter.perform
  rw [eq, same.visible hidden]
  cases operation f f.visible with
  | ok a s => exact .ok (same.update s)
  | error e s =>
    cases e with
    | raised => exact .raised (same.update s)
    | fault => exact .fault

/-- A register that is written is the same afterwards. -/
theorem SameOff.store (same : SameOff free f f') (r : Int) (o : LVObject) :
    SameResult (fun s => free s ∧ s ≠ r) freed (store r o f) (store r o f') := by
  refine .ok ⟨fun s notFree => ?_, same.lasterror, same.world⟩
  by_cases eq : s = r
  · rw [eq, setReg_self, setReg_self]
  · rw [setReg_of_ne f o eq, setReg_of_ne f' o eq]
    exact same.regs s fun h => notFree ⟨h, eq⟩

/-- A register that is written on one side only. -/
theorem SameOff.store_left (same : SameOff free f f') {r : Int} (isFree : free r) (o : LVObject) :
    SameOff free (f.setReg r o) f' := by
  refine ⟨fun s notFree => ?_, same.lasterror, same.world⟩
  have ne : s ≠ r := fun eq => notFree (eq ▸ isFree)
  rw [setReg_of_ne f o ne]
  exact same.regs s notFree

theorem SameResult.sameOff {x y : EStateM.Result Abort (Interpreter World) α} {a b : α}
    (same : SameResult free freed x y) (left : x = .ok a f) (right : y = .ok b f') :
    SameOff free f f' := by
  subst left right
  cases same with
  | ok same => exact same

theorem SameResult.mono {x y : EStateM.Result Abort (Interpreter World) α} {freed' : Int → Prop}
    (same : SameResult free freed x y) (imp : ∀ r, free r → free' r)
    (imp' : ∀ r, freed r → freed' r) : SameResult free' freed' x y := by
  cases same with
  | ok same => exact .ok (same.mono imp)
  | raised same => exact .raised (same.mono imp')
  | fault => exact .fault

theorem SameResult.bind {x y : EStateM Abort (Interpreter World) α}
    {g h : α → EStateM Abort (Interpreter World) β} (first : SameResult free freed (x f) (y f'))
    (rest : ∀ a f₁ f₁', x f = .ok a f₁ → y f' = .ok a f₁' → SameOff free f₁ f₁' →
      SameResult free' freed (g a f₁) (h a f₁')) :
    SameResult free' freed ((x >>= g) f) ((y >>= h) f') := by
  change SameResult free' freed (EStateM.bind x g f) (EStateM.bind y h f')
  unfold EStateM.bind
  generalize eq : x f = a, eq' : y f' = b at first
  cases first with
  | ok same => exact rest _ _ _ eq eq' same
  | raised same => exact .raised same
  | fault => exact .fault

end Interpreter

end

end Lavril
