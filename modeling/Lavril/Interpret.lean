import Lavril.Execute
import Lavril.Metamethod

/-!
# The interpreter loop and what its operations report

One round of the loop of `Execute`, for every instruction. Most operations answer whether
they have succeeded; `_GUARD` goes to `exception_trap` when one has not.

How a call is started, what `Next` finds and how classes are made is a parameter. `none` as
the result of a round is one that does not come to its end. The debug hook is off.
-/

namespace Lavril

namespace Interpret

def NEW_SLOT_ATTRIBUTES_FLAG : Nat := 0x01

/-- How an instruction leaves the loop: to `exception_trap`, or by returning true. -/
inductive Exit where
  | THROW
  | RETURN
  deriving DecidableEq

/-- The machine inside `Execute`. -/
structure Loop (Heap : Type) extends MetaVM Heap where
  outres : LVObject
  traps : Int
  /-- A record: an operation has reported failure, or an error has been raised. -/
  failed : Bool

abbrev LoopM (Heap : Type) := ExceptT Exit (StateT (Loop Heap) Option)

/-- What is not represented. -/
structure Rest (Heap : Type) where
  alive : LVObject → Bool
  /-- With the target, the number of arguments, the base and whether it is a tail call. -/
  StartCall : LVObject → Int → Nat → Int → Bool → ObjectM Heap (Option Unit)
  /-- Gives the result, and whether the function has suspended the machine. -/
  CallNative : LVObject → Nat → Int → ObjectM Heap (Option (LVObject × Bool))
  /-- Gives the instance and the constructor. -/
  CreateClassInstance : LVObject → ObjectM Heap (LVObject × LVObject)
  /-- `LVClass::Create`. -/
  createClass : Option LVObject → ObjectM Heap LVObject
  setAbstract : LVObject → ObjectM Heap Unit
  /-- `Next` of a table, an array, a string or a class: the position, the key and the value. -/
  next : Heap → LVObject → LVObject → Option (BitVec 64 × LVObject × LVObject)
  instanceOf : Heap → LVObject → LVObject → Bool
  /-- `LOADROOT`, `GETBASE`, `APPENDARRAY` and a `NEWOBJ` of a table or an array. -/
  others : LVInstruction → ObjectM Heap Unit

section primitives

variable {Heap α β : Type}

def Loop.setVM (s : Loop Heap) (v : LVVM) : Loop Heap :=
  { s with toMetaVM := { s.toMetaVM with toLVVM := v } }

def current : LoopM Heap (Loop Heap) := fun s => some (.ok s, s)

def update (f : Loop Heap → Loop Heap) : LoopM Heap Unit := fun s => some (.ok (), f s)

def leave (exit : Exit) : LoopM Heap α := fun s => some (.error exit, s)

/-- An operation that cannot fail, or whose answer is no failure. -/
def operate (op : ObjectM Heap α) : LoopM Heap α := fun s =>
  match op s.toMetaVM with
  | none => none
  | some (a, vm) => some (.ok a, { s with toMetaVM := vm })

/-- An operation that reports whether it has succeeded. -/
def report (op : ObjectM Heap (Option α)) : LoopM Heap (Option α) := fun s =>
  match op s.toMetaVM with
  | none => none
  | some (result, vm) =>
    some (.ok result, { s with toMetaVM := vm, failed := s.failed || result.isNone })

/-- An instruction on the frames, the registers and the closure alone. -/
def onFrame (f : LVVM → Option LVVM) : LoopM Heap Unit := fun s =>
  match f s.toLVVM with
  | none => none
  | some v => some (.ok (), s.setVM v)

def Raise_Error (desc : LVObject) : LoopM Heap Unit :=
  update fun s => { s with lasterror := desc, failed := true }

/-- `Raise_Error` and `THROW()`. -/
def raiseThrow (desc : LVObject) : LoopM Heap α := do
  Raise_Error desc
  leave .THROW

/-- `Raise_Error` and `return false`. -/
def raiseFalse (desc : LVObject) : LoopM Heap (Option α) := do
  Raise_Error desc
  return none

def _GUARD (exp : LoopM Heap (Option α)) : LoopM Heap α := do
  match ← exp with
  | some a => return a
  | none => leave .THROW

/-- `_RET_ON_FAIL`. -/
def retOnFail (exp : LoopM Heap (Option α)) (rest : α → LoopM Heap (Option β)) :
    LoopM Heap (Option β) := do
  match ← exp with
  | some a => rest a
  | none => return none

def STK (a : Int) : LoopM Heap LVObject := do return (← current).register a

/-- `STK(a) = o`. -/
def store (a : Int) (o : LVObject) : LoopM Heap Unit :=
  update fun s => s.setVM (s.setSlot (s.stackbase + a) o)

/-- `ci->_ip += offset`. -/
def skip (offset : Int) : LoopM Heap Unit := update fun s => s.setVM (s.jump offset)

/-- `ci->_literals[n]`. -/
def literal (n : Int) : LoopM Heap LVObject := do
  return ((← current).callsstack.head?.bind fun ci => Frame.literal ci.literals n).getD .null

end primitives

section loop

variable {Heap : Type} (W : Objects Heap) (rest : Rest Heap) (fuel : Nat)

/-! ## Operators -/

/-- The macro `_ARITH_`. -/
def _ARITH_ (op : Char) (integers : BitVec 64 → BitVec 64 → BitVec 64) (o1 o2 : LVObject) :
    LoopM Heap LVObject :=
  if o1.type = .OT_INTEGER ∧ o2.type = .OT_INTEGER then
    return .integer (integers o1.bits o2.bits)
  else if o1.type.isnumeric ∧ o2.type.isnumeric then return W.floatOp op o1 o2
  else _GUARD (report (ObjectM.ARITH_OP W fuel op o1 o2))

/-- `_ARITH_NOZERO` for the division, which the processor may trap. -/
def _ARITH_NOZERO (o1 o2 : LVObject) : LoopM Heap LVObject :=
  if o1.type = .OT_INTEGER ∧ o2.type = .OT_INTEGER then
    if o2.bits = 0 then raiseThrow (.string "division by zero")
    else if o1.bits = BitVec.intMin 64 ∧ o2.bits = -1 then fun _ => none
    else return .integer (o1.bits.sdiv o2.bits)
  else if o1.type.isnumeric ∧ o2.type.isnumeric then return W.floatOp '/' o1 o2
  else _GUARD (report (ObjectM.ARITH_OP W fuel '/' o1 o2))

/-- `BW_OP`; a shift by 64 bits or more is undefined. -/
def BW_OP (op : Nat) (o1 o2 : LVObject) : ObjectM Heap (Option LVObject) :=
  if o1.type = .OT_INTEGER ∧ o2.type = .OT_INTEGER then
    match bwOp op o1 o2 with
    | some res => return some res
    | none =>
      if BW_SHIFTL ≤ op ∧ op ≤ BW_USHIFTR then failure
      else ObjectM.raise "internal vm error bitwise op failed"
  else ObjectM.raise ("bitwise op between '" ++ o1.type.name ++ "' and '" ++ o2.type.name ++ "'")

/-- `IsEqual`, which always succeeds. -/
def IsEqual (o1 o2 : LVObject) : Bool :=
  if o1.type = o2.type then o1.unVal = o2.unVal
  else if o1.type.isnumeric ∧ o2.type.isnumeric then W.floatEqual o1 o2
  else false

/-- `CMP_OP` with the operator of an instruction. -/
def CMP_OP (op : Nat) (o1 o2 : LVObject) : ObjectM Heap (Option LVObject) :=
  if op = CMP_G.toNat then ObjectM.CMP_OP W .CMP_G o1 o2
  else if op = CMP_GE.toNat then ObjectM.CMP_OP W .CMP_GE o1 o2
  else if op = CMP_L.toNat then ObjectM.CMP_OP W .CMP_L o1 o2
  else if op = CMP_LE.toNat then ObjectM.CMP_OP W .CMP_LE o1 o2
  else if op = CMP_3W.toNat then ObjectM.CMP_OP W .CMP_3W o1 o2
  else do
    discard (ObjectM.ObjCmp W o1 o2)
    return none

/-- `PLOCAL_INC`. -/
def PLOCAL_INC (op : Char) (target a : Int) (incr : LVObject) : LoopM Heap (Option Unit) := do
  let old ← STK a
  retOnFail (report (ObjectM.ARITH_OP W fuel op old incr)) fun trg => do
    store target (← STK a)
    store a trg
    return some ()

/-- `DerefInc`; `incr` is read after the object. -/
def DerefInc (op : Char) (target self key : Int) (incr : LoopM Heap LVObject) (postfix_ : Bool) :
    LoopM Heap (Option Unit) := do
  let tself ← STK self
  let tkey ← STK key
  retOnFail (report (ObjectM.Get W fuel tself tkey false false (self = 0))) fun tmp => do
    let increment ← incr
    retOnFail (report (ObjectM.ARITH_OP W fuel op tmp increment)) fun result => do
      store target result
      retOnFail (report (ObjectM.Set W fuel tself tkey result (self = 0))) fun _ => do
        if postfix_ then store target tmp
        return some ()

/-! ## Calls -/

/-- `_class->_abstract`. -/
def isAbstract (v : LVVM) (clo : LVObject) : Bool :=
  match v.lookup clo with
  | some (.class c) => c.abstract
  | _ => false

/-- `CALL`. -/
def callInstruction (i : LVInstruction) : LoopM Heap Unit := do
  let clo ← STK i.arg1
  let stkbase := (← current).stackbase + i.arg2
  match clo.type with
  | .OT_CLOSURE => _GUARD (report (rest.StartCall clo i.sarg0 i.arg3 stkbase false))
  | .OT_NATIVECLOSURE =>
    let (retval, suspend) ← _GUARD (report (rest.CallNative clo i.arg3 stkbase))
    if suspend then
      update fun s => { s with outres := retval }
      leave .RETURN
    else if i.sarg0 ≠ -1 then store i.arg0 retval
  | .OT_CLASS =>
    if isAbstract (← current).toLVVM clo then
      raiseThrow (.string "attempt to call abstract object explicit")
    else
      let (inst, constructor) ← operate (rest.CreateClassInstance clo)
      if i.sarg0 ≠ -1 then store i.arg0 inst
      match constructor.type with
      | .OT_CLOSURE =>
        update fun s => s.setVM (s.setSlot stkbase inst)
        _GUARD (report (rest.StartCall constructor (-1) i.arg3 stkbase false))
      | .OT_NATIVECLOSURE =>
        update fun s => s.setVM (s.setSlot stkbase inst)
        let _ ← _GUARD (report (rest.CallNative constructor i.arg3 stkbase))
      | _ => return ()
  | .OT_TABLE | .OT_USERDATA | .OT_INSTANCE =>
    match ObjectM.delegateMetaMethod W (← current).objects clo .MT_CALL with
    | some closure =>
      operate (ObjectM.push clo)
      update fun s => s.setVM <|
        (List.range i.arg3).foldl (fun v n => v.push (v.register (i.arg2 + n))) s.toLVVM
      let result ← _GUARD (report (ObjectM.CallMetaMethod W closure .MT_CALL (i.arg3 + 1)))
      if i.sarg0 ≠ -1 then store i.arg0 result
    | none => raiseThrow (.string ("attempt to call '" ++ clo.type.name ++ "'"))
  | type => raiseThrow (.string ("attempt to call '" ++ type.name ++ "'"))

/-- The arguments of a `TAILCALL` in the first registers of its frame. -/
def tailArguments (v : LVVM) (i : LVInstruction) : LVVM :=
  { v.closeOuters v.stackbase with
    stack := fun slot =>
      if v.stackbase ≤ slot ∧ slot < v.stackbase + i.arg3 then v.stack (slot + i.arg2)
      else v.stack slot }

/-- `TAILCALL`. -/
def tailcallInstruction (i : LVInstruction) : LoopM Heap Unit := do
  let s ← current
  let t := s.register i.arg1
  match s.lookup t, s.callsstack with
  | some (.closure k), ci :: _ =>
    if k.function.bgenerator then callInstruction W rest i
    else
      update fun s => s.setVM (tailArguments s.toLVVM i)
      _GUARD (report (rest.StartCall t ci.target i.arg3 s.stackbase true))
  | _, _ => callInstruction W rest i

/-- `PREPCALL` and `PREPCALLK`, with the key. -/
def prepCall (key : LoopM Heap LVObject) (i : LVInstruction) : LoopM Heap Unit := do
  let o ← STK i.arg2
  let key ← key
  let value ← _GUARD (report (ObjectM.Get W fuel o key false false (i.arg2 = 0)))
  store i.arg3 (← STK i.arg2)
  store i.arg0 value

/-- The call of `_inherited`, if a new class has it. -/
def inherited (target : LVObject) : LoopM Heap (Option Unit) := do
  match W.getMetaMethod (← current).objects target .MT_INHERITED with
  | none => return some ()
  | some closure =>
    operate (ObjectM.push target)
    operate (ObjectM.push .null)
    let ret ← report (ObjectM.call W .MT_INHERITED closure 2)
    operate (ObjectM.pop 2)
    return ret.map fun _ => ()

/-- The base of a new class. -/
def baseClass (i : LVInstruction) : LoopM Heap (Option LVObject) :=
  if i.arg1 ≠ -1 then some <$> STK i.arg1 else return none

/-- `CLASS_OP`, with the class left in the target. -/
def CLASS_OP (i : LVInstruction) : LoopM Heap (Option Unit) := do
  let base ← baseClass i
  if base.any (·.type ≠ .OT_CLASS) then
    raiseFalse (.string ("trying to inherit from a " ++ (base.getD .null).type.name))
  else
    let target ← operate (rest.createClass base)
    store i.arg0 target
    retOnFail (inherited W target) fun _ => do
      if i.arg2 ≠ MAX_FUNC_STACKSIZE then operate (rest.setAbstract target)
      return some ()

/-- The end of `RETURN` and `YIELD`: `Return`, and out of the loop in a root frame. -/
def returnFrame (i : LVInstruction) : LoopM Heap Unit := do
  let s ← current
  onFrame (·.return_ i.arg0 i.arg1)
  if s.frameRoot then
    update fun s' => { s' with outres := s.resultValue i.arg0 i.arg1 }
    leave .RETURN

/-! ## Generators -/

/-- `LVGenerator::Yield`. -/
def Yield (address : Nat) (g : LVGenerator) (target : Nat) : ObjectM Heap (Option Unit) := do
  match g.state with
  | .eSuspended => ObjectM.raise "internal vm error, yielding dead generator"
  | .eDead => ObjectM.raise "internal vm error, yielding a dead generator"
  | .eRunning =>
    match (← get).yield_ address g target with
    | none => failure
    | some v =>
      modify fun s => { s with toLVVM := v }
      return some ()

/-- `LVGenerator::Resume`. When `EnterFrame` fails its frame stays. -/
def Resume (address : Nat) (g : LVGenerator) (target : Int) : ObjectM Heap (Option Unit) := do
  match g.state, g.ci with
  | .eDead, _ => ObjectM.raise "resuming dead generator"
  | .eRunning, _ => ObjectM.raise "resuming active generator"
  -- a suspended generator has its frame
  | .eSuspended, none => failure
  | .eSuspended, some _ =>
    let v := (← get).toLVVM
    match v.resume_ rest.alive address g target with
    | some v =>
      modify fun s => { s with toLVVM := v }
      return some ()
    | none =>
      modify fun s => { s with toLVVM := v.pushFrame v.top (v.top + g.stack.length) }
      ObjectM.raise "stack overflow, cannot resize stack while in a metamethod"

/-- `YIELD`. -/
def yieldInstruction (i : LVInstruction) : LoopM Heap Unit := do
  let s ← current
  match s.callsstack.head?.bind (·.generator) with
  -- the text of the error takes the type name of a null pointer
  | none => fun _ => none
  | some address =>
    match s.generatorAt address with
    | none => fun _ => none
    | some g =>
      let value ← STK i.arg1
      _GUARD (report (Yield address g i.arg2))
      update fun s => { s with traps := s.traps - s.frameTraps }
      if i.arg1 ≠ MAX_FUNC_STACKSIZE then store i.arg1 value
      returnFrame i

/-- `RESUME`. -/
def resumeInstruction (i : LVInstruction) : LoopM Heap Unit := do
  let s ← current
  let o ← STK i.arg1
  if o.type ≠ .OT_GENERATOR then
    raiseThrow (.string ("trying to resume a '" ++ o.type.name ++
      "',only genenerator can be resumed"))
  else
    match s.generatorOf o with
    | none => fun _ => none
    | some (address, g) =>
      _GUARD (report (Resume rest address g i.arg0))
      update fun s => { s with traps := s.traps + s.frameTraps }

/-- The position of a loop over a generator. -/
def foreachIndex (o4 : LVObject) : LVObject :=
  if o4.type = .OT_INTEGER then .integer (o4.bits + 1) else .integer 0

/-- The `_nexti` case of `FOREACH_OP`. -/
def nexti (i : LVInstruction) (o1 o4 : LVObject) : LoopM Heap (Option Int) := do
  match W.delegate (← current).objects o1 with
  | none => return none
  | some _ =>
    match W.getMetaMethod (← current).objects o1 .MT_NEXTI with
    | none => raiseFalse (.string "_nexti failed")
    | some closure =>
      operate (ObjectM.push o1)
      operate (ObjectM.push o4)
      retOnFail (report (ObjectM.CallMetaMethod W closure .MT_NEXTI 2)) fun itr => do
        store i.arg2 itr
        store (i.arg2 + 2) itr
        if itr.type = .OT_NULL then return some i.arg1
        else
          match ← report (ObjectM.Get W fuel o1 itr false false false) with
          | none => raiseFalse (.string "_nexti returned an invalid idx")
          | some val =>
            store (i.arg2 + 1) val
            return some 1

/-- A suspended generator in `FOREACH_OP`. What `Resume` answers is not looked at. -/
def resumeNext (i : LVInstruction) (o4 : LVObject) (address : Nat) (g : LVGenerator) :
    LoopM Heap (Option Int) := do
  store i.arg2 (foreachIndex o4)
  store (i.arg2 + 2) (foreachIndex o4)
  let _ ← report (Resume rest address g (i.arg2 + 1))
  return some 0

/-- The cases of `FOREACH_OP` with a `Next`, and what it has found. -/
def iterate (i : LVInstruction) : Option (BitVec 64 × LVObject × LVObject) →
    LoopM Heap (Option Int)
  | none => return some i.arg1
  | some (nrefidx, key, val) => do
    store i.arg2 key
    store (i.arg2 + 1) val
    store (i.arg2 + 2) (.integer nrefidx)
    return some 1

/-- The generator case of `FOREACH_OP`. -/
def foreachGenerator (i : LVInstruction) (o4 : LVObject) (address : Nat) (g : LVGenerator) :
    LoopM Heap (Option Int) :=
  match g.state with
  | .eDead => return some i.arg1
  | .eSuspended => resumeNext rest i o4 address g
  | .eRunning => raiseFalse (.string "cannot iterate generator")

/-- `FOREACH_OP`, with the jump it sets. -/
def FOREACH_OP (i : LVInstruction) : LoopM Heap (Option Int) := do
  let s ← current
  let o1 := s.register i.arg0
  let o4 := s.register (i.arg2 + 2)
  match o1.type with
  | .OT_TABLE | .OT_ARRAY | .OT_STRING | .OT_CLASS => iterate i (rest.next s.objects o1 o4)
  | .OT_USERDATA | .OT_INSTANCE => nexti W fuel i o1 o4
  | .OT_GENERATOR =>
    match s.generatorOf o1 with
    | none => fun _ => none
    | some (address, g) => foreachGenerator rest i o4 address g
  | type => raiseFalse (.string ("cannot iterate " ++ type.name))

/-! ## The switch -/

/-- `COND_LITERAL`. -/
def COND_LITERAL (i : LVInstruction) : LoopM Heap LVObject :=
  if i.arg3 ≠ 0 then literal i.arg1 else STK i.arg1

/-- The attributes of a `NEWSLOTA`. -/
def attributes (i : LVInstruction) : LoopM Heap LVObject :=
  if i.arg0 &&& NEW_SLOT_ATTRIBUTES_FLAG ≠ 0 then STK (i.arg2 - 1) else return .null

/-- `sarg3`. -/
def sarg3 (i : LVInstruction) : LVObject :=
  .integer (BitVec.ofInt 64 (if i.arg3 < 128 then i.arg3 else (i.arg3 : Int) - 256))

/-- The operands of an operator: `STK(arg2)` and `STK(arg1)`. -/
def binary (i : LVInstruction) (operator : LVObject → LVObject → LoopM Heap LVObject) :
    LoopM Heap Unit := do
  let o1 ← STK i.arg2
  let o2 ← STK i.arg1
  store i.arg0 (← operator o1 o2)

/-- `MOD`, which does not look at what `ARITH_OP` answers. -/
def modInstruction (i : LVInstruction) : LoopM Heap Unit := do
  let o1 ← STK i.arg2
  let o2 ← STK i.arg1
  match ← report (ObjectM.ARITH_OP W fuel '%' o1 o2) with
  | some res => store i.arg0 res
  | none => return ()

/-- `INCL` and `PINCL`; `PINCL` has a target. -/
def incLocal (i : LVInstruction) (target : Bool) : LoopM Heap Unit := do
  let a ← STK i.arg1
  if a.type = .OT_INTEGER then
    if target then store i.arg0 a
    store i.arg1 (.integer (a.bits + (sarg3 i).bits))
  else if target then _GUARD (PLOCAL_INC W fuel '+' i.arg0 i.arg1 (sarg3 i))
  else store i.arg1 (← _ARITH_ W fuel '+' (· + ·) a (sarg3 i))

/-- The instruction `i`, once `ip` has moved past it. -/
def dispatch (i : LVInstruction) : LoopM Heap Unit := do
  match i.op with
  | .OP_LINE | .OP_LOAD | .OP_LOADINT | .OP_LOADFLOAT | .OP_DLOAD | .OP_MOVE | .OP_LOADNULLS
  | .OP_LOADBOOL | .OP_DMOVE | .OP_JMP | .OP_JZ | .OP_AND | .OP_OR | .OP_NOT =>
    onFrame (·.registerOp i)
  | .OP_TAILCALL => tailcallInstruction W rest i
  | .OP_CALL => callInstruction W rest i
  | .OP_PREPCALL => prepCall W fuel (STK i.arg1) i
  | .OP_PREPCALLK => prepCall W fuel (literal i.arg1) i
  | .OP_GETK =>
    let o ← STK i.arg2
    let key ← literal i.arg1
    store i.arg0 (← _GUARD (report (ObjectM.Get W fuel o key false false (i.arg2 = 0))))
  | .OP_NEWSLOT =>
    let self ← STK i.arg1
    let key ← STK i.arg2
    let val ← STK i.arg3
    _GUARD (report (ObjectM.NewSlot W self key val false))
    if i.arg0 ≠ 0xFF then store i.arg0 (← STK i.arg3)
  | .OP_DELETE =>
    let self ← STK i.arg1
    let key ← STK i.arg2
    store i.arg0 (← _GUARD (report (ObjectM.DeleteSlot W self key)))
  | .OP_SET =>
    let self ← STK i.arg1
    let key ← STK i.arg2
    let val ← STK i.arg3
    _GUARD (report (ObjectM.Set W fuel self key val (i.arg1 = 0)))
    if i.arg0 ≠ 0xFF then store i.arg0 (← STK i.arg3)
  | .OP_GET =>
    let self ← STK i.arg1
    let key ← STK i.arg2
    store i.arg0 (← _GUARD (report (ObjectM.Get W fuel self key false false (i.arg1 = 0))))
  | .OP_EQ =>
    let o1 ← STK i.arg2
    let o2 ← COND_LITERAL i
    store i.arg0 (.bool (IsEqual W o1 o2))
  | .OP_NE =>
    let o1 ← STK i.arg2
    let o2 ← COND_LITERAL i
    store i.arg0 (.bool (!IsEqual W o1 o2))
  | .OP_ADD => binary i (_ARITH_ W fuel '+' (· + ·))
  | .OP_SUB => binary i (_ARITH_ W fuel '-' (· - ·))
  | .OP_MUL => binary i (_ARITH_ W fuel '*' (· * ·))
  | .OP_DIV => binary i (_ARITH_NOZERO W fuel)
  | .OP_MOD => modInstruction W fuel i
  | .OP_BITW => binary i fun o1 o2 => _GUARD (report (BW_OP i.arg3 o1 o2))
  | .OP_RETURN =>
    update fun s => s.setVM ((s.callsstack.head?.map s.killGenerator).getD s.toLVVM)
    returnFrame i
  | .OP_GETOUTER => onFrame (·.getOuterOp i)
  | .OP_SETOUTER => onFrame (·.setOuterOp i)
  | .OP_NEWOBJ =>
    if i.arg3 = NOT_CLASS then _GUARD (CLASS_OP W rest i) else operate (rest.others i)
  | .OP_LOADROOT | .OP_GETBASE | .OP_APPENDARRAY => operate (rest.others i)
  | .OP_COMPARITH =>
    -- the object's register and the operand's share `arg1`
    let arg1 : BitVec 32 := BitVec.ofInt 32 i.arg1
    _GUARD (DerefInc W fuel (Char.ofNat i.arg3) i.arg0 (arg1 >>> 16).toNat i.arg2
      (STK (arg1 &&& 0xFFFF#32).toNat) false)
  | .OP_INC => _GUARD (DerefInc W fuel '+' i.arg0 i.arg1 i.arg2 (pure (sarg3 i)) false)
  | .OP_PINC => _GUARD (DerefInc W fuel '+' i.arg0 i.arg1 i.arg2 (pure (sarg3 i)) true)
  | .OP_INCL => incLocal W fuel i false
  | .OP_PINCL => incLocal W fuel i true
  | .OP_CMP => binary i fun o1 o2 => _GUARD (report (CMP_OP W i.arg3 o1 o2))
  | .OP_JCMP =>
    let o1 ← STK i.arg2
    let o2 ← STK i.arg0
    let res ← _GUARD (report (CMP_OP W i.arg3 o1 o2))
    if isFalse res then skip i.arg1
  | .OP_EXISTS =>
    -- with errors off, the answer says whether there is such a key
    let self ← STK i.arg1
    let key ← STK i.arg2
    store i.arg0 (.bool (← operate (ObjectM.Get W fuel self key true true false)).isSome)
  | .OP_INSTANCEOF =>
    let class_ ← STK i.arg1
    let o ← STK i.arg2
    if class_.type ≠ .OT_CLASS then
      raiseThrow (.string ("cannot apply instanceof between a " ++ class_.type.name ++ " and a " ++
        o.type.name))
    else
      let s ← current
      store i.arg0 (.bool (o.type = .OT_INSTANCE && rest.instanceOf s.objects o class_))
  | .OP_NEG =>
    let o ← STK i.arg1
    store i.arg0 (← _GUARD (report (ObjectM.NEG_OP W o)))
  | .OP_BWNOT =>
    let o ← STK i.arg1
    if o.type = .OT_INTEGER then store i.arg0 (.integer (~~~o.bits))
    else raiseThrow (.string ("attempt to perform a bitwise op on a " ++ o.type.name))
  | .OP_CLOSURE => onFrame fun v => do
    let k ← v.currentClosure
    v.closureOp k i (← k.function.functions[i.arg1.toNat]?)
  | .OP_YIELD => yieldInstruction i
  | .OP_RESUME => resumeInstruction rest i
  | .OP_FOREACH => skip (← _GUARD (FOREACH_OP W rest fuel i))
  | .OP_POSTFOREACH => onFrame (·.postForeachOp i)
  | .OP_CLONE =>
    let self ← STK i.arg1
    store i.arg0 (← _GUARD (report (ObjectM.Clone W self)))
  | .OP_TYPEOF =>
    let o ← STK i.arg1
    store i.arg0 (← _GUARD (report (ObjectM.TypeOf W o)))
  | .OP_PUSHTRAP =>
    onFrame (·.pushTrapOp i)
    update fun s => { s with traps := s.traps + 1 }
  | .OP_POPTRAP =>
    onFrame fun v => some (v.popTrapOp i)
    update fun s => { s with traps := s.traps - i.arg0 }
  | .OP_THROW => raiseThrow (← STK i.arg0)
  | .OP_NEWSLOTA =>
    let self ← STK i.arg1
    let key ← STK i.arg2
    let val ← STK i.arg3
    let attrs ← attributes i
    let bstatic := i.arg0 &&& NEW_SLOT_STATIC_FLAG.toNat ≠ 0
    _GUARD (report (ObjectM.NewSlotA W self key val attrs bstatic false))
  | .OP_CLOSE => onFrame fun v => some (v.closeOp i)

/-! ## The loop -/

/-- `exception_trap`; whether a handler takes over. -/
def exceptionTrap (s : Loop Heap) : Option (Bool × Loop Heap) :=
  match LVVM.unwind s.lasterror s.top s.callsstack s.toLVVM with
  | none => none
  | some (true, v) => some (true, { s.setVM v with traps := s.traps - 1 })
  | some (false, v) => some (false, s.setVM v)

/-- Where a round of the loop leads: to the next instruction, to a handler, or out of
`Execute` with its answer. -/
inductive Went (Heap : Type) where
  | next (s : Loop Heap)
  | caught (s : Loop Heap)
  | left (answer : Bool) (s : Loop Heap)

/-- One round of the loop with the instruction `i`. -/
def round (i : LVInstruction) (s : Loop Heap) : Option (Went Heap) :=
  match dispatch W rest fuel i s with
  | none => none
  | some (.ok _, s) => some (.next s)
  | some (.error .RETURN, s) => some (.left true s)
  | some (.error .THROW, s) =>
    match exceptionTrap s with
    | none => none
    | some (true, s) => some (.caught s)
    | some (false, s) => some (.left false s)

end loop

end Interpret

end Lavril
