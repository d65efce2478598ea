import Lavril.Opcodes

/-!
# Operators

`none` is an operation that raises an error, is undefined in the source
language, or needs what is not represented here: floating-point arithmetic,
string building and metamethods.
-/

namespace Lavril

/-- `IsFalse`: the whole payload is zero, or the float is. -/
def isFalse (o : LVObject) : Bool :=
  match o.unVal with
  | .raw bits => bits = 0 || (o.type = .OT_FLOAT && (bits.setWidth 31 = 0))
  | .pString _ => false

def isNumeric (o : LVObject) : Bool := o.type = .OT_INTEGER || o.type = .OT_FLOAT

/-- `IsEqual`. -/
def isEqual (o1 o2 : LVObject) : Option Bool :=
  if o1.type = o2.type then some (o1.unVal = o2.unVal)
  else if isNumeric o1 ∧ isNumeric o2 then none
  else some false

/-- `scstrcmp` on the characters before the first NUL. -/
def strcmp : List Char → List Char → Int
  | [], [] => 0
  | [], c :: _ => if c.toNat = 0 then 0 else -1
  | c :: _, [] => if c.toNat = 0 then 0 else 1
  | c :: s, d :: t =>
    if c.toNat < d.toNat then -1
    else if d.toNat < c.toNat then 1
    else if c.toNat = 0 then 0
    else strcmp s t

/-- `ObjCmp`. -/
def objCmp (o1 o2 : LVObject) : Option Int :=
  if o1.type = o2.type then
    if o1.unVal = o2.unVal then some 0
    else match o1.type, o1.unVal, o2.unVal with
      | .OT_STRING, .pString s, .pString t => some (strcmp s.toList t.toList)
      | .OT_INTEGER, .raw i, .raw j => some (if i.toInt < j.toInt then -1 else 1)
      | .OT_FLOAT, _, _ | .OT_TABLE, _, _ | .OT_USERDATA, _, _ | .OT_INSTANCE, _, _ => none
      | _, .raw i, .raw j => some (if i.toNat < j.toNat then -1 else 1)
      | _, _, _ => none
  else if isNumeric o1 ∧ isNumeric o2 then none
  else if o1.type = .OT_NULL then some (-1)
  else if o2.type = .OT_NULL then some 1
  else none

/-- `CMP_OP`. -/
def cmpOp (op : Nat) (o1 o2 : LVObject) : Option LVObject := do
  let r ← objCmp o1 o2
  if op = CMP_G.toNat then return .bool (r > 0)
  else if op = CMP_GE.toNat then return .bool (r ≥ 0)
  else if op = CMP_L.toNat then return .bool (r < 0)
  else if op = CMP_LE.toNat then return .bool (r ≤ 0)
  else if op = CMP_3W.toNat then return .integer (BitVec.ofInt 64 r)
  else none

/-- The arithmetic opcodes on integers. -/
def arith (op : Opcode) (o1 o2 : LVObject) : Option LVObject :=
  match o1.type, o1.unVal, o2.type, o2.unVal with
  | .OT_INTEGER, .raw i1, .OT_INTEGER, .raw i2 =>
    match op with
    | .OP_ADD => some (.integer (i1 + i2))
    | .OP_SUB => some (.integer (i1 - i2))
    | .OP_MUL => some (.integer (i1 * i2))
    | .OP_DIV =>
      if i2 = 0 ∨ (i2 = -1 ∧ i1 = BitVec.intMin 64) then none else some (.integer (i1.sdiv i2))
    | .OP_MOD =>
      if i2 = 0 ∨ (i2 = -1 ∧ i1 = BitVec.intMin 64) then none else some (.integer (i1.srem i2))
    | _ => none
  | _, _, _, _ => none

/-- `BW_OP`. -/
def bwOp (op : Nat) (o1 o2 : LVObject) : Option LVObject :=
  match o1.type, o1.unVal, o2.type, o2.unVal with
  | .OT_INTEGER, .raw i1, .OT_INTEGER, .raw i2 =>
    if op = BW_AND.toNat then some (.integer (i1 &&& i2))
    else if op = BW_OR.toNat then some (.integer (i1 ||| i2))
    else if op = BW_XOR.toNat then some (.integer (i1 ^^^ i2))
    else if i2.toNat ≥ 64 then none
    else if op = BW_SHIFTL.toNat then some (.integer (i1 <<< i2.toNat))
    else if op = BW_SHIFTR.toNat then some (.integer (i1.sshiftRight i2.toNat))
    else if op = BW_USHIFTR.toNat then some (.integer (i1 >>> i2.toNat))
    else none
  | _, _, _, _ => none

end Lavril
