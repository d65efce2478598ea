import Lavril.Operators
import Mathlib.Logic.Function.Basic

/-!
# Instructions on the registers of a frame

One step of `Execute` for the instructions that touch only the registers of
the running frame, its literals and its instruction pointer. What `Get` finds
in the heap is a parameter. `none` is an instruction that raises an error or
one that does more than this: a call, a store, anything that creates an object.
-/

namespace Lavril

abbrev Registers := Nat → LVObject

/-- A frame while it runs: the next instruction's position and the registers. -/
structure Frame where
  ip : Int
  regs : Registers

namespace Frame

variable (Get : LVObject → LVObject → Option LVObject) (literals : List LVObject)

def literal (n : Int) : Option LVObject := if n < 0 then none else literals[n.toNat]?

def set (f : Frame) (r : Nat) (o : LVObject) : Frame := { f with regs := Function.update f.regs r o }

def jump (f : Frame) (offset : Int) : Frame := { f with ip := f.ip + offset }

/-- The instruction `i`, once `ip` has moved past it. -/
def exec (i : LVInstruction) (f : Frame) : Option Frame :=
  let stk1 : Option LVObject := if i.arg1 < 0 then none else some (f.regs i.arg1.toNat)
  let TARGET (o : Option LVObject) : Option Frame := o.map (f.set i.arg0)
  let condLiteral := if i.arg3 ≠ 0 then literal literals i.arg1 else stk1
  match i.op with
  | .OP_LINE => some f
  | .OP_LOAD => TARGET (literal literals i.arg1)
  | .OP_LOADINT => TARGET (some (.integer (BitVec.ofInt 64 i.arg1)))
  | .OP_LOADFLOAT => TARGET (some (.float ((BitVec.ofInt 32 i.arg1).setWidth 64)))
  | .OP_LOADBOOL => TARGET (some (.bool (decide (i.arg1 ≠ 0))))
  | .OP_DLOAD => do
    let o ← literal literals i.arg1
    let o' ← literal literals i.arg3
    return (f.set i.arg0 o).set i.arg2 o'
  | .OP_MOVE => TARGET stk1
  | .OP_DMOVE => do
    let f := f.set i.arg0 (← stk1)
    return f.set i.arg2 (f.regs i.arg3)
  | .OP_LOADNULLS =>
    some { f with regs := fun r =>
      if i.arg0 ≤ r ∧ (r : Int) < i.arg0 + i.arg1 then .null else f.regs r }
  | .OP_GET => do TARGET (Get (← stk1) (f.regs i.arg2))
  | .OP_GETK => do TARGET (Get (f.regs i.arg2) (← literal literals i.arg1))
  | .OP_EQ => do TARGET ((isEqual (f.regs i.arg2) (← condLiteral)).map .bool)
  | .OP_NE => do TARGET ((isEqual (f.regs i.arg2) (← condLiteral)).map (.bool !·))
  | .OP_ADD | .OP_SUB | .OP_MUL | .OP_DIV | .OP_MOD => do
    TARGET (arith i.op (f.regs i.arg2) (← stk1))
  | .OP_BITW => do TARGET (bwOp i.arg3 (f.regs i.arg2) (← stk1))
  | .OP_CMP => do TARGET (cmpOp i.arg3 (f.regs i.arg2) (← stk1))
  | .OP_JMP => some (f.jump i.arg1)
  | .OP_JZ => some (if isFalse (f.regs i.arg0) then f.jump i.arg1 else f)
  | .OP_JCMP => do
    let o ← cmpOp i.arg3 (f.regs i.arg2) (f.regs i.arg0)
    return if isFalse o then f.jump i.arg1 else f
  | .OP_AND =>
    some (if isFalse (f.regs i.arg2) then (f.set i.arg0 (f.regs i.arg2)).jump i.arg1 else f)
  | .OP_OR =>
    some (if isFalse (f.regs i.arg2) then f else (f.set i.arg0 (f.regs i.arg2)).jump i.arg1)
  | .OP_NOT => do TARGET (some (.bool (isFalse (← stk1))))
  | _ => none

/-- Executes `i` and moves on. -/
def execNext (f : Frame) (i : LVInstruction) : Option Frame :=
  exec Get literals i { f with ip := f.ip + 1 }

/-- Fetches and executes the next instruction of `code`. -/
def step (code : List LVInstruction) (f : Frame) : Option Frame :=
  if f.ip < 0 then none else code[f.ip.toNat]?.bind (execNext Get literals f)

/-- At most `n` steps, fewer when the frame stops. -/
def run (code : List LVInstruction) : Nat → Frame → Frame
  | 0, f => f
  | n + 1, f =>
    match step Get literals code f with
    | none => f
    | some f => run code n f

theorem step_eq {code : List LVInstruction} {f : Frame} {n : Nat} {i : LVInstruction}
    (ip : f.ip = n) (fetch : code[n]? = some i) :
    step Get literals code f = execNext Get literals f i := by
  rw [step, if_neg (by omega), ip, Int.toNat_natCast, fetch, Option.bind_some]

end Frame

end Lavril
