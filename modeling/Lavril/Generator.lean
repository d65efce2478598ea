import Lavril.Outers

/-!
# Generators

`yieldOp` is `YIELD` up to its `Return`; `resume_` is `LVGenerator::Resume`.
`alive` says whether an object that only weak references keep has not been
released.
-/

namespace Lavril

/-- `Kill`. -/
def LVGenerator.kill (g : LVGenerator) : LVGenerator :=
  { g with state := .eDead, stack := [], closure := .null }

/-- The first register of a generator that is resumed. -/
def LVGenerator.this (g : LVGenerator) (alive : LVObject → Bool) : LVObject :=
  let this := g.stack.headD .null
  if g.weakThis ∧ alive this = false then .null else this

namespace LVVM

variable (v : LVVM)

def setGenerator (address : Nat) (g : LVGenerator) : LVVM :=
  { v with heap := Function.update v.heap address (some (.generator g)) }

def generatorAt (address : Nat) : Option LVGenerator :=
  match v.heap address with
  | some (.generator g) => some g
  | _ => none

/-- The generator a value refers to. -/
def generatorOf (o : LVObject) : Option (Nat × LVGenerator) :=
  match o.type, o.unVal with
  | .OT_GENERATOR, .raw bits => (v.generatorAt bits.toNat).map (bits.toNat, ·)
  | _, _ => none

/-- `Kill` of the generator of a frame, if it has one. -/
def killGenerator (ci : CallInfo) : LVVM :=
  match ci.generator with
  | none => v
  | some address =>
    match v.generatorAt address with
    | some g => v.setGenerator address g.kill
    | none => v

/-- `YIELD` up to its `Return`. -/
def yieldOp (i : LVInstruction) : Option LVVM :=
  match v.callsstack with
  | [] => none
  | ci :: _ => do
    let address ← ci.generator
    let g ← v.generatorAt address
    let value := v.register i.arg1
    let v₁ ← v.yield_ address g i.arg2
    return if i.arg1 ≠ 0xFF then v₁.setSlot (v.stackbase + i.arg1) value else v₁

/-- `LVGenerator::Resume`; `target` is the register of the caller the next value
goes to. -/
def resume_ (alive : LVObject → Bool) (address : Nat) (g : LVGenerator) (target : Int) :
    Option LVVM :=
  match g.state, g.ci with
  | .eSuspended, some saved => do
    let size := g.stack.length
    let newbase := v.top
    let v₁ ← v.enterFrame newbase (newbase + size) false
    let kept := g.etraps.length - saved.etraps.toNat
    let traps := (g.etraps.drop kept).map fun et =>
      { et with stackbase := et.stackbase + newbase, stacksize := et.stacksize + newbase }
    let g₁ := { g with
      stack := g.stack.take 1 ++ List.replicate (size - 1) .null
      etraps := g.etraps.take kept, state := .eRunning }
    return { v₁.setGenerator address g₁ with
      callsstack := v₁.callsstack.modifyHead fun ci =>
        { ci with
          generator := some address, target := target, closure := saved.closure, ip := saved.ip
          literals := saved.literals, ncalls := saved.ncalls, etraps := saved.etraps
          root := saved.root }
      etraps := traps ++ v₁.etraps
      stack := fun s =>
        if s = newbase then g.this alive
        else if newbase < s ∧ s < newbase + size then g.stack.getD (s - newbase).toNat .null
        else v₁.stack s }
  | _, _ => none

/-- `RESUME`. -/
def resumeOp (alive : LVObject → Bool) (i : LVInstruction) : Option LVVM := do
  let (address, g) ← v.generatorOf (v.register i.arg1)
  v.resume_ alive address g i.arg0

/-- `ci->_ip += offset`. -/
def jump (offset : Int) : LVVM :=
  { v with callsstack := v.callsstack.modifyHead fun ci =>
      { ci with ip := (ci.ip + offset).toNat } }

/-- `FOREACH` over a generator. -/
def foreachOp (alive : LVObject → Bool) (i : LVInstruction) : Option LVVM := do
  let (address, g) ← v.generatorOf (v.register i.arg0)
  match g.state with
  | .eDead => return v.jump i.arg1
  | .eSuspended =>
    let o4 := v.register (i.arg2 + 2)
    let idx : LVObject :=
      match o4.type, o4.unVal with
      | .OT_INTEGER, .raw bits => .integer (bits + 1)
      | _, _ => .integer 0
    let v₁ := (v.setSlot (v.stackbase + i.arg2) idx).setSlot (v.stackbase + (i.arg2 + 2)) idx
    -- what `Resume` answers is not looked at
    return (v₁.resume_ alive address g (i.arg2 + 1)).getD
      (v₁.pushFrame v₁.top (v₁.top + g.stack.length))
  | .eRunning => none

/-- `POSTFOREACH`. -/
def postForeachOp (i : LVInstruction) : Option LVVM := do
  let (_, g) ← v.generatorOf (v.register i.arg0)
  return if g.state = .eDead then v.jump (i.arg1 - 1) else v

end LVVM

end Lavril
