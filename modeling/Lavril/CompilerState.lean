import Lavril.FuncState
import Lavril.Syntax

/-!
# The compiler's state

`_fs` is `fs`; the function states it is nested in are `parents`, the nearest
first. The operations of `FunctionState` act on `fs`, except that a free name
may be resolved through the parents and mark a local of one of them captured.
-/

namespace Lavril

inductive ExpType where
  | EXPR | OBJECT | BASE | LOCAL | OUTER
  deriving DecidableEq, Repr

structure ExpState where
  etype : ExpType
  epos : Int
  donot_get : Bool
  deriving DecidableEq, Repr

structure Scope where
  outers : Int
  stacksize : Nat
  deriving DecidableEq, Repr

/-- An entry of `_consts`: a `const`, or the table of an `enum`. -/
inductive Constant where
  | scalar (val : LVObject)
  | table (entries : List (String × LVObject))
  deriving DecidableEq, Repr

structure LVCompiler where
  fs : FunctionState
  parents : List FunctionState
  es : ExpState
  scope : Scope
  consts : List (String × Constant)
  lineinfo : Bool

abbrev CompilerM := StateT LVCompiler (Except CompileError)

namespace LVCompiler

theorem bind_ok {α β : Type} {m : CompilerM α} {f : α → CompilerM β} {c c' : LVCompiler}
    {b : β} : (m >>= f) c = .ok (b, c') ↔ ∃ a c₁, m c = .ok (a, c₁) ∧ f a c₁ = .ok (b, c') := by
  change (m c >>= fun r => f r.1 r.2) = _ ↔ _
  cases m c with
  | error e => simp [bind, Except.bind]
  | ok r =>
    obtain ⟨a, c₁⟩ := r
    simp [bind, Except.bind]

theorem pure_ok {α : Type} {a b : α} {c c' : LVCompiler} :
    (pure a : CompilerM α) c = .ok (b, c') ↔ b = a ∧ c' = c := by
  change Except.ok (a, c) = _ ↔ _
  simp [eq_comm]

def fail {α : Type} (message : String) : CompilerM α := fun _ => .error (.error message)

def updateFs (f : FunctionState → FunctionState) : CompilerM Unit :=
  modify fun c => { c with fs := f c.fs }

def liftFs {α : Type} (f : FunctionState → Except CompileError (α × FunctionState)) :
    CompilerM α := fun c =>
  match f c.fs with
  | .ok (a, fs) => .ok (a, { c with fs := fs })
  | .error e => .error e

def addInstruction (op : Opcode) (a0 : Int := 0) (a1 : Int := 0) (a2 : Int := 0)
    (a3 : Int := 0) : CompilerM Unit :=
  updateFs (·.addInstruction (instruction op a0 a1 a2 a3))

def getCurrentPos : CompilerM Int := do return (← get).fs.getCurrentPos

/-- `AddInstruction`, with the position `GetCurrentPos` has after it. -/
def emit (op : Opcode) (a0 : Int := 0) (a1 : Int := 0) (a2 : Int := 0) (a3 : Int := 0) :
    CompilerM Nat := do
  addInstruction op a0 a1 a2 a3
  return (← get).fs.instructions.length - 1

def snoozeOpt : CompilerM Unit := updateFs FunctionState.snoozeOpt

def setArg0 (pos : Nat) (val : Int) : CompilerM Unit := updateFs (·.setArg0 pos val)
def setArg1 (pos : Nat) (val : Int) : CompilerM Unit := updateFs (·.setArg1 pos val)

def pushTarget : CompilerM Nat := liftFs FunctionState.pushTarget
def pushTargetAt (n : Nat) : CompilerM Unit := updateFs (·.pushTargetAt n)
def popTarget : CompilerM Nat := liftFs FunctionState.popTarget
def topTarget : CompilerM Nat := liftFs fun fs => do return (← fs.topTarget, fs)
def discardTarget : CompilerM Unit := liftFs fun fs => do return ((), ← fs.discardTarget)
def isLocal (stkpos : Nat) : CompilerM Bool := do return (← get).fs.isLocal stkpos
def getConstant (cons : LVObject) : CompilerM Nat := liftFs (·.getConstant cons)
def pushLocalVariable (name : String) : CompilerM Nat :=
  liftFs fun fs => .ok (fs.pushLocalVariable name)

def getEs : CompilerM ExpState := do return (← get).es
def setEs (es : ExpState) : CompilerM Unit := modify fun c => { c with es := es }
def setEtype (etype : ExpType) : CompilerM Unit :=
  modify fun c => { c with es := { c.es with etype := etype } }
def setEpos (epos : Int) : CompilerM Unit :=
  modify fun c => { c with es := { c.es with epos := epos } }

/-- The state in which `Expression` and `INVOKE_EXP` start. -/
def freshEs : ExpState := ⟨.EXPR, -1, false⟩

/-- `GetOuterVariable`, with the index in `_outervalues`. -/
def outerVariable (name : String) : FunctionState → List FunctionState →
    Option Nat × FunctionState × List FunctionState
  | fs, parents =>
    match fs.outervalues.findIdx? (·.name = name) with
    | some i => (some i, fs, parents)
    | none =>
      match parents with
      | [] => (none, fs, [])
      | parent :: rest =>
        let add (type : LVOuterType) (pos : Nat) :=
          { fs with outervalues := fs.outervalues ++ [⟨type, name, pos⟩] }
        match parent.getLocalVariable name with
        | some pos =>
          (some fs.outervalues.length, add .otLOCAL pos, parent.markLocalAsOuter pos :: rest)
        | none =>
          match outerVariable name parent rest with
          | (some pos, parent, rest) =>
            (some fs.outervalues.length, add .otOUTER pos, parent :: rest)
          | (none, parent, rest) => (none, fs, parent :: rest)

def getLocalVariable (name : String) : CompilerM (Option Nat) := do
  return (← get).fs.getLocalVariable name

def getOuterVariable (name : String) : CompilerM (Option Nat) := fun c =>
  let (pos, fs, parents) := outerVariable name c.fs c.parents
  .ok (pos, { c with fs := fs, parents := parents })

def isConstant (name : String) : CompilerM (Option Constant) := do
  return (← get).consts.lookup name

/-- `_consts->NewSlot`. -/
def addConstant (name : String) (value : Constant) : CompilerM Unit :=
  modify fun c => { c with consts := (name, value) :: c.consts }

/-! ## Scopes and jumps -/

/-- `BEGIN_SCOPE`, with the scope it replaces. -/
def beginScope : CompilerM Scope := fun c =>
  .ok (c.scope, { c with scope := ⟨c.fs.outers, c.fs.getStackSize⟩ })

/-- `RESOLVE_OUTERS`. -/
def resolveOuters : CompilerM Unit := do
  let c ← get
  if c.fs.getStackSize ≠ c.scope.stacksize ∧ c.fs.countOuters c.scope.stacksize ≠ 0 then
    addInstruction .OP_CLOSE 0 c.scope.stacksize

/-- `END_SCOPE_NO_CLOSE`. -/
def endScopeNoClose (oldscope : Scope) : CompilerM Unit :=
  modify fun c =>
    { c with
      fs := if c.fs.getStackSize ≠ c.scope.stacksize then c.fs.setStackSize c.scope.stacksize
        else c.fs
      scope := oldscope }

/-- `END_SCOPE`. -/
def endScope (oldscope : Scope) : CompilerM Unit := do
  let c ← get
  if c.fs.getStackSize ≠ c.scope.stacksize then
    updateFs (·.setStackSize c.scope.stacksize)
    if c.fs.outers ≠ (← get).fs.outers then
      addInstruction .OP_CLOSE 0 c.scope.stacksize
  modify fun c => { c with scope := oldscope }

/-- `BEGIN_BREAKBLE_BLOCK`, with the numbers of unresolved breaks and continues. -/
def beginBreakableBlock : CompilerM (Nat × Nat) := fun c =>
  .ok ((c.fs.unresolvedbreaks.length, c.fs.unresolvedcontinues.length),
    { c with fs := { c.fs with
        breaktargets := 0 :: c.fs.breaktargets
        continuetargets := 0 :: c.fs.continuetargets } })

/-- `ResolveBreaks`. -/
def resolveBreaks (fs : FunctionState) : Nat → FunctionState
  | 0 => fs
  | ntoresolve + 1 =>
    match fs.unresolvedbreaks with
    | [] => fs
    | pos :: rest =>
      let fs := { fs with unresolvedbreaks := rest }
      resolveBreaks (fs.setIntructionParams pos 0 (fs.getCurrentPos - pos) 0) ntoresolve

/-- `ResolveContinues`. -/
def resolveContinues (targetpos : Int) (fs : FunctionState) : Nat → FunctionState
  | 0 => fs
  | ntoresolve + 1 =>
    match fs.unresolvedcontinues with
    | [] => fs
    | pos :: rest =>
      let fs := { fs with unresolvedcontinues := rest }
      resolveContinues targetpos (fs.setIntructionParams pos 0 (targetpos - pos) 0) ntoresolve

/-- `END_BREAKBLE_BLOCK`. -/
def endBreakableBlock (start : Nat × Nat) (continueTarget : Int) : CompilerM Unit :=
  updateFs fun fs =>
    let fs₁ := resolveContinues continueTarget fs (fs.unresolvedcontinues.length - start.2)
    let fs₂ := resolveBreaks fs₁ (fs.unresolvedbreaks.length - start.1)
    { fs₂ with
      breaktargets := fs₂.breaktargets.tail
      continuetargets := fs₂.continuetargets.tail }

/-! ## Emitting -/

def moveIfCurrentTargetIsLocal : CompilerM Unit := do
  let trg ← topTarget
  if ← isLocal trg then
    let trg ← popTarget
    addInstruction .OP_MOVE (← pushTarget) trg

def emitDerefOp (op : Opcode) : CompilerM Unit := do
  let val ← popTarget
  let key ← popTarget
  let src ← popTarget
  addInstruction op (← pushTarget) src key val

def emit2ArgsOP (op : Opcode) (p3 : Int := 0) : CompilerM Unit := do
  let p2 ← popTarget
  let p1 ← popTarget
  addInstruction op (← pushTarget) p1 p2 p3

def loadConstant (cons : LVObject) : CompilerM Unit := do
  let target ← pushTarget
  addInstruction .OP_LOAD target (← getConstant cons)

/-- `EmitLoadConstInt`; the second test is whether the value fits in 32 bits. -/
def emitLoadConstInt (value : Int) (target : Nat) : CompilerM Unit := do
  if value ≤ 2 ^ 31 - 1 ∧ value > -2 ^ 31 then
    addInstruction .OP_LOADINT target value
  else
    addInstruction .OP_LOAD target (← getConstant (.integer (BitVec.ofInt 64 value)))

/-- `EmitLoadConstFloat`, for an `LVFloat` of 32 bits. -/
def emitLoadConstFloat (bits : Int) (target : Nat) : CompilerM Unit :=
  addInstruction .OP_LOADFLOAT target bits

/-- `NeedGet` before the token `next`. -/
def needGet (donot_get : Bool) (next : Lookahead) : Bool :=
  match next with
  | .assign | .paren | .incdec => false
  | .dot | .bracket => true
  | .other => !donot_get

end LVCompiler

/-- `ChooseArithOpByToken` on a compound assignment. -/
def AssignOp.arithOp : AssignOp → Opcode
  | .minuseq => .OP_SUB
  | .muleq => .OP_MUL
  | .diveq => .OP_DIV
  | .modeq => .OP_MOD
  | _ => .OP_ADD

/-- `ChooseCompArithCharByToken`. -/
def AssignOp.compArithChar : AssignOp → Int
  | .minuseq => '-'.toNat
  | .pluseq => '+'.toNat
  | .muleq => '*'.toNat
  | .diveq => '/'.toNat
  | .modeq => '%'.toNat
  | _ => 0

def BinaryOp.opcode : BinaryOp → Opcode
  | .bitOr | .bitXor | .bitAnd | .ushiftr | .shiftl | .shiftr => .OP_BITW
  | .eq => .OP_EQ
  | .ne => .OP_NE
  | .cmp3 | .gt | .lt | .ge | .le => .OP_CMP
  | .in => .OP_EXISTS
  | .instanceof => .OP_INSTANCEOF
  | .add => .OP_ADD
  | .sub => .OP_SUB
  | .mul => .OP_MUL
  | .div => .OP_DIV
  | .mod => .OP_MOD

/-- The last operand of the instruction. -/
def BinaryOp.op3 : BinaryOp → Int
  | .bitOr => BW_OR
  | .bitXor => BW_XOR
  | .bitAnd => BW_AND
  | .ushiftr => BW_USHIFTR
  | .shiftl => BW_SHIFTL
  | .shiftr => BW_SHIFTR
  | .cmp3 => CMP_3W
  | .gt => CMP_G
  | .lt => CMP_L
  | .ge => CMP_GE
  | .le => CMP_LE
  | _ => 0

def UnaryOp.opcode : UnaryOp → Opcode
  | .neg => .OP_NEG
  | .not => .OP_NOT
  | .bwnot => .OP_BWNOT
  | .typeof => .OP_TYPEOF
  | .resume => .OP_RESUME
  | .clone => .OP_CLONE

end Lavril
