import Lavril.Opcodes

/-!
# The state of a function under compilation

`FunctionState` holds the code emitted so far, the virtual stack of locals and
temporaries and the target stack. `addInstruction` is the peephole optimiser:
while `optimization` is set it may rewrite the last instruction, merge the new
one into it or drop it.

`targetstack` and the lists of unresolved jumps have their top at the head,
`vlocals` and `instructions` are in index order. `_literals` is the list of
constants in the order of their numbers. `_localvarinfos`, `_strings` and the
names are written only for the debugger and are left out.
-/

namespace Lavril

inductive LVOuterType where
  | otLOCAL | otOUTER
  deriving DecidableEq, Repr

structure LVOuterVar where
  type : LVOuterType
  name : String
  src : Nat
  deriving DecidableEq, Repr

/-- `name` is none for a temporary; `end_op = UINT_MINUS_ONE` marks a captured local. -/
structure LVLocalVarInfo where
  name : Option String
  end_op : Int
  deriving DecidableEq, Repr

def UINT_MINUS_ONE : Int := 2 ^ 64 - 1

structure LVLineInfo where
  line : Int
  op : Int
  deriving DecidableEq, Repr

inductive FunctionPrototype where
  | mk (stacksize : Nat) (bgenerator varparams : Bool) (instructions : List LVInstruction)
      (literals : List LVObject) (functions : List FunctionPrototype) (parameters : List String)
      (outervalues : List LVOuterVar) (lineinfos : List LVLineInfo) (defaultparams : List Nat)

namespace FunctionPrototype

def stacksize : FunctionPrototype → Nat | ⟨x, _, _, _, _, _, _, _, _, _⟩ => x
def bgenerator : FunctionPrototype → Bool | ⟨_, x, _, _, _, _, _, _, _, _⟩ => x
def varparams : FunctionPrototype → Bool | ⟨_, _, x, _, _, _, _, _, _, _⟩ => x
def instructions : FunctionPrototype → List LVInstruction | ⟨_, _, _, x, _, _, _, _, _, _⟩ => x
def literals : FunctionPrototype → List LVObject | ⟨_, _, _, _, x, _, _, _, _, _⟩ => x
def functions : FunctionPrototype → List FunctionPrototype | ⟨_, _, _, _, _, x, _, _, _, _⟩ => x
def parameters : FunctionPrototype → List String | ⟨_, _, _, _, _, _, x, _, _, _⟩ => x
def outervalues : FunctionPrototype → List LVOuterVar | ⟨_, _, _, _, _, _, _, x, _, _⟩ => x
def defaultparams : FunctionPrototype → List Nat | ⟨_, _, _, _, _, _, _, _, _, x⟩ => x

end FunctionPrototype

structure FunctionState where
  /-- Whether `_parent` is not null. -/
  parent : Bool
  returnexp : Int
  vlocals : List LVLocalVarInfo
  targetstack : List Nat
  stacksize : Nat
  varparams : Bool
  bgenerator : Bool
  unresolvedbreaks : List Nat
  unresolvedcontinues : List Nat
  functions : List FunctionPrototype
  parameters : List String
  outervalues : List LVOuterVar
  instructions : List LVInstruction
  literals : List LVObject
  lineinfos : List LVLineInfo
  breaktargets : List Int
  continuetargets : List Int
  defaultparams : List Nat
  lastline : Int
  traps : Int
  outers : Int
  optimization : Bool

inductive CompileError where
  /-- A message passed to `Error`. -/
  | error (message : String)
  /-- A failed assertion, or an access to an element a vector does not have. -/
  | undefined
  deriving DecidableEq, Repr

namespace FunctionState

def new (parent : Bool) : FunctionState where
  parent := parent
  returnexp := 0
  vlocals := []
  targetstack := []
  stacksize := 0
  varparams := false
  bgenerator := false
  unresolvedbreaks := []
  unresolvedcontinues := []
  functions := []
  parameters := []
  outervalues := []
  instructions := []
  literals := []
  lineinfos := []
  breaktargets := []
  continuetargets := []
  defaultparams := []
  lastline := 0
  traps := 0
  outers := 0
  optimization := true

variable (fs : FunctionState)

def snoozeOpt : FunctionState := { fs with optimization := false }

/-- `-1` while there are no instructions. -/
def getCurrentPos : Int := (fs.instructions.length : Int) - 1

def getStackSize : Nat := fs.vlocals.length

def popInstructions (size : Nat) : FunctionState :=
  { fs with instructions := fs.instructions.take (fs.instructions.length - size) }

def addDefaultParam (trg : Nat) : FunctionState :=
  { fs with defaultparams := fs.defaultparams ++ [trg] }

/-- `GetConstant`, with the number of the constant. -/
def getConstant (cons : LVObject) : Except CompileError (Nat × FunctionState) :=
  match fs.literals.findIdx? (· = cons) with
  | some n => .ok (n, fs)
  | none =>
    if fs.literals.length + 1 > MAX_LITERALS then
      .error (.error "internal compiler error: too many literals")
    else .ok (fs.literals.length, { fs with literals := fs.literals ++ [cons] })

def modifyInstruction (pos : Nat) (f : LVInstruction → LVInstruction) : FunctionState :=
  { fs with instructions := fs.instructions.modify pos f }

def setIntructionParams (pos : Nat) (arg0 arg1 : Int) (arg2 : Int := 0) (arg3 : Int := 0) :
    FunctionState :=
  fs.modifyInstruction pos
    ({ · with arg0 := uchar arg0, arg1 := arg1, arg2 := uchar arg2, arg3 := uchar arg3 })

/-- `SetIntructionParam(pos, 0, val)`. -/
def setArg0 (pos : Nat) (val : Int) : FunctionState :=
  fs.modifyInstruction pos ({ · with arg0 := uchar val })

/-- `SetIntructionParam(pos, 1, val)`. -/
def setArg1 (pos : Nat) (val : Int) : FunctionState :=
  fs.modifyInstruction pos ({ · with arg1 := val })

def allocStackPos : Except CompileError (Nat × FunctionState) :=
  let npos := fs.vlocals.length
  let fs := { fs with vlocals := fs.vlocals ++ [⟨none, 0⟩] }
  if fs.vlocals.length > fs.stacksize then
    if fs.stacksize > MAX_FUNC_STACKSIZE then
      .error (.error "internal compiler error: too many locals")
    else .ok (npos, { fs with stacksize := fs.vlocals.length })
  else .ok (npos, fs)

/-- `PushTarget()`. -/
def pushTarget : Except CompileError (Nat × FunctionState) := do
  let (n, fs) ← fs.allocStackPos
  return (n, { fs with targetstack := n :: fs.targetstack })

/-- `PushTarget(n)`. -/
def pushTargetAt (n : Nat) : FunctionState := { fs with targetstack := n :: fs.targetstack }

def topTarget : Except CompileError Nat :=
  match fs.targetstack with
  | [] => .error .undefined
  | n :: _ => .ok n

def popTarget : Except CompileError (Nat × FunctionState) :=
  match fs.targetstack with
  | [] => .error .undefined
  | npos :: rest =>
    match fs.vlocals[npos]? with
    | none => .error .undefined
    | some t => .ok (npos, { fs with
        vlocals := if t.name = none then fs.vlocals.dropLast else fs.vlocals
        targetstack := rest })

def countOuters (stacksize : Nat) : Nat :=
  (fs.vlocals.drop stacksize).countP (·.end_op = UINT_MINUS_ONE)

def setStackSize (n : Nat) : FunctionState :=
  { fs with
    vlocals := fs.vlocals.take n
    outers := fs.outers - ((fs.vlocals.drop n).countP fun lvi =>
      decide (lvi.name ≠ none) && decide (lvi.end_op = UINT_MINUS_ONE) : Nat) }

def isLocal (stkpos : Nat) : Bool :=
  match fs.vlocals[stkpos]? with
  | none => false
  | some lvi => lvi.name.isSome

def pushLocalVariable (name : String) : Nat × FunctionState :=
  let vlocals := fs.vlocals ++ [⟨some name, 0⟩]
  (fs.vlocals.length,
    { fs with vlocals := vlocals, stacksize := max fs.stacksize vlocals.length })

/-- The innermost local of that name. -/
def getLocalVariable (name : String) : Option Nat :=
  (List.range fs.vlocals.length).reverse.find? fun pos =>
    match fs.vlocals[pos]? with
    | none => false
    | some lvi => decide (lvi.name = some name)

def markLocalAsOuter (pos : Nat) : FunctionState :=
  { fs with
    vlocals := fs.vlocals.modify pos ({ · with end_op := UINT_MINUS_ONE })
    outers := fs.outers + 1 }

def addParameter (name : String) : FunctionState :=
  let fs := (fs.pushLocalVariable name).2
  { fs with parameters := fs.parameters ++ [name] }

def discardTarget : Except CompileError FunctionState := do
  let (discardedtarget, fs) ← fs.popTarget
  match fs.optimization, fs.instructions.getLast? with
  | true, some pi =>
    if (pi.op = .OP_SET ∨ pi.op = .OP_NEWSLOT ∨ pi.op = .OP_SETOUTER ∨ pi.op = .OP_CALL) ∧
        pi.arg0 = discardedtarget then
      return { fs with instructions := fs.instructions.dropLast ++ [{ pi with arg0 := 0xFF }] }
    else return fs
  | _, _ => return fs

/-! ## The optimiser -/

/-- What becomes of the last instruction and the new one. -/
inductive Rewriting where
  /-- The new one is merged into the last one; what `_optimization` is then. -/
  | merged (pi : LVInstruction) (optimization : Bool)
  | both (pi i : LVInstruction)
  /-- The last one is dropped, with its line. -/
  | dropped (i : LVInstruction)
  deriving DecidableEq, Repr

/-- The kinds of instruction whose target a following `MOVE` may change. -/
def retargetable (op : Opcode) : Bool :=
  match op with
  | .OP_GET | .OP_ADD | .OP_SUB | .OP_MUL | .OP_DIV | .OP_MOD | .OP_BITW | .OP_LOADINT
  | .OP_LOADFLOAT | .OP_LOADBOOL | .OP_LOAD => true
  | _ => false

/-- How `APPENDARRAY` takes over the value that an instruction loads; `-1` if it cannot. -/
def appendArrayType (op : Opcode) : Int :=
  match op with
  | .OP_LOAD => AAT_LITERAL
  | .OP_LOADINT => AAT_INT
  | .OP_LOADBOOL => AAT_BOOL
  | .OP_LOADFLOAT => AAT_FLOAT
  | _ => -1

/-- The `switch` of `AddInstruction` on the new instruction. -/
def rewriting (pi i : LVInstruction) : Rewriting :=
  let size : Int := fs.instructions.length
  match i.op with
  | .OP_JZ =>
    if pi.op = .OP_CMP ∧ pi.arg1 < 0xFF then
      .merged { pi with op := .OP_JCMP, arg0 := uchar pi.arg1, arg1 := i.arg1 } true
    else .both pi i
  | .OP_SET | .OP_NEWSLOT =>
    .both pi (if i.arg0 = i.arg3 then { i with arg0 := 0xFF } else i)
  | .OP_SETOUTER =>
    .both pi (if i.arg0 = i.arg2 then { i with arg0 := 0xFF } else i)
  | .OP_RETURN =>
    if fs.parent ∧ i.arg0 ≠ MAX_FUNC_STACKSIZE ∧ pi.op = .OP_CALL ∧ fs.returnexp < size - 1 then
      .both { pi with op := .OP_TAILCALL } i
    else if pi.op = .OP_CLOSE then .merged i true
    else .both pi i
  | .OP_GET =>
    if pi.op = .OP_LOAD ∧ pi.arg0 = i.arg2 ∧ ¬ fs.isLocal pi.arg0 then
      .merged { pi with arg2 := uchar i.arg1, op := .OP_GETK, arg0 := i.arg0 } true
    else .both pi i
  | .OP_PREPCALL =>
    if pi.op = .OP_LOAD ∧ pi.arg0 = i.arg1 ∧ ¬ fs.isLocal pi.arg0 then
      .merged { pi with op := .OP_PREPCALLK, arg0 := i.arg0, arg2 := i.arg2, arg3 := i.arg3 } true
    else .both pi i
  | .OP_APPENDARRAY =>
    let aat := appendArrayType pi.op
    if aat ≠ -1 ∧ pi.arg0 = i.arg1 ∧ ¬ fs.isLocal pi.arg0 then
      .merged { pi with
        op := .OP_APPENDARRAY, arg0 := i.arg0, arg2 := uchar aat, arg3 := MAX_FUNC_STACKSIZE } true
    else .both pi i
  | .OP_MOVE =>
    if retargetable pi.op ∧ pi.arg0 = i.arg1 then .merged { pi with arg0 := i.arg0 } false
    else if pi.op = .OP_MOVE then
      .merged { pi with op := .OP_DMOVE, arg2 := i.arg0, arg3 := uchar i.arg1 } true
    else .both pi i
  | .OP_LOAD =>
    if pi.op = .OP_LOAD ∧ i.arg1 < 256 then
      .merged { pi with op := .OP_DLOAD, arg2 := i.arg0, arg3 := uchar i.arg1 } true
    else .both pi i
  | .OP_EQ | .OP_NE =>
    if pi.op = .OP_LOAD ∧ pi.arg0 = i.arg1 ∧ ¬ fs.isLocal pi.arg0 then
      .merged { pi with
        op := i.op, arg0 := i.arg0, arg2 := i.arg2, arg3 := MAX_FUNC_STACKSIZE } true
    else .both pi i
  | .OP_LOADNULLS =>
    if pi.op = .OP_LOADNULLS ∧ pi.arg0 + pi.arg1 = i.arg0 then
      .merged { pi with arg1 := pi.arg1 + 1, op := .OP_LOADNULLS } true
    else .both pi i
  | .OP_LINE => if pi.op = .OP_LINE then .dropped i else .both pi i
  | _ => .both pi i

def pushInstruction (i : LVInstruction) : FunctionState :=
  { fs with optimization := true, instructions := fs.instructions ++ [i] }

/-- `AddInstruction`. -/
def addInstruction (i : LVInstruction) : FunctionState :=
  match fs.optimization, fs.instructions.getLast? with
  | true, some pi =>
    match fs.rewriting pi i with
    | .merged pi opt =>
      { fs with optimization := opt, instructions := fs.instructions.dropLast ++ [pi] }
    | .both pi i =>
      { fs with optimization := true, instructions := fs.instructions.dropLast ++ [pi, i] }
    | .dropped i =>
      { fs with
        optimization := true
        instructions := fs.instructions.dropLast ++ [i]
        lineinfos := fs.lineinfos.dropLast }
  | _, _ => fs.pushInstruction i

theorem addInstruction_off (i : LVInstruction) (off : fs.optimization = false) :
    fs.addInstruction i = fs.pushInstruction i := by
  simp [addInstruction, off]

theorem addInstruction_first (i : LVInstruction) (none : fs.instructions.getLast? = none) :
    fs.addInstruction i = fs.pushInstruction i := by
  cases on : fs.optimization <;> simp [addInstruction, on, none]

theorem addInstruction_on {pi : LVInstruction} (i : LVInstruction) (on : fs.optimization = true)
    (last : fs.instructions.getLast? = some pi) :
    fs.addInstruction i =
      match fs.rewriting pi i with
      | .merged pi opt =>
        { fs with optimization := opt, instructions := fs.instructions.dropLast ++ [pi] }
      | .both pi i =>
        { fs with optimization := true, instructions := fs.instructions.dropLast ++ [pi, i] }
      | .dropped i =>
        { fs with
          optimization := true
          instructions := fs.instructions.dropLast ++ [i]
          lineinfos := fs.lineinfos.dropLast } := by
  simp only [addInstruction, on, last]

def addLineInfos (line : Int) (lineop : Bool) (force : Bool := false) : FunctionState :=
  if fs.lastline ≠ line ∨ force then
    let li : LVLineInfo := ⟨line, fs.getCurrentPos + 1⟩
    let fs₁ := if lineop then fs.addInstruction (instruction .OP_LINE 0 line) else fs
    { fs₁ with
      lineinfos := if fs.lastline ≠ line then fs₁.lineinfos ++ [li] else fs₁.lineinfos
      lastline := line }
  else fs

def buildProto : FunctionPrototype :=
  ⟨fs.stacksize, fs.bgenerator, fs.varparams, fs.instructions, fs.literals, fs.functions,
    fs.parameters, fs.outervalues, fs.lineinfos, fs.defaultparams⟩

end FunctionState

end Lavril
