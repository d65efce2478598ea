import Lavril.CompilerState

/-!
# The compiler

One function for each production of `LVCompiler`, by recursion on the
derivation. `_es` passes what kind of value the last operand left on the target
stack: a local, a captured variable, an object and a key not fetched yet, or a
plain value.
-/

namespace Lavril

namespace LVCompiler

/-- `EmitCompoundArith`. -/
def emitCompoundArith (op : AssignOp) (ds : ExpType) (pos : Int) : CompilerM Unit :=
  match ds with
  | .LOCAL => do
    let p2 ← popTarget
    let p1 ← popTarget
    pushTargetAt p1
    addInstruction op.arithOp p1 p2 p1 0
    snoozeOpt
  | .OBJECT | .BASE => do
    let val ← popTarget
    let key ← popTarget
    let src ← popTarget
    -- COMPARITH keeps the object and the value in one operand
    addInstruction .OP_COMPARITH (← pushTarget) (src <<< 16 ||| val : Nat) key op.compArithChar
  | .OUTER => do
    let val ← topTarget
    let tmp ← pushTarget
    addInstruction .OP_GETOUTER tmp pos
    addInstruction op.arithOp tmp val tmp 0
    let _ ← popTarget
    let _ ← popTarget
    addInstruction .OP_SETOUTER (← pushTarget) pos tmp
  | .EXPR => pure ()

/-- The second half of an assignment, after its value. -/
def emitAssign (op : AssignOp) (ds : ExpType) (pos : Int) : CompilerM Unit :=
  match op with
  | .newslot =>
    match ds with
    | .OBJECT | .BASE => emitDerefOp .OP_NEWSLOT
    | _ => fail "can't 'create' a local slot"
  | .assign =>
    match ds with
    | .LOCAL => do
      let src ← popTarget
      let dst ← topTarget
      addInstruction .OP_MOVE dst src
    | .OBJECT | .BASE => emitDerefOp .OP_SET
    | .OUTER => do
      let src ← popTarget
      let dst ← pushTarget
      addInstruction .OP_SETOUTER dst pos src
    | .EXPR => pure ()
  | _ => emitCompoundArith op ds pos

/-- `=` and the other assignment tokens, before the value is read. -/
def checkAssignable (ds : ExpType) : CompilerM Unit :=
  match ds with
  | .EXPR => fail "can't assign expression"
  | .BASE => fail "'base' cannot be modified"
  | _ => pure ()

/-- `BIN_EXP` after its operands. -/
def emitBinary (op : BinaryOp) : CompilerM Unit := do
  let op1 ← popTarget
  let op2 ← popTarget
  addInstruction op.opcode (← pushTarget) op1 op2 op.op3

/-- What a field, an index or `->` does once its key is on the target stack. -/
def emitAccess (next : Lookahead) : CompilerM Unit := do
  let es ← getEs
  if es.etype = .BASE then
    emit2ArgsOP .OP_GET
    let pos ← topTarget
    setEs { es with etype := .EXPR, epos := pos }
  else
    if needGet es.donot_get next then emit2ArgsOP .OP_GET
    setEtype .OBJECT

/-- `++` or `--` after a prefixed expression. -/
def emitPostfix (diff : Int) : CompilerM Unit := do
  let es ← getEs
  match es.etype with
  | .EXPR => fail "can't '++' or '--' an expression"
  | .OBJECT | .BASE =>
    if es.donot_get then fail "can't '++' or '--' an expression"
    else emit2ArgsOP .OP_PINC diff
  | .LOCAL =>
    let src ← popTarget
    addInstruction .OP_PINCL (← pushTarget) src 0 diff
  | .OUTER =>
    let tmp1 ← pushTarget
    let tmp2 ← pushTarget
    addInstruction .OP_GETOUTER tmp2 es.epos
    addInstruction .OP_PINCL tmp1 tmp2 0 diff
    addInstruction .OP_SETOUTER tmp2 es.epos tmp2
    let _ ← popTarget

/-- The callee and `this`, before the arguments of a call. -/
def emitPrepareCall : CompilerM Unit := do
  let es ← getEs
  match es.etype with
  | .OBJECT =>
    let key ← popTarget
    let table ← popTarget
    let closure ← pushTarget
    let ttarget ← pushTarget
    addInstruction .OP_PREPCALL closure key table ttarget
  | .OUTER =>
    addInstruction .OP_GETOUTER (← pushTarget) es.epos
    addInstruction .OP_MOVE (← pushTarget) 0
  | _ => addInstruction .OP_MOVE (← pushTarget) 0
  setEtype .EXPR

def popTargets : Nat → CompilerM Unit
  | 0 => pure ()
  | n + 1 => do
    let _ ← popTarget
    popTargets n

/-- The end of `FunctionCallArgs`; `this` is counted in `nargs`. -/
def emitCall (nargs : Nat) : CompilerM Unit := do
  popTargets (nargs - 1)
  let stackbase ← popTarget
  let closure ← popTarget
  addInstruction .OP_CALL (← pushTarget) closure stackbase nargs

/-- The value of a constant, and whether a key of an enumeration was read for it. -/
def constantValue (id : String) (key : Option String) : Constant → CompilerM (LVObject × Bool)
  | .scalar val => pure (val, false)
  | .table entries =>
    match key with
    | none => fail "expected '.'"
    | some key =>
      match entries.lookup key with
      | some val => pure (val, true)
      | none => fail ("invalid constant [" ++ id ++ "." ++ key ++ "]")

def emitConstantValue (constval : LVObject) (epos : Nat) : CompilerM Unit :=
  match constval.type, constval.unVal with
  | .OT_INTEGER, .raw bits => emitLoadConstInt bits.toInt epos
  | .OT_FLOAT, .raw bits => emitLoadConstFloat (bits.setWidth 32).toInt epos
  | .OT_BOOL, .raw bits => addInstruction .OP_LOADBOOL epos bits.toInt
  | _, _ => do addInstruction .OP_LOAD epos (← getConstant constval)

/-- `this`, `constructor` or a name: a local, a captured variable, a constant
or a field of `this`. The result says whether an enumeration's key was read. -/
def identifier (id : String) (next : Lookahead) (key : Option String) : CompilerM Bool := do
  match ← getLocalVariable id with
  | some pos =>
    pushTargetAt pos
    setEtype .LOCAL
    setEpos pos
    return false
  | none =>
  match ← getOuterVariable id with
  | some pos =>
    if needGet (← getEs).donot_get next then
      let epos ← pushTarget
      setEpos epos
      addInstruction .OP_GETOUTER epos pos
    else
      setEtype .OUTER
      setEpos pos
    return false
  | none =>
  match ← isConstant id with
  | some constant =>
    let (constval, read) ← constantValue id key constant
    let epos ← pushTarget
    setEpos epos
    emitConstantValue constval epos
    setEtype .EXPR
    return read
  | none =>
    -- a field of `this`, which is always in register 0
    pushTargetAt 0
    loadConstant (.string id)
    if needGet (← getEs).donot_get next then emit2ArgsOP .OP_GET
    setEtype .OBJECT
    return false

/-- Stores the value and the key on top of the target stack into the table or
class below them. -/
def emitMember (isclass isstatic : Bool) : CompilerM Unit := do
  let val ← popTarget
  let key ← popTarget
  let table ← topTarget
  if isclass then
    addInstruction .OP_NEWSLOTA (if isstatic then NEW_SLOT_STATIC_FLAG else 0) table key val
  else
    addInstruction .OP_NEWSLOT 0xFF table key val

/-- Makes the child state of `CreateFunction` the current one. -/
def enterFunction (funcstate : FunctionState) : CompilerM Unit :=
  modify fun c => { c with fs := funcstate, parents := c.fs :: c.parents }

/-- Closes the child state and adds its prototype to the parent. -/
def leaveFunction (endline : Int) : CompilerM Unit := fun c =>
  let fs := c.fs.addLineInfos endline c.lineinfo true
  let fs := fs.addInstruction (instruction .OP_RETURN (-1))
  let func := (fs.setStackSize 0).buildProto
  match c.parents with
  | [] => .error .undefined
  | parent :: rest => .ok ((), { c with
      fs := { parent with functions := parent.functions ++ [func] }, parents := rest })

def emitClosure (lambda : Bool) : CompilerM Unit := do
  let target ← pushTarget
  addInstruction .OP_CLOSURE target ((← get).fs.functions.length - 1) (if lambda then 1 else 0)

/-- `return` and `yield` of a value on the target stack, or of nothing. -/
def emitReturn (op : Opcode) (retexp : Option Int) : CompilerM Unit := do
  let fs := (← get).fs
  if op = .OP_RETURN ∧ fs.traps > 0 then addInstruction .OP_POPTRAP fs.traps 0
  match retexp with
  | some retexp =>
    updateFs ({ · with returnexp := retexp })
    let src ← popTarget
    addInstruction op 1 src (← get).fs.getStackSize
  | none =>
    updateFs ({ · with returnexp := -1 })
    addInstruction op 0xFF 0 (← get).fs.getStackSize

def emitBreak : CompilerM Unit := do
  match (← get).fs.breaktargets with
  | [] => fail "'break' has to be in a loop block"
  | traps :: _ =>
    if traps > 0 then addInstruction .OP_POPTRAP traps 0
    resolveOuters
    let pos ← emit .OP_JMP 0 (-1234)
    updateFs fun fs => { fs with unresolvedbreaks := pos :: fs.unresolvedbreaks }

def emitContinue : CompilerM Unit := do
  match (← get).fs.continuetargets with
  | [] => fail "'continue' has to be in a loop block"
  | traps :: _ =>
    if traps > 0 then addInstruction .OP_POPTRAP traps 0
    resolveOuters
    let pos ← emit .OP_JMP 0 (-1234)
    updateFs fun fs => { fs with unresolvedcontinues := pos :: fs.unresolvedcontinues }

/-- The names after `function`, each but the last fetched from the one before. -/
def functionPath (id : String) : List String → CompilerM Unit
  | [] => loadConstant (.string id)
  | next :: path => do
    loadConstant (.string id)
    emit2ArgsOP .OP_GET
    functionPath next path

/-- The increment of a `for` loop is compiled before the body, taken out again
and emitted after it. -/
def takeInstructions (expstart : Nat) : CompilerM (List LVInstruction) := fun c =>
  .ok (c.fs.instructions.drop expstart,
    { c with fs := c.fs.popInstructions (c.fs.instructions.length - expstart) })

def replay (exp : List LVInstruction) : CompilerM Unit :=
  updateFs fun fs => exp.foldl FunctionState.addInstruction fs

def enumEntries : Int → List (String × Option LVObject) → List (String × LVObject)
  | _, [] => []
  | nval, (key, some val) :: rest => (key, val) :: enumEntries nval rest
  | nval, (key, none) :: rest =>
    (key, .integer (BitVec.ofInt 64 nval)) :: enumEntries (nval + 1) rest

def adjustTraps (d : Int) (fs : FunctionState) : FunctionState :=
  { fs with
    traps := fs.traps + d
    breaktargets := fs.breaktargets.modifyHead (· + d)
    continuetargets := fs.continuetargets.modifyHead (· + d) }

/-- `INVOKE_EXP`. -/
def invokeExp (f : CompilerM Unit) : CompilerM Unit := do
  let es ← getEs
  setEs freshEs
  f
  setEs es

/-- `||` and `&&` after their first operand. -/
def shortCircuit (op : Opcode) (second : CompilerM Unit) : CompilerM Unit := do
  let first_exp ← popTarget
  let trg ← pushTarget
  let jpos ← emit op trg 0 first_exp 0
  if trg ≠ first_exp then addInstruction .OP_MOVE trg first_exp
  invokeExp second
  snoozeOpt
  let second_exp ← popTarget
  if trg ≠ second_exp then addInstruction .OP_MOVE trg second_exp
  snoozeOpt
  setArg1 jpos ((← getCurrentPos) - jpos)

/-- Moves the value of one branch of `?:` to the target both share. -/
def moveToTarget (trg : Nat) : CompilerM Unit := do
  let exp ← popTarget
  if trg ≠ exp then addInstruction .OP_MOVE trg exp

/-- The initial value of a local, on the target stack, becomes the local. -/
def emitDeclarator (name : String) : CompilerM Unit := do
  let _ ← popTarget
  let _ ← pushLocalVariable name

/-- The test of a `case` label against the switch expression in `expr`, with
the position of its jump. -/
def emitCaseTest (expr : Nat) : CompilerM Nat := do
  let trg ← popTarget
  if ← isLocal trg then
    let eqtarget ← pushTarget
    addInstruction .OP_EQ eqtarget trg expr
    let jz ← emit .OP_JZ eqtarget 0
    let _ ← popTarget
    return jz
  else
    addInstruction .OP_EQ trg trg expr
    emit .OP_JZ trg 0

mutual

/-- `Expression`. -/
def expression : Expression → CompilerM Unit
  | .plain e => do
    let es ← getEs
    setEs freshEs
    logicalOrExp .other e
    setEs es
  | .assign target op value => do
    let es ← getEs
    setEs freshEs
    logicalOrExp .assign target
    let left ← getEs
    checkAssignable left.etype
    expression value
    emitAssign op left.etype left.epos
    setEs es
  | .cond test first second => do
    let es ← getEs
    setEs freshEs
    logicalOrExp .other test
    let jzpos ← emit .OP_JZ (← popTarget)
    let trg ← pushTarget
    expression first
    moveToTarget trg
    let endfirstexp ← getCurrentPos
    let jmppos ← emit .OP_JMP
    expression second
    moveToTarget trg
    setArg1 jmppos ((← getCurrentPos) - jmppos)
    setArg1 jzpos (endfirstexp - jzpos + 1)
    snoozeOpt
    setEs es

/-- `LogicalOrExp` and the levels below it, before the token `next`. -/
def logicalOrExp (next : Lookahead) : LogicalOrExp → CompilerM Unit
  | .or first second => do
    logicalOrExp .other first
    shortCircuit .OP_OR (logicalOrExp next second)
  | .and first second => do
    logicalOrExp .other first
    shortCircuit .OP_AND (logicalOrExp next second)
  | .bin op left right => do
    logicalOrExp .other left
    invokeExp (logicalOrExp next right)
    emitBinary op
  | .prefixed e => prefixedExpr next e

/-- `PrefixedExpr`. -/
def prefixedExpr (next : Lookahead) : PrefixedExpr → CompilerM Unit
  | .mk f suffixes incdec => do
    let read ← factor (lookahead suffixes incdec next) (fieldName suffixes) f
    suffixLoop next incdec read suffixes
    match incdec with
    | some diff => emitPostfix diff
    | none => pure ()

/-- The loop of `PrefixedExpr`; `read` says that the first suffix was read
with the factor. -/
def suffixLoop (next : Lookahead) (incdec : Option Int) :
    Bool → List Suffix → CompilerM Unit
  | _, [] => pure ()
  | true, _ :: rest => suffixLoop next incdec false rest
  | false, suffix :: rest => do
    applySuffix (lookahead rest incdec next) suffix
    suffixLoop next incdec false rest

def applySuffix (next : Lookahead) : Suffix → CompilerM Unit
  | .field id => do
    loadConstant (.string id)
    emitAccess next
  | .index key => do
    expression key
    emitAccess next
  | .arrow id => do
    loadConstant (.string id)
    emitAccess next
  | .call args => do
    emitPrepareCall
    let nargs ← functionCallArgs args
    emitCall nargs

/-- The arguments of a call, counted with `this`. -/
def functionCallArgs : List Expression → CompilerM Nat
  | [] => pure 1
  | e :: rest => do
    expression e
    moveIfCurrentTargetIsLocal
    return (← functionCallArgs rest) + 1

/-- `Factor`, before the token `next`; `key` is the name after the dot that follows. -/
def factor (next : Lookahead) (key : Option String) : Factor → CompilerM Bool
  | .stringLiteral text => do
    loadConstant (.string text)
    setEtype .EXPR
    return false
  | .base => do
    addInstruction .OP_GETBASE (← pushTarget)
    setEtype .BASE
    setEpos (← topTarget)
    return false
  | .identifier id => identifier id next key
  | .doubleColon => do
    addInstruction .OP_LOADROOT (← pushTarget)
    setEtype .OBJECT
    setEpos (-1)
    return false
  | .null => do
    addInstruction .OP_LOADNULLS (← pushTarget) 1
    setEtype .EXPR
    return false
  | .integer value => do
    emitLoadConstInt value (← pushTarget)
    setEtype .EXPR
    return false
  | .float bits => do
    emitLoadConstFloat bits (← pushTarget)
    setEtype .EXPR
    return false
  | .bool value => do
    addInstruction .OP_LOADBOOL (← pushTarget) (if value then 1 else 0)
    setEtype .EXPR
    return false
  | .array elements => do
    let apos ← emit .OP_NEWOBJ (← pushTarget) 0 0 NOT_ARRAY
    let key ← arrayElements elements
    setArg1 apos key
    setEtype .EXPR
    return false
  | .table ms => do
    let tpos ← emit .OP_NEWOBJ (← pushTarget) 0 NOT_TABLE
    let nkeys ← members false ms
    setArg1 tpos nkeys
    setEtype .EXPR
    return false
  | .function f => do
    createFunction f
    emitClosure false
    setEtype .EXPR
    return false
  | .lambda f => do
    createFunction f
    emitClosure true
    setEtype .EXPR
    return false
  | .class c => do
    classExp (-1) c
    setEtype .EXPR
    return false
  | .unary op e => do
    prefixedExpr next e
    let src ← popTarget
    addInstruction op.opcode (← pushTarget) src
    setEtype .EXPR
    return false
  | .prefixIncDec diff e => do
    let es ← getEs
    setEs { es with donot_get := true }
    prefixedExpr next e
    let inner ← getEs
    match inner.etype with
    | .EXPR => fail "can't '++' or '--' an expression"
    | .OBJECT | .BASE => emit2ArgsOP .OP_INC diff
    | .LOCAL =>
      let src ← topTarget
      addInstruction .OP_INCL src src 0 diff
    | .OUTER =>
      let tmp ← pushTarget
      addInstruction .OP_GETOUTER tmp inner.epos
      addInstruction .OP_INCL tmp tmp 0 diff
      addInstruction .OP_SETOUTER tmp inner.epos tmp
    setEs es
    setEtype .EXPR
    return false
  | .delete e => do
    let es ← getEs
    setEs { es with donot_get := true }
    prefixedExpr next e
    let inner ← getEs
    match inner.etype with
    | .EXPR => fail "can't delete an expression"
    | .OBJECT | .BASE => emit2ArgsOP .OP_DELETE
    | _ => fail "cannot delete an (outer) local"
    setEs es
    setEtype .EXPR
    return false
  | .paren e => do
    commaExpr e
    setEtype .EXPR
    return false

def arrayElements : List Expression → CompilerM Nat
  | [] => pure 0
  | e :: rest => do
    expression e
    let val ← popTarget
    let array ← topTarget
    addInstruction .OP_APPENDARRAY array val AAT_STACK
    return (← arrayElements rest) + 1

/-- `CommaExpr`. -/
def commaExpr : CommaExpr → CompilerM Unit
  | .last e => expression e
  | .cons e rest => do
    expression e
    let _ ← popTarget
    commaExpr rest

/-- `ParseTableOrClass`, with the number of keys. -/
def members (isclass : Bool) : List Member → CompilerM Nat
  | [] => pure 0
  | m :: rest => do
    let isstatic ← member m
    emitMember isclass isstatic
    return (← members isclass rest) + 1

/-- Pushes the key and the value of a member. -/
def member : Member → CompilerM Bool
  | .method isstatic id f => do
    loadConstant (.string id)
    createFunction f
    emitClosure false
    return isstatic
  | .computed isstatic key value => do
    commaExpr key
    expression value
    return isstatic
  | .named isstatic key value => do
    loadConstant (.string key)
    expression value
    return isstatic

/-- `ClassExp`. -/
def classExp (abstract : Int) : ClassDef → CompilerM Unit
  | .mk none ms => do
    addInstruction .OP_NEWOBJ (← pushTarget) (-1) abstract NOT_CLASS
    let _ ← members true ms
  | .mk (some e) ms => do
    expression e
    let base ← topTarget
    let _ ← popTarget
    addInstruction .OP_NEWOBJ (← pushTarget) base abstract NOT_CLASS
    let _ ← members true ms

/-- `CreateFunction`. -/
def createFunction : FunctionDef → CompilerM Unit
  | .mk ps varparams body endline => do
    let (funcstate, defparams) ← params ((FunctionState.new true).addParameter "this") ps
    let funcstate := if varparams then
        { funcstate.addParameter "vargv" with varparams := true }
      else funcstate
    popTargets defparams
    enterFunction funcstate
    functionBody body
    leaveFunction endline

/-- The parameters of a function under construction. Default values are
evaluated in the parent; their number is returned. -/
def params (funcstate : FunctionState) : List Param → CompilerM (FunctionState × Nat)
  | [] => pure (funcstate, 0)
  | p :: rest => do
    let (funcstate, n) ← param funcstate p
    let (funcstate, m) ← params funcstate rest
    return (funcstate, n + m)

def param (funcstate : FunctionState) : Param → CompilerM (FunctionState × Nat)
  | .mk name none => pure (funcstate.addParameter name, 0)
  | .mk name (some e) => do
    expression e
    return ((funcstate.addParameter name).addDefaultParam (← topTarget), 1)

def functionBody : FunctionBody → CompilerM Unit
  | .statement body => statement false body
  | .expression e => do
    expression e
    addInstruction .OP_RETURN 1 (← popTarget)

/-- `Statement`; `closeframe` is false for the body of a function. -/
def statement (closeframe : Bool) : Statement → CompilerM Unit
  | .mk line kind => do
    let c ← get
    updateFs (·.addLineInfos line c.lineinfo)
    statementKind closeframe kind
    snoozeOpt

/-- `Statements`. -/
def statements : List Statement → CompilerM Unit
  | [] => pure ()
  | s :: rest => do
    statement true s
    statements rest

def statementKind (closeframe : Bool) : StatementKind → CompilerM Unit
  | .empty => pure ()
  | .ifThen cond block => do
    commaExpr cond
    let jnepos ← emit .OP_JZ (← popTarget)
    ifBlock block
    let endifblock ← getCurrentPos
    setArg1 jnepos (endifblock - jnepos)
  | .ifElse cond block else_ => do
    commaExpr cond
    let jnepos ← emit .OP_JZ (← popTarget)
    ifBlock block
    let endifblock ← getCurrentPos
    let jmppos ← emit .OP_JMP
    ifBlock else_
    setArg1 jmppos ((← getCurrentPos) - jmppos)
    setArg1 jnepos (endifblock - jnepos + 1)
  | .while cond body => do
    let jmppos ← getCurrentPos
    commaExpr cond
    let start ← beginBreakableBlock
    let jzpos ← emit .OP_JZ (← popTarget)
    let scope ← beginScope
    statement true body
    endScope scope
    addInstruction .OP_JMP 0 (jmppos - (← getCurrentPos) - 1)
    setArg1 jzpos ((← getCurrentPos) - jzpos)
    endBreakableBlock start jmppos
  | .doWhile body cond => do
    let jmptrg ← getCurrentPos
    let start ← beginBreakableBlock
    let scope ← beginScope
    statement true body
    endScope scope
    let continuetrg ← getCurrentPos
    commaExpr cond
    addInstruction .OP_JZ (← popTarget) 1
    addInstruction .OP_JMP 0 (jmptrg - (← getCurrentPos) - 1)
    endBreakableBlock start continuetrg
  | .for init cond inc body => do
    let scope ← beginScope
    forInit init
    snoozeOpt
    let jmppos ← getCurrentPos
    let jzpos ← forCond cond
    snoozeOpt
    let expstart ← getCurrentPos
    forInc inc
    snoozeOpt
    let exp ← takeInstructions (expstart + 1).toNat
    let start ← beginBreakableBlock
    statement true body
    let continuetrg ← getCurrentPos
    replay exp
    addInstruction .OP_JMP 0 (jmppos - (← getCurrentPos) - 1) 0
    if jzpos > 0 then setArg1 jzpos.toNat ((← getCurrentPos) - jzpos)
    endScope scope
    endBreakableBlock start continuetrg
  | .forEach idxname valname container body => do
    let scope ← beginScope
    expression container
    let container ← topTarget
    let indexpos ← pushLocalVariable (idxname.getD "@INDEX@")
    addInstruction .OP_LOADNULLS indexpos 1
    let valuepos ← pushLocalVariable valname
    addInstruction .OP_LOADNULLS valuepos 1
    let itrpos ← pushLocalVariable "@ITERATOR@"
    addInstruction .OP_LOADNULLS itrpos 1
    let jmppos ← getCurrentPos
    let foreachpos ← emit .OP_FOREACH container 0 indexpos
    addInstruction .OP_POSTFOREACH container 0 indexpos
    let start ← beginBreakableBlock
    statement true body
    addInstruction .OP_JMP 0 (jmppos - (← getCurrentPos) - 1)
    setArg1 foreachpos ((← getCurrentPos) - foreachpos)
    setArg1 (foreachpos + 1) ((← getCurrentPos) - foreachpos)
    endBreakableBlock start (foreachpos - 1)
    let _ ← popTarget
    endScope scope
  | .switch e cases default => do
    commaExpr e
    let expr ← topTarget
    let nbreaks := (← get).fs.unresolvedbreaks.length
    updateFs fun fs => { fs with breaktargets := 0 :: fs.breaktargets }
    let tonextcondjmp ← switchCases expr none cases
    match tonextcondjmp with
    | some pos => setArg1 pos ((← getCurrentPos) - pos)
    | none => pure ()
    switchDefault default
    let _ ← popTarget
    updateFs fun fs =>
      let fs := resolveBreaks fs (fs.unresolvedbreaks.length - nbreaks)
      { fs with breaktargets := fs.breaktargets.tail }
  | .localDecl d => localDeclStatement d
  | .return none => emitReturn .OP_RETURN none
  | .return (some e) => do
    let retexp ← getCurrentPos
    commaExpr e
    emitReturn .OP_RETURN (some (retexp + 1))
  | .yield none => do
    updateFs ({ · with bgenerator := true })
    emitReturn .OP_YIELD none
  | .yield (some e) => do
    updateFs ({ · with bgenerator := true })
    let retexp ← getCurrentPos
    commaExpr e
    emitReturn .OP_YIELD (some (retexp + 1))
  | .break => emitBreak
  | .continue => emitContinue
  | .function id path f => do
    pushTargetAt 0
    functionPath id path
    createFunction f
    emitClosure false
    emitDerefOp .OP_NEWSLOT
    let _ ← popTarget
  | .class isabstract name c => do
    let es ← getEs
    setEs { es with donot_get := true }
    prefixedExpr .other name
    match (← getEs).etype with
    | .EXPR => fail "invalid class name"
    | .OBJECT | .BASE =>
      classExp (if isabstract then 1 else -1) c
      emitDerefOp .OP_NEWSLOT
      let _ ← popTarget
    | _ => fail "cannot create a class in a local with the syntax(class <local>)"
    setEs es
  | .enum id entries => addConstant id (.table (enumEntries 0 entries).reverse)
  | .block body => do
    let scope ← beginScope
    statements body
    if closeframe then endScope scope else endScopeNoClose scope
  | .tryCatch body exid handler => do
    let trappos ← emit .OP_PUSHTRAP 0 0
    updateFs (adjustTraps 1)
    let scope ← beginScope
    statement true body
    endScope scope
    updateFs (adjustTraps (-1))
    addInstruction .OP_POPTRAP 1 0
    let jmppos ← emit .OP_JMP 0 0
    setArg1 trappos ((← getCurrentPos) - trappos)
    let scope ← beginScope
    let ex_target ← pushLocalVariable exid
    setArg0 trappos ex_target
    statement true handler
    let pos ← getCurrentPos
    updateFs (·.setIntructionParams jmppos 0 (pos - jmppos) 0)
    endScope scope
  | .throw e => do
    commaExpr e
    addInstruction .OP_THROW (← popTarget)
  | .const id value => addConstant id (.scalar value)
  | .expression e => do
    commaExpr e
    discardTarget

/-- `IfBlock`. -/
def ifBlock : IfBlock → CompilerM Unit
  | .braces body => do
    let scope ← beginScope
    statements body
    endScope scope
  | .single s => statement true s

def forInit : ForInit → CompilerM Unit
  | .none => pure ()
  | .decl d => localDeclStatement d
  | .expression e => do
    commaExpr e
    let _ ← popTarget

/-- The condition of a `for` loop, with `jzpos`. -/
def forCond : Option CommaExpr → CompilerM Int
  | none => pure (-1)
  | some e => do
    commaExpr e
    emit .OP_JZ (← popTarget)

def forInc : Option CommaExpr → CompilerM Unit
  | none => pure ()
  | some e => do
    commaExpr e
    let _ ← popTarget

/-- The loop of `SwitchStatement`. `tonextcondjmp` is the jump of the test
before, if there was one; the last one is returned. -/
def switchCases (expr : Nat) : Option Nat → List SwitchCase → CompilerM (Option Nat)
  | tonextcondjmp, [] => pure tonextcondjmp
  | tonextcondjmp, c :: rest => do
    let skipcondjmp ← match tonextcondjmp with
      | none => pure none
      | some pos =>
        let skip ← emit .OP_JMP 0 0
        setArg1 pos ((← getCurrentPos) - pos)
        pure (some skip)
    let jz ← switchCase expr skipcondjmp c
    switchCases expr (some jz) rest

def switchCase (expr : Nat) (skipcondjmp : Option Nat) : SwitchCase → CompilerM Nat
  | .mk label body => do
    expression label
    let tonextcondjmp ← emitCaseTest expr
    match skipcondjmp with
    | some skip => setArg1 skip ((← getCurrentPos) - skip)
    | none => pure ()
    let scope ← beginScope
    statements body
    endScope scope
    return tonextcondjmp

def switchDefault : Option (List Statement) → CompilerM Unit
  | none => pure ()
  | some body => do
    let scope ← beginScope
    statements body
    endScope scope

/-- `LocalDeclStatement`. -/
def localDeclStatement : LocalDecl → CompilerM Unit
  | .function name f => do
    createFunction f
    emitClosure false
    let _ ← popTarget
    let _ ← pushLocalVariable name
  | .vars first rest => do
    declarator first
    declarators rest

def declarators : List Declarator → CompilerM Unit
  | [] => pure ()
  | d :: rest => do
    declarator d
    declarators rest

def declarator : Declarator → CompilerM Unit
  | .mk name none => do
    addInstruction .OP_LOADNULLS (← pushTarget) 1
    emitDeclarator name
  | .mk name (some e) => do
    expression e
    let src ← popTarget
    let dest ← pushTarget
    if dest ≠ src then addInstruction .OP_MOVE dest src
    emitDeclarator name

end

/-- `StartCompiler` on a program whose last token is on `line`. -/
def startCompiler (lineinfo : Bool) (consts : List (String × Constant))
    (program : List Statement) (line : Int) : Except CompileError FunctionPrototype := do
  let fs := ((FunctionState.new false).addParameter "this").addParameter "vargv"
  let c : LVCompiler := ⟨{ fs with varparams := true }, [], freshEs, ⟨0, 0⟩, consts, lineinfo⟩
  let (_, c) ← (statements program).run c
  let fs := (c.fs.setStackSize fs.getStackSize).addLineInfos line lineinfo true
  return ((fs.addInstruction (instruction .OP_RETURN 0xFF)).setStackSize 0).buildProto

/-- The prototype of a function written in the main program. -/
def compileFunction (f : FunctionDef) : Option FunctionPrototype :=
  let fs := ((FunctionState.new false).addParameter "this").addParameter "vargv"
  let c : LVCompiler := ⟨{ fs with varparams := true }, [], freshEs, ⟨0, 0⟩, [], false⟩
  match createFunction f c with
  | .ok (_, c) => c.fs.functions.getLast?
  | .error _ => none

/-- The state in which the body of a function with these parameters is compiled. -/
def bodyState (params : List String) : LVCompiler where
  fs := ("this" :: params).foldl FunctionState.addParameter (FunctionState.new true)
  parents := []
  es := freshEs
  scope := ⟨0, 0⟩
  consts := []
  lineinfo := false

end LVCompiler

end Lavril
