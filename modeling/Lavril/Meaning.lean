import Lavril.Operators
import Lavril.Syntax
import Lavril.CompilerState
import Lavril.StructuredCode

/-!
# What a program means

The part of the language that computes with local variables: constants, operators, `||`, `&&`
and `?:`, declarations and assignments, `if`, the `while` loops, blocks and `return`. A local
variable is found by its name, the innermost one first. `none` is an operation that raises an
error, or needs what is not represented here.
-/

namespace Lavril

/-- The variables and their values, the innermost first. -/
abbrev Env := List (String × LVObject)

namespace BinaryOp

def eval (op : BinaryOp) (left right : LVObject) : Option LVObject :=
  match op with
  | .bitOr | .bitXor | .bitAnd | .ushiftr | .shiftl | .shiftr => bwOp op.op3.toNat left right
  | .eq => (isEqual left right).map .bool
  | .ne => (isEqual left right).map (.bool !·)
  | .cmp3 | .gt | .lt | .ge | .le => cmpOp op.op3.toNat left right
  | .add | .sub | .mul | .div | .mod => arith op.opcode left right
  | .in | .instanceof => none

/-- The operators that are represented. -/
def computes : BinaryOp → Bool
  | .in | .instanceof => false
  | _ => true

end BinaryOp

section expressions

variable (value : String → Option LVObject)

mutual

def Expression.eval : Expression → Option LVObject
  | .plain e => e.eval
  | .assign _ _ _ => none
  | .cond test first second =>
    match test.eval with
    | none => none
    | some v => if isFalse v then second.eval else first.eval

def LogicalOrExp.eval : LogicalOrExp → Option LVObject
  | .or first second =>
    match first.eval with
    | none => none
    | some v => if isFalse v then second.eval else some v
  | .and first second =>
    match first.eval with
    | none => none
    | some v => if isFalse v then some v else second.eval
  | .bin op left right =>
    match left.eval, right.eval with
    | some v, some w => op.eval v w
    | _, _ => none
  | .prefixed e => e.eval

def PrefixedExpr.eval : PrefixedExpr → Option LVObject
  | .mk f [] none => f.eval
  | _ => none

def Factor.eval : Factor → Option LVObject
  | .stringLiteral text => some (.string text)
  | .identifier id => value id
  | .null => some .null
  | .integer n => some (.integer (BitVec.ofInt 64 n))
  | .float bits => some (.float ((BitVec.ofInt 32 bits).setWidth 64))
  | .bool b => some (.bool b)
  | .unary .not e => e.eval.map fun v => .bool (isFalse v)
  | .paren e => e.eval
  | _ => none

def CommaExpr.eval : CommaExpr → Option LVObject
  | .last e => e.eval
  | .cons _ _ => none

end

end expressions

/-! ## Expressions that are represented

The value of an expression is in a variable when it is the name of the variable, in
parentheses or not. Such a test of `?:` is left out. -/

mutual

def Expression.isName : Expression → Bool
  | .plain e => e.isName
  | _ => false

def LogicalOrExp.isName : LogicalOrExp → Bool
  | .prefixed e => e.isName
  | _ => false

def PrefixedExpr.isName : PrefixedExpr → Bool
  | .mk f [] none => f.isName
  | _ => false

def Factor.isName : Factor → Bool
  | .identifier _ => true
  | .paren e => e.isName
  | _ => false

def CommaExpr.isName : CommaExpr → Bool
  | .last e => e.isName
  | .cons _ _ => false

end

section expressions

variable (names : List String)

mutual

def Expression.simple : Expression → Bool
  | .plain e => e.simple
  | .assign _ _ _ => false
  | .cond test first second => test.simple && !test.isName && first.simple && second.simple

def LogicalOrExp.simple : LogicalOrExp → Bool
  | .or first second | .and first second => first.simple && second.simple
  | .bin op left right => op.computes && left.simple && right.simple
  | .prefixed e => e.simple

def PrefixedExpr.simple : PrefixedExpr → Bool
  | .mk f [] none => f.simple
  | _ => false

def Factor.simple : Factor → Bool
  | .stringLiteral _ | .null | .integer _ | .float _ | .bool _ => true
  | .identifier id => names.contains id
  | .unary .not e => e.simple
  | .paren e => e.simple
  | _ => false

def CommaExpr.simple : CommaExpr → Bool
  | .last e => e.simple
  | .cons _ _ => false

end

end expressions

/-! ## Variables that change -/

namespace Env

def value (env : Env) (id : String) : Option LVObject := env.lookup id

def assign (id : String) (v : LVObject) : Env → Env
  | [] => []
  | (name, w) :: rest => if id = name then (name, v) :: rest else (name, w) :: assign id v rest

/-- The variables declared since are out of scope. -/
def leave (env env' : Env) : Env := env'.drop (env'.length - env.length)

end Env

/-- What an assignment makes of the old value. -/
def AssignOp.eval (op : AssignOp) (old v : LVObject) : Option LVObject :=
  match op with
  | .assign => some v
  | .newslot => none
  | _ => arith op.arithOp old v

def CommaExpr.changes (env : Env) : CommaExpr → Option Env
  | .last (.assign (.prefixed (.mk (.identifier id) [] none)) op e) => do
    let v ← e.eval env.value
    let old ← env.value id
    return env.assign id (← op.eval old v)
  | _ => none

def Declarator.declares (env : Env) : Declarator → Option Env
  | .mk name none => some ((name, .null) :: env)
  | .mk name (some e) => (e.eval env.value).map fun v => (name, v) :: env

def declares : List Declarator → Env → Option Env
  | [], env => some env
  | d :: rest, env => (d.declares env).bind (declares rest)

/-! ## Statements

`depth` is the number of variables outside the innermost loop. -/

open RelativeCode RelativeCode.Command

/-- What comes of a value that is returned. -/
def returned : Option LVObject → Outcome Env LVObject
  | some v => .returned v
  | none => .failed

def CommaExpr.test (e : CommaExpr) (env : Env) : Option Bool := (e.eval env.value).map (!isFalse ·)

mutual

def Statement.runs (depth : Nat) : Statement → Command Env LVObject
  | .mk _ kind => kind.runs depth

def StatementKind.runs (depth : Nat) : StatementKind → Command Env LVObject
  | .empty => skip
  | .ifThen cond block => branch cond.test (block.runs depth) skip
  | .ifElse cond block else_ => branch cond.test (block.runs depth) (else_.runs depth)
  | .while cond body => fun env => Loop cond.test (Scoped Env.leave (body.runs env.length)) env
  | .doWhile body cond => fun env =>
    Round (Scoped Env.leave (body.runs env.length))
      (Loop cond.test (Scoped Env.leave (body.runs env.length))) env
  | .localDecl (.vars first rest) => compute (declares (first :: rest))
  | .return none => fun _ o => o = returned (some .null)
  | .return (some e) => fun env o => o = returned (e.eval env.value)
  | .break => fun env o => o = .broke (env.drop (env.length - depth))
  | .continue => fun env o => o = .continued (env.drop (env.length - depth))
  | .block body => Scoped Env.leave (runsAll depth body)
  | .expression e => compute fun env => e.changes env
  | _ => fun _ _ => False

def IfBlock.runs (depth : Nat) : IfBlock → Command Env LVObject
  | .braces body => Scoped Env.leave (runsAll depth body)
  | .single s => s.runs depth

def runsAll (depth : Nat) : List Statement → Command Env LVObject
  | [] => skip
  | s :: rest => Seq (s.runs depth) (runsAll depth rest)

end

/-! ## Statements that are represented

The variables are given by their names, the innermost first. The first declaration of a
statement may copy a variable; in a later one `AddInstruction` would take the copy for the only
use of a value just computed. -/

def AssignOp.computes : AssignOp → Bool
  | .newslot => false
  | _ => true

def CommaExpr.assigns (names : List String) : CommaExpr → Bool
  | .last (.assign (.prefixed (.mk (.identifier id) [] none)) op e) =>
    names.contains id && op.computes && e.simple names
  | _ => false

namespace Declarator

def name : Declarator → String
  | .mk name _ => name

def copies : Declarator → Bool
  | .mk _ none => false
  | .mk _ (some e) => e.isName

def simple (names : List String) : Declarator → Bool
  | .mk _ none => true
  | .mk _ (some e) => e.simple names

end Declarator

/-- The names after the declarations. -/
def declaredNames (names : List String) (ds : List Declarator) : List String :=
  ds.foldl (fun names d => d.name :: names) names

def simpleDeclarators (names : List String) : List Declarator → Bool
  | [] => true
  | d :: rest => d.simple names && !d.copies && simpleDeclarators (d.name :: names) rest

/-- The names after a statement. -/
def StatementKind.declared (names : List String) : StatementKind → List String
  | .localDecl (.vars first rest) => declaredNames names (first :: rest)
  | _ => names

def Statement.declared (names : List String) : Statement → List String
  | .mk _ kind => kind.declared names

mutual

def Statement.simple (names : List String) : Statement → Bool
  | .mk _ kind => kind.simple names

def StatementKind.simple (names : List String) : StatementKind → Bool
  | .empty | .return none | .break | .continue => true
  | .ifThen cond block => cond.simple names && block.simple names
  | .ifElse cond block else_ => cond.simple names && block.simple names && else_.simple names
  | .while cond body => cond.simple names && body.simple names
  | .doWhile body cond => body.simple names && cond.simple names
  | .localDecl (.vars first rest) =>
    first.simple names && simpleDeclarators (first.name :: names) rest
  | .return (some e) => e.simple names
  | .block body => simpleStatements names body
  | .expression e => e.assigns names
  | _ => false

def IfBlock.simple (names : List String) : IfBlock → Bool
  | .braces body => simpleStatements names body
  | .single s => s.simple names && s.declared names == names

def simpleStatements (names : List String) : List Statement → Bool
  | [] => true
  | s :: rest => s.simple names && simpleStatements (s.declared names) rest

end

/-! ## Functions -/

def FunctionBody.runs : FunctionBody → Command Env LVObject
  | .statement body => body.runs 0
  | .expression e => fun env o => o = returned (e.eval env.value)

def FunctionBody.simple (names : List String) : FunctionBody → Bool
  | .statement body => body.simple names
  | .expression e => e.simple names

/-- The names that a body starts with. -/
def parameterNames (params : List String) (varparams : Bool) : List String :=
  (if varparams then ["vargv"] else []) ++ params.reverse ++ ["this"]

end Lavril
