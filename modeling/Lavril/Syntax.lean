import Lavril.Opcodes

/-!
# Syntax

The compiler reads its source once, from left to right, and emits code as it
goes. Its input is represented by the derivation its productions follow: one
type for each production that recurses, one constructor for each alternative.
A tree says which tokens were read; a production that looks one token ahead is
given that token as a `Lookahead`.

The levels from `LogicalOrExp` down to `MultExp` differ only in the operators
they take and share one type. Comments, optional separators and where a
statement may end are the lexer's business and are not represented; a
statement carries the line it starts on.
-/

namespace Lavril

/-- The operators `Expression` assigns with. -/
inductive AssignOp where
  | assign | newslot
  | minuseq | pluseq | muleq | diveq | modeq
  deriving DecidableEq, Repr

/-- A binary operator: its opcode and the operand that selects the operation. -/
inductive BinaryOp where
  | bitOr | bitXor | bitAnd
  | eq | ne | cmp3
  | gt | lt | ge | le | in | instanceof
  | ushiftr | shiftl | shiftr
  | add | sub | mul | div | mod
  deriving DecidableEq, Repr

inductive UnaryOp where
  | neg | not | bwnot | typeof | resume | clone
  deriving DecidableEq, Repr

mutual

inductive Expression where
  | plain (e : LogicalOrExp)
  | assign (target : LogicalOrExp) (op : AssignOp) (value : Expression)
  | cond (test : LogicalOrExp) (first second : Expression)

inductive LogicalOrExp where
  | or (first second : LogicalOrExp)
  | and (first second : LogicalOrExp)
  | bin (op : BinaryOp) (left right : LogicalOrExp)
  | prefixed (e : PrefixedExpr)

/-- A factor, what is applied to it, and the `++` or `--` after it as `1` or `-1`. -/
inductive PrefixedExpr where
  | mk (factor : Factor) (suffixes : List Suffix) (incdec : Option Int)

inductive Suffix where
  | field (id : String)
  | index (key : Expression)
  | arrow (id : String)
  | call (args : List Expression)

inductive Factor where
  | stringLiteral (text : String)
  | base
  /-- An identifier, `this` or `constructor`. -/
  | identifier (id : String)
  /-- `::`, always followed by a field. -/
  | doubleColon
  | null
  | integer (value : Int)
  | float (bits : Int)
  | bool (value : Bool)
  | array (elements : List Expression)
  | table (members : List Member)
  | function (f : FunctionDef)
  | lambda (f : FunctionDef)
  | class (c : ClassDef)
  | unary (op : UnaryOp) (e : PrefixedExpr)
  | prefixIncDec (diff : Int) (e : PrefixedExpr)
  | delete (e : PrefixedExpr)
  | paren (e : CommaExpr)

inductive CommaExpr where
  | last (e : Expression)
  | cons (e : Expression) (rest : CommaExpr)

/-- Parameters with their default values, and the line the body ends on. -/
inductive FunctionDef where
  | mk (params : List Param) (varparams : Bool) (body : FunctionBody) (endline : Int)

inductive Param where
  | mk (name : String) (default : Option Expression)

inductive FunctionBody where
  | statement (body : Statement)
  | expression (body : Expression)

inductive ClassDef where
  | mk (baseclass : Option Expression) (members : List Member)

inductive Member where
  | method (isstatic : Bool) (id : String) (f : FunctionDef)
  | computed (isstatic : Bool) (key : CommaExpr) (value : Expression)
  /-- `"key" : value`, or `key = value`. -/
  | named (isstatic : Bool) (key : String) (value : Expression)

inductive Statement where
  | mk (line : Int) (kind : StatementKind)

inductive StatementKind where
  | empty
  | ifThen (cond : CommaExpr) (block : IfBlock)
  | ifElse (cond : CommaExpr) (block : IfBlock) (else_ : IfBlock)
  | while (cond : CommaExpr) (body : Statement)
  | doWhile (body : Statement) (cond : CommaExpr)
  | for (init : ForInit) (cond : Option CommaExpr) (inc : Option CommaExpr) (body : Statement)
  | forEach (idxname : Option String) (valname : String) (container : Expression)
      (body : Statement)
  | switch (e : CommaExpr) (cases : List SwitchCase) (default : Option (List Statement))
  | localDecl (d : LocalDecl)
  | return (e : Option CommaExpr)
  | yield (e : Option CommaExpr)
  | break
  | continue
  /-- `function id :: … :: id (…) …`; the first name, then the others. -/
  | function (id : String) (path : List String) (f : FunctionDef)
  | class (isabstract : Bool) (name : PrefixedExpr) (c : ClassDef)
  | enum (id : String) (entries : List (String × Option LVObject))
  | block (body : List Statement)
  | tryCatch (body : Statement) (exid : String) (handler : Statement)
  | throw (e : CommaExpr)
  | const (id : String) (value : LVObject)
  | expression (e : CommaExpr)

inductive IfBlock where
  | braces (body : List Statement)
  | single (body : Statement)

inductive ForInit where
  | none
  | decl (d : LocalDecl)
  | expression (e : CommaExpr)

inductive SwitchCase where
  | mk (label : Expression) (body : List Statement)

inductive LocalDecl where
  | function (name : String) (f : FunctionDef)
  | vars (first : Declarator) (rest : List Declarator)

inductive Declarator where
  | mk (name : String) (value : Option Expression)

end

def LogicalOrExp.name (id : String) : LogicalOrExp := .prefixed (.mk (.identifier id) [] none)
def Expression.name (id : String) : Expression := .plain (.name id)
def Expression.integer (value : Int) : Expression :=
  .plain (.prefixed (.mk (.integer value) [] none))

/-- `id = value ;` on the first line. -/
def Statement.set (id : String) (value : Expression) : Statement :=
  .mk 1 (.expression (.last (.assign (.name id) .assign value)))

/-- A function with a block as its body, on one line. -/
def FunctionDef.simple (params : List String) (body : List StatementKind) : FunctionDef :=
  .mk (params.map fun id => .mk id none) false
    (.statement (.mk 1 (.block (body.map (.mk 1 ·))))) 1

/-- The token after the part of the source read so far, as far as `NeedGet`
tells tokens apart. `incdec` is a `++` or `--` that does not start a new line. -/
inductive Lookahead where
  | assign | paren | incdec | dot | bracket | other
  deriving DecidableEq, Repr

def Suffix.token : Suffix → Lookahead
  | .field _ => .dot
  | .index _ => .bracket
  | .arrow _ => .other
  | .call _ => .paren

/-- The token before the rest of a prefixed expression that `next` follows. -/
def lookahead (suffixes : List Suffix) (incdec : Option Int) (next : Lookahead) : Lookahead :=
  match suffixes, incdec with
  | suffix :: _, _ => suffix.token
  | [], some _ => .incdec
  | [], none => next

/-- The name after a dot, when the prefixed expression goes on with one. -/
def fieldName : List Suffix → Option String
  | .field id :: _ => some id
  | _ => none

end Lavril
