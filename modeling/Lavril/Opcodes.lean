import Lavril.Object

/-!
# Instructions

One operand of an instruction is a 32-bit number, the other three are bytes.
The bytes are cut to eight bits when an instruction is built; the 32-bit
operand (a literal's index, a jump offset, a small integer) is left an `Int`,
for code of fewer than `2 ^ 31` instructions.
-/

namespace Lavril

inductive Opcode where
  | OP_LINE | OP_LOAD | OP_LOADINT | OP_LOADFLOAT | OP_DLOAD | OP_TAILCALL | OP_CALL
  | OP_PREPCALL | OP_PREPCALLK | OP_GETK | OP_MOVE | OP_NEWSLOT | OP_DELETE | OP_SET | OP_GET
  | OP_EQ | OP_NE | OP_ADD | OP_SUB | OP_MUL | OP_DIV | OP_MOD | OP_BITW | OP_RETURN
  | OP_LOADNULLS | OP_LOADROOT | OP_LOADBOOL | OP_DMOVE | OP_JMP | OP_JCMP | OP_JZ
  | OP_SETOUTER | OP_GETOUTER | OP_NEWOBJ | OP_APPENDARRAY | OP_COMPARITH | OP_INC | OP_INCL
  | OP_PINC | OP_PINCL | OP_CMP | OP_EXISTS | OP_INSTANCEOF | OP_AND | OP_OR | OP_NEG | OP_NOT
  | OP_BWNOT | OP_CLOSURE | OP_YIELD | OP_RESUME | OP_FOREACH | OP_POSTFOREACH | OP_CLONE
  | OP_TYPEOF | OP_PUSHTRAP | OP_POPTRAP | OP_THROW | OP_NEWSLOTA | OP_GETBASE | OP_CLOSE
  deriving DecidableEq, Repr

/-! `BitWiseOP`, `CmpOP`, `NewObjectType`, `AppendArrayType` -/

def BW_AND : Int := 0
def BW_OR : Int := 2
def BW_XOR : Int := 3
def BW_SHIFTL : Int := 4
def BW_SHIFTR : Int := 5
def BW_USHIFTR : Int := 6

def CMP_G : Int := 0
def CMP_GE : Int := 2
def CMP_L : Int := 3
def CMP_LE : Int := 4
def CMP_3W : Int := 5

def NOT_TABLE : Int := 0
def NOT_ARRAY : Int := 1
def NOT_CLASS : Int := 2

def AAT_STACK : Int := 0
def AAT_LITERAL : Int := 1
def AAT_INT : Int := 2
def AAT_FLOAT : Int := 3
def AAT_BOOL : Int := 4

def MAX_FUNC_STACKSIZE : Nat := 0xFF
def MAX_LITERALS : Nat := 0x7FFFFFFF
def NEW_SLOT_STATIC_FLAG : Int := 0x02

/-- The cast to `unsigned char`. -/
def uchar (a : Int) : Nat := (a % 256).toNat

theorem uchar_of_lt {n : Nat} (h : n < 256) : uchar n = n := by
  unfold uchar
  omega

theorem uchar_lt (a : Int) : uchar a < 256 := by
  unfold uchar
  omega

structure LVInstruction where
  op : Opcode
  arg0 : Nat
  arg1 : Int
  arg2 : Nat
  arg3 : Nat
  deriving DecidableEq, Repr

/-- The constructor of `LVInstruction`. -/
def instruction (op : Opcode) (a0 : Int := 0) (a1 : Int := 0) (a2 : Int := 0) (a3 : Int := 0) :
    LVInstruction :=
  ⟨op, uchar a0, a1, uchar a2, uchar a3⟩

end Lavril
