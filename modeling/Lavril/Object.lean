import Mathlib.Data.BitVec

/-!
# Values of the language

`LVObject` is the tagged union every register, table slot and literal holds.
Strings are interned, so the pointer in the union is represented by the text
it points to: comparing the two is comparing the pointers. A text is a `String`
with one character for each byte.
-/

namespace Lavril

inductive LVObjectType where
  | OT_NULL | OT_INTEGER | OT_FLOAT | OT_BOOL | OT_STRING | OT_TABLE | OT_ARRAY
  | OT_USERDATA | OT_CLOSURE | OT_NATIVECLOSURE | OT_GENERATOR | OT_USERPOINTER
  | OT_THREAD | OT_FUNCPROTO | OT_CLASS | OT_INSTANCE | OT_WEAKREF | OT_OUTER
  deriving DecidableEq, Repr

/-- The payload: the 64 bits of an integer, float, boolean or address, or an
interned string. -/
inductive LVObjectValue where
  | raw (bits : BitVec 64)
  | pString (text : String)
  deriving DecidableEq, Repr

structure LVObject where
  type : LVObjectType
  unVal : LVObjectValue
  deriving DecidableEq, Repr

namespace LVObject

def null : LVObject := ⟨.OT_NULL, .raw 0⟩
def integer (i : BitVec 64) : LVObject := ⟨.OT_INTEGER, .raw i⟩
def bool (b : Bool) : LVObject := ⟨.OT_BOOL, .raw (if b then 1 else 0)⟩
def float (bits : BitVec 64) : LVObject := ⟨.OT_FLOAT, .raw bits⟩
def string (text : String) : LVObject := ⟨.OT_STRING, .pString text⟩

/-- A reference to the object of type `type` at an address. -/
def ref (type : LVObjectType) (address : BitVec 64) : LVObject := ⟨type, .raw address⟩

instance : Inhabited LVObject := ⟨null⟩

end LVObject

end Lavril
