import Lavril.Vm

/-!
# The JSON module

`json_encode` and `json_decode`, which walk over values and tokens with their
intermediate values on the stack of the machine. `room` is the number of slots from
`_top` to the end of the stack: pushes do not look at it, and one that finds none left
is a failure of the model. `malloc` always has memory.
-/

namespace Lavril.Json

/-- A value, with the members of a table in the order in which `lv_next` gives them.
`other` is every type that cannot be converted. -/
inductive Value where
  | null
  | bool (b : Bool)
  | integer (i : BitVec 64)
  | float (bits : BitVec 64)
  | string (s : List Char)
  | array (values : List Value)
  | table (members : List (Value × Value))
  | other (address : Nat)

/-- The types of the tokens that `jsmn_parse` makes. -/
inductive JsmnType where
  | object | array | string | primitive
  deriving DecidableEq

/-- `jsmntok_t`. -/
structure JsmnToken where
  type : JsmnType
  start : Nat
  stop : Nat
  size : Nat
  deriving DecidableEq

/-- What the module is given: the tokenizer, which may refuse a text, the texts of
floats and their numbers, and the characters that the unset pointer `key` leads to. -/
structure Platform where
  jsmn : List Char → Option (List JsmnToken)
  printFloat : BitVec 64 → List Char
  atof : List Char → BitVec 64
  unset : List Char

inductive Failure where
  /-- A push at `_stack.size()`. -/
  | overflow
  /-- The decoder reads behind the last token. -/
  | outside
  | raised (message : String)
  deriving DecidableEq

/-- Pushing `n` values. -/
def push (room n : Nat) : Except Failure Unit :=
  if n ≤ room then .ok () else .error .overflow

/-- The characters of a string that C sees. -/
def cstring (s : List Char) : List Char := s.takeWhile (· ≠ '\x00')

/-- What `lv_getstring` leaves in its third argument. -/
def getstring (o : Value) (s : List Char) : List Char :=
  match o with
  | .string s' => cstring s'
  | _ => s

/-- The text of an integer. -/
def printInteger (i : BitVec 64) : List Char :=
  if 0 ≤ i.toInt then Nat.toDigits 10 i.toInt.toNat
  else '-' :: Nat.toDigits 10 (-i.toInt).toNat

/-! ## Encoding -/

/-- `jsonbuffer`; `size` is the length of `dest`. Whether something was written behind
the memory that is allocated is kept in `overrun`. -/
structure JsonBuffer where
  dest : List Char
  allocated : Nat
  overrun : Bool

namespace JsonBuffer

def resize (out : JsonBuffer) (sz : Nat) : JsonBuffer :=
  if out.dest.length + sz > out.allocated then { out with allocated := out.allocated * 2 }
  else out

def add_new_token (out : JsonBuffer) (token : List Char) : JsonBuffer :=
  { out with
    dest := out.dest ++ token
    overrun := out.overrun || out.allocated < out.dest.length + token.length }

def add_single_token (out : JsonBuffer) (token : Char) : JsonBuffer := out.add_new_token [token]

/-- The character that ends the text. -/
def finish (out : JsonBuffer) : JsonBuffer :=
  { out with overrun := out.overrun || out.allocated < out.dest.length + 1 }

end JsonBuffer

/-- `descent_level` on a string. -/
def descent_string (room : Nat) (s : List Char) (out : JsonBuffer) : Except Failure JsonBuffer := do
  push room 1
  let out := out.resize (cstring s).length
  return ((out.add_single_token '"').add_new_token (cstring s)).add_single_token '"'

/-- `descent_level` on an integer, a float or a boolean with its text. -/
def descent_scalar (room : Nat) (text : List Char) (out : JsonBuffer) :
    Except Failure JsonBuffer := do
  push room 1
  return (out.resize text.length).add_new_token text

mutual

/-- `descent_level`, whose result is never zero. The error for a value that cannot be
converted is not looked at. -/
def descent_level (p : Platform) : Nat → Value → JsonBuffer → Except Failure JsonBuffer
  | room, .string s, out => descent_string room s out
  | room, .float bits, out => descent_scalar room (cstring (p.printFloat bits)) out
  | room, .integer i, out => descent_scalar room (printInteger i) out
  | room, .bool b, out => descent_scalar room (if b then "true" else "false").toList out
  | _, .null, out => .ok ((out.resize 4).add_new_token "null".toList)
  | room, .table members, out => do
    let out := (out.resize 8).add_single_token '{'
    push room 1
    let out ← descent_members p room members p.unset members.length out
    return out.add_single_token '}'
  | room, .array values, out => do
    let out := (out.resize 8).add_single_token '['
    push room 1
    let out ← descent_elements p room values values.length out
    return out.add_single_token ']'
  | _, .other _, out => .ok out

/-- The loop over a table, whose room is that above the table. `key` stays as it was
where the key is no string; the copy of its characters takes the slot of the key. -/
def descent_members (p : Platform) :
    Nat → List (Value × Value) → List Char → Int → JsonBuffer → Except Failure JsonBuffer
  | _, [], _, _, out => .ok out
  | room, (k, value) :: members, key, count, out => do
    push room 3
    let key := getstring k key
    let out ← descent_string (room - 3) key out
    let out := out.add_single_token ':'
    let out ← descent_level p (room - 2) value out
    let out := if count > 1 then out.add_single_token ',' else out
    descent_members p room members key (count - 1) out

/-- The loop over an array. -/
def descent_elements (p : Platform) :
    Nat → List Value → Int → JsonBuffer → Except Failure JsonBuffer
  | _, [], _, out => .ok out
  | room, value :: values, count, out => do
    push room 3
    let out ← descent_level p (room - 3) value out
    let out := if count > 1 then out.add_single_token ',' else out
    descent_elements p room values (count - 1) out

end

/-- `json_encode`; `dest` of the result is what the new string is made from. -/
def json_encode (p : Platform) (room : Nat) (value : Value) : Except Failure JsonBuffer := do
  let out ← descent_level p room value ⟨[], 32, false⟩
  push room 1
  return out.finish

/-! ## Decoding -/

def isspace (c : Char) : Bool := c ∈ [' ', '\t', '\n', '\x0b', '\x0c', '\r']

/-- `atol`, which stays within the 64 bits of its result. -/
def atol (text : List Char) : BitVec 64 :=
  let number (digits : List Char) : Int := Nat.ofDigitChars 10 (digits.takeWhile (·.isDigit)) 0
  let n : Int :=
    match text.dropWhile isspace with
    | '-' :: digits => -number digits
    | '+' :: digits => number digits
    | digits => number digits
  BitVec.ofInt 64 (max (-2 ^ 63) (min (2 ^ 63 - 1) n))

def JsmnToken.slice (t : JsmnToken) (js : List Char) : List Char :=
  (js.drop t.start).take (t.stop - t.start)

/-- The value of a primitive token. A dot anywhere in the text behind it makes a number
a float. -/
def primitive (p : Platform) (js : List Char) (t : JsmnToken) : Value :=
  let lower := (t.slice js).map Char.toLower
  if lower = "false".toList then .bool false
  else if lower = "true".toList then .bool true
  else if lower = "null".toList then .null
  else if '.' ∈ js.drop t.start then .float (p.atof (js.drop t.start))
  else .integer (atol (js.drop t.start))

/-- Raw equality of keys. A table or an array that is decoded is no other one. -/
def Value.same : Value → Value → Bool
  | .null, .null => true
  | .bool a, .bool b => a = b
  | .integer i, .integer j => i = j
  | .float x, .float y => x = y
  | .string s, .string s' => s = s'
  | .other a, .other b => a = b
  | _, _ => false

/-- `lv_rawset`: it takes its two values off the stack also for a null key, which is
refused. -/
def rawset (members : List (Value × Value)) (key value : Value) : List (Value × Value) :=
  match key with
  | .null => members
  | key =>
    if members.any (·.1.same key) then
      members.map fun m => if m.1.same key then (m.1, value) else m
    else members ++ [(key, value)]

section

variable (level : Nat → List JsmnToken → Except Failure (Nat × Value))

/-- The loop over the pairs of an object, given `parse_level`. -/
def parse_members (room : Nat) (tokens : List JsmnToken) :
    Nat → Nat → List (Value × Value) → Except Failure (Nat × List (Value × Value))
  | 0, j, members => .ok (j, members)
  | size + 1, j, members => do
    let (n, key) ← level room (tokens.drop j)
    let (m, value) ← level (room - 1) (tokens.drop (j + n))
    parse_members room tokens size (j + n + m) (rawset members key value)

/-- The loop over the elements of an array. -/
def parse_elements (room : Nat) (tokens : List JsmnToken) :
    Nat → Nat → List Value → Except Failure (Nat × List Value)
  | 0, j, values => .ok (j, values)
  | size + 1, j, values => do
    let (n, value) ← level room (tokens.drop j)
    parse_elements room tokens size (j + n) (values ++ [value])

end

/-- `parse_level` on the tokens from `t` on, with the number of tokens it has read and
the value it leaves on the stack. `count` is not zero in a call from itself, as it is
one more than there are tokens left; the fuel is the number of tokens. -/
def parse_level (p : Platform) (js : List Char) :
    Nat → Nat → List JsmnToken → Except Failure (Nat × Value)
  | fuel + 1, room, t :: tokens =>
    match t.type with
    | .primitive => do
      push room 1
      return (1, primitive p js t)
    | .string => do
      push room 1
      return (1, .string (t.slice js))
    | .object => do
      push room 1
      let (j, members) ← parse_members (parse_level p js fuel) (room - 1) tokens t.size 0 []
      return (j + 1, .table members)
    | .array => do
      push room 1
      let (j, values) ← parse_elements (parse_level p js fuel) (room - 1) tokens t.size 0 []
      return (j + 1, .array values)
  | _, _, _ => .error .outside

/-- `json_decode`. A text without tokens leaves itself on the top of the stack. -/
def json_decode (p : Platform) (room : Nat) (s : List Char) : Except Failure Value :=
  let js := cstring s
  match p.jsmn js with
  | none => .error (.raised "failed to parse as json")
  | some [] => .ok (.string s)
  | some tokens => (parse_level p js tokens.length room tokens).map (·.2)

end Lavril.Json
