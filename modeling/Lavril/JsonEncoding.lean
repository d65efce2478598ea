import Lavril.Json

/-!
# The text that is encoded

What `descent_level` writes does not depend on the stack: it is a list of pieces, each
a reservation or some characters. The stack decides only whether the walk ends, and it
ends where the slots it takes at its deepest point are there.
-/

namespace Lavril.Json

variable {p : Platform} {room : Nat} {out : JsonBuffer}

/-- What is asked of the buffer, in order. -/
inductive Piece where
  | reserve (sz : Nat)
  | text (s : List Char)
  deriving DecidableEq

def JsonBuffer.put (out : JsonBuffer) : Piece → JsonBuffer
  | .reserve sz => out.resize sz
  | .text s => out.add_new_token s

def JsonBuffer.write (out : JsonBuffer) (pieces : List Piece) : JsonBuffer :=
  pieces.foldl put out

namespace JsonBuffer

@[simp] theorem write_nil : out.write [] = out := rfl

@[simp] theorem write_cons (piece : Piece) (pieces : List Piece) :
    out.write (piece :: pieces) = (out.put piece).write pieces := rfl

@[simp] theorem write_append (pieces pieces' : List Piece) :
    out.write (pieces ++ pieces') = (out.write pieces).write pieces' :=
  List.foldl_append

end JsonBuffer

/-! ## The pieces of a value -/

def quoted (s : List Char) : List Piece :=
  [.reserve (cstring s).length, .text ['"'], .text (cstring s), .text ['"']]

def plain (text : List Char) : List Piece := [.reserve text.length, .text text]

def separator {α : Type} (rest : List α) : List Piece := if rest = [] then [] else [.text [',']]

mutual

def Value.pieces (p : Platform) : Value → List Piece
  | .string s => quoted s
  | .float bits => plain (cstring (p.printFloat bits))
  | .integer i => plain (printInteger i)
  | .bool b => plain (if b then "true" else "false").toList
  | .null => [.reserve 4, .text "null".toList]
  | .table members =>
    .reserve 8 :: .text ['{'] :: (memberPieces p members p.unset ++ [.text ['}']])
  | .array values => .reserve 8 :: .text ['['] :: (elementPieces p values ++ [.text [']']])
  | .other _ => []

def memberPieces (p : Platform) : List (Value × Value) → List Char → List Piece
  | [], _ => []
  | (k, value) :: members, key =>
    let key := getstring k key
    quoted key ++ .text [':'] :: (value.pieces p ++ separator members ++ memberPieces p members key)

def elementPieces (p : Platform) : List Value → List Piece
  | [] => []
  | value :: values => value.pieces p ++ separator values ++ elementPieces p values

end

/-! ## The slots of a value -/

mutual

/-- The slots that `descent_level` needs above the value. -/
def Value.slots : Value → Nat
  | .null | .other _ => 0
  | .bool _ | .integer _ | .float _ | .string _ => 1
  | .array values => max 1 (elementSlots values)
  | .table members => max 1 (memberSlots members)

/-- The iterator, the key and the value take three slots, the text of the key one more. -/
def memberSlots : List (Value × Value) → Nat
  | [] => 0
  | (_, value) :: members => max (max 4 (value.slots + 2)) (memberSlots members)

def elementSlots : List Value → Nat
  | [] => 0
  | value :: values => max (value.slots + 3) (elementSlots values)

end

/-- A computation that ends with a result where there is enough room, and otherwise at a
push. -/
def Needs {α : Type} (room slots : Nat) (x : Except Failure α) (result : α) : Prop :=
  x = if slots ≤ room then .ok result else .error .overflow

namespace Needs

variable {α β : Type} {slots slots' : Nat} {x : Except Failure α} {f : α → Except Failure β}
  {a : α} {b : β}

theorem bind (first : Needs room slots x a) (then_ : slots ≤ room → Needs room slots' (f a) b) :
    Needs room (max slots slots') (x >>= f) b := by
  unfold Needs at *
  by_cases fits : slots ≤ room
  · rw [first, if_pos fits]
    have both : max slots slots' ≤ room ↔ slots' ≤ room := by omega
    simp only [both]
    exact then_ fits
  · have not : ¬ max slots slots' ≤ room := by omega
    rw [first, if_neg fits, if_neg not]
    rfl

theorem ok : Needs room 0 (Except.ok a) a := by simp [Needs]

theorem push (n : Nat) : Needs room n (Json.push room n) () := rfl

theorem pushed : Needs room 1 (Json.push room 1 >>= fun _ => Except.ok a) a := by
  have both : Needs room (max 1 0) (Json.push room 1 >>= fun _ => Except.ok a) a :=
    (Needs.push 1).bind fun _ => ok
  exact both

/-- What runs on top of `n` slots that are there. -/
theorem above {n : Nat} (fits : n ≤ room) (inner : Needs (room - n) slots x a) :
    Needs room (slots + n) x a := by
  unfold Needs at *
  have shift : slots ≤ room - n ↔ slots + n ≤ room := by omega
  simpa only [shift] using inner

theorem map (f : α → β) (need : Needs room slots x a) : Needs room slots (f <$> x) (f a) := by
  unfold Needs at *
  rw [need]
  split <;> rfl

theorem overflow_iff (need : Needs room slots x a) : x = .error .overflow ↔ room < slots := by
  unfold Needs at need
  rw [need]
  split <;> simp <;> omega

theorem ok_iff (need : Needs room slots x a) {a' : α} :
    x = .ok a' ↔ slots ≤ room ∧ a = a' := by
  unfold Needs at need
  rw [need]
  split <;> simp [*]

end Needs

/-! ## The walk -/

theorem descent_string_needs (s : List Char) :
    Needs room 1 (descent_string room s out) (out.write (quoted s)) :=
  Needs.pushed

theorem descent_scalar_needs (text : List Char) :
    Needs room 1 (descent_scalar room text out) (out.write (plain text)) :=
  Needs.pushed

theorem write_separator {α : Type} (rest : List α) :
    (if 0 < rest.length then out.add_new_token [','] else out) = out.write (separator rest) := by
  cases rest <;> rfl

mutual

theorem descent_level_needs (p : Platform) :
    ∀ (value : Value) (room : Nat) (out : JsonBuffer),
      Needs room value.slots (descent_level p room value out) (out.write (value.pieces p))
  | .null, _, _ => Needs.ok
  | .other _, _, _ => Needs.ok
  | .bool _, _, _ => descent_scalar_needs _
  | .integer _, _, _ => descent_scalar_needs _
  | .float _, _, _ => descent_scalar_needs _
  | .string s, _, _ => descent_string_needs s
  | .array values, room, out => by
    have loop := descent_elements_needs p values room ((out.resize 8).add_single_token '[')
    rw [descent_level, Value.slots, Value.pieces]
    refine (Needs.push 1).bind fun _ => ?_
    simpa [JsonBuffer.put, JsonBuffer.add_single_token] using
      loop.map (·.add_single_token ']')
  | .table members, room, out => by
    have loop := descent_members_needs p members p.unset room
      ((out.resize 8).add_single_token '{')
    rw [descent_level, Value.slots, Value.pieces]
    refine (Needs.push 1).bind fun _ => ?_
    simpa [JsonBuffer.put, JsonBuffer.add_single_token] using
      loop.map (·.add_single_token '}')

theorem descent_members_needs (p : Platform) :
    ∀ (members : List (Value × Value)) (key : List Char) (room : Nat) (out : JsonBuffer),
      Needs room (memberSlots members)
        (descent_members p room members key members.length out)
        (out.write (memberPieces p members key))
  | [], _, _, _ => Needs.ok
  | (k, value) :: members, key, room, out => by
    have order : max 3 (max (1 + 3) (max (value.slots + 2) (memberSlots members))) =
        memberSlots ((k, value) :: members) := by rw [memberSlots]; omega
    rw [descent_members, memberPieces, ← order]
    refine (Needs.push 3).bind fun fits => ?_
    refine ((descent_string_needs _).above fits).bind fun _ => ?_
    refine ((descent_level_needs p value _ _).above (Nat.le_of_succ_le fits)).bind fun _ => ?_
    have loop := fun key out => descent_members_needs p members key room out
    simp [JsonBuffer.put, JsonBuffer.add_single_token, write_separator, loop]

theorem descent_elements_needs (p : Platform) :
    ∀ (values : List Value) (room : Nat) (out : JsonBuffer),
      Needs room (elementSlots values)
        (descent_elements p room values values.length out) (out.write (elementPieces p values))
  | [], _, _ => Needs.ok
  | value :: values, room, out => by
    have order : max 3 (max (value.slots + 3) (elementSlots values)) =
        elementSlots (value :: values) := by rw [elementSlots]; omega
    rw [descent_elements, elementPieces, ← order]
    refine (Needs.push 3).bind fun fits => ?_
    refine ((descent_level_needs p value _ _).above fits).bind fun _ => ?_
    have loop := fun out => descent_elements_needs p values room out
    simp [JsonBuffer.add_single_token, write_separator, loop]

end

/-- The buffer that `json_encode` ends with. -/
def Value.encoded (p : Platform) (value : Value) : JsonBuffer :=
  (JsonBuffer.write ⟨[], 32, false⟩ (value.pieces p)).finish

theorem json_encode_needs {value : Value} :
    Needs room (max value.slots 1) (json_encode p room value) (value.encoded p) :=
  (descent_level_needs p value room _).bind fun _ =>
    (Needs.push 1).map fun _ => JsonBuffer.finish _

end Lavril.Json
