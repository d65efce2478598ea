import Lavril.JsonEncoding

/-!
# The text of a value

The values that JSON is meant for, the text that the encoder makes of them and the
tokens that this text is to be split into.
-/

namespace Lavril.Json

variable {p : Platform}

/-! ## Integers -/

/-- What follows a number does not go on with a digit. -/
def Stops (after : List Char) : Prop := ∀ c ∈ after.head?, c.isDigit = false

theorem stops_nil : Stops [] := by simp [Stops]

theorem stops_cons {c : Char} {after : List Char} (h : c.isDigit = false) : Stops (c :: after) := by
  simpa [Stops] using h

theorem isDigit_of_mem_digits {n : Nat} {c : Char} (mem : c ∈ Nat.toDigits 10 n) :
    c.isDigit = true :=
  Nat.isDigit_of_mem_toDigits (by decide) (by decide) mem

theorem mem_printInteger {i : BitVec 64} {c : Char} (mem : c ∈ printInteger i) :
    c = '-' ∨ c.isDigit = true := by
  unfold printInteger at mem
  split at mem
  · exact Or.inr (isDigit_of_mem_digits mem)
  · rcases List.mem_cons.mp mem with rfl | mem
    · exact Or.inl rfl
    · exact Or.inr (isDigit_of_mem_digits mem)

theorem not_mem_printInteger {i : BitVec 64} {c : Char} (sign : c ≠ '-')
    (digit : c.isDigit = false) : c ∉ printInteger i := by
  intro mem
  rcases mem_printInteger mem with h | h
  · exact sign h
  · simp [digit] at h

theorem takeWhile_digits (n : Nat) {after : List Char} (stops : Stops after) :
    (Nat.toDigits 10 n ++ after).takeWhile (·.isDigit) = Nat.toDigits 10 n := by
  rw [List.takeWhile_append_of_pos fun c mem => isDigit_of_mem_digits mem]
  cases after with
  | nil => simp
  | cons c after => simp [stops c rfl]

theorem digits_value (n : Nat) {after : List Char} (stops : Stops after) :
    Nat.ofDigitChars 10 ((Nat.toDigits 10 n ++ after).takeWhile (·.isDigit)) 0 = n := by
  rw [takeWhile_digits n stops, Nat.ofDigitChars_ten_toDigits]

theorem not_isspace_of_isDigit {c : Char} (digit : c.isDigit = true) : isspace c = false := by
  refine decide_eq_false fun mem => ?_
  simp only [List.mem_cons, List.not_mem_nil, or_false] at mem
  rcases mem with rfl | rfl | rfl | rfl | rfl | rfl <;> exact absurd digit (by decide)

/-- A text that starts with digits has no sign. -/
theorem digits_cons (n : Nat) : ∃ d ds, Nat.toDigits 10 n = d :: ds ∧ d.isDigit = true := by
  obtain ⟨d, ds, eq⟩ := List.exists_cons_of_ne_nil (Nat.toDigits_ne_nil (n := n) (b := 10))
  exact ⟨d, ds, eq, isDigit_of_mem_digits (n := n) (by simp [eq])⟩

/-- An integer that is cut to 64 bits as `atol` does. -/
def clamp (n : Int) : Int := max (-2 ^ 63) (min (2 ^ 63 - 1) n)

theorem ofInt_clamp (i : BitVec 64) : BitVec.ofInt 64 (clamp i.toInt) = i := by
  have low := i.le_toInt
  have high := i.toInt_lt
  have same : clamp i.toInt = i.toInt := by
    rw [clamp]
    omega
  rw [same, BitVec.ofInt_toInt]

def signed (negative : Bool) (n : Nat) : List Char :=
  if negative then '-' :: Nat.toDigits 10 n else Nat.toDigits 10 n

/-- `atol` reads the number that a text starts with. -/
theorem atol_signed (negative : Bool) (n : Nat) {after : List Char} (stops : Stops after) :
    atol (signed negative n ++ after) = BitVec.ofInt 64 (clamp (if negative then -n else n)) := by
  have number := digits_value n stops
  cases negative with
  | false =>
    obtain ⟨d, ds, eq, digit⟩ := digits_cons n
    have skip : (Nat.toDigits 10 n ++ after).dropWhile isspace = Nat.toDigits 10 n ++ after := by
      simp [eq, not_isspace_of_isDigit digit]
    simp only [signed, Bool.false_eq_true, if_false, atol, skip]
    split
    · next minus => simp [eq] at minus; simp [minus.1] at digit
    · next plus => simp [eq] at plus; simp [plus.1] at digit
    · rw [number]
      rfl
  | true =>
    have skip : ('-' :: Nat.toDigits 10 n ++ after).dropWhile isspace =
        '-' :: (Nat.toDigits 10 n ++ after) := by simp [isspace]
    simp only [signed, if_true, atol, skip, number]
    rfl

theorem printInteger_eq (i : BitVec 64) :
    printInteger i = signed (decide (i.toInt < 0)) i.toInt.natAbs := by
  by_cases nonneg : 0 ≤ i.toInt
  · have same : i.toInt.toNat = i.toInt.natAbs := by omega
    rw [printInteger, if_pos nonneg, signed, if_neg (by simpa using nonneg), same]
  · have same : (-i.toInt).toNat = i.toInt.natAbs := by omega
    rw [printInteger, if_neg nonneg, signed, if_pos (by simpa using nonneg), same]

/-- `atol` reads the integer back that starts a text. -/
theorem atol_printInteger (i : BitVec 64) {after : List Char} (stops : Stops after) :
    atol (printInteger i ++ after) = i := by
  have value : (if decide (i.toInt < 0) = true then -(i.toInt.natAbs : Int) else i.toInt.natAbs) =
      i.toInt := by
    split
    · rename_i neg
      have := of_decide_eq_true neg
      omega
    · rename_i nonneg
      have : ¬i.toInt < 0 := fun h => nonneg (decide_eq_true h)
      omega
  rw [printInteger_eq, atol_signed _ _ stops, value, ofInt_clamp]

/-! ## The values -/

def keys (members : List (Value × Value)) : List Value := members.map (·.1)

mutual

/-- Null, booleans, integers, strings, and arrays and tables of these. No string has a
null character, and a table has a string but once as a key. -/
def Value.Plain : Value → Prop
  | .null | .bool _ | .integer _ => True
  | .string s => '\x00' ∉ s
  | .array values => PlainElements values
  | .table members => PlainMembers members ∧ (keys members).Nodup
  | .float _ | .other _ => False

def PlainMembers : List (Value × Value) → Prop
  | [] => True
  | (k, value) :: members =>
    (∃ s, k = .string s ∧ '\x00' ∉ s) ∧ value.Plain ∧ PlainMembers members

def PlainElements : List Value → Prop
  | [] => True
  | value :: values => value.Plain ∧ PlainElements values

end

mutual

/-- The values in a value that have no parts, in the order of the text. -/
def Value.leaves : Value → List Value
  | .array values => elementLeaves values
  | .table members => memberLeaves members
  | value => [value]

def memberLeaves : List (Value × Value) → List Value
  | [] => []
  | (k, value) :: members => k.leaves ++ value.leaves ++ memberLeaves members

def elementLeaves : List Value → List Value
  | [] => []
  | value :: values => value.leaves ++ elementLeaves values

end

mutual

/-- The same types, the same numbers and strings, the same order of an array and the
same bindings of a table. -/
def Same : Value → Value → Prop
  | .array values, w => ∃ values', w = .array values' ∧ SameElements values values'
  | .table members, w =>
    ∃ members', w = .table members' ∧ members'.length = members.length ∧
      SameMembers members members'
  | .null, w => w = .null
  | .bool b, w => w = .bool b
  | .integer i, w => w = .integer i
  | .float bits, w => w = .float bits
  | .string s, w => w = .string s
  | .other a, w => w = .other a

def SameMembers : List (Value × Value) → List (Value × Value) → Prop
  | [], _ => True
  | (k, value) :: members, members' =>
    (∃ m ∈ members', Same k m.1 ∧ Same value m.2) ∧ SameMembers members members'

def SameElements : List Value → List Value → Prop
  | [], values' => values' = []
  | value :: values, values' =>
    ∃ w rest, values' = w :: rest ∧ Same value w ∧ SameElements values rest

end

/-! ## The text -/

def textOf (pieces : List Piece) : List Char :=
  pieces.flatMap fun
    | .reserve _ => []
    | .text s => s

@[simp] theorem textOf_nil : textOf [] = [] := rfl

@[simp] theorem textOf_reserve (sz : Nat) (pieces : List Piece) :
    textOf (.reserve sz :: pieces) = textOf pieces := rfl

@[simp] theorem textOf_text (s : List Char) (pieces : List Piece) :
    textOf (.text s :: pieces) = s ++ textOf pieces := rfl

@[simp] theorem textOf_append (pieces pieces' : List Piece) :
    textOf (pieces ++ pieces') = textOf pieces ++ textOf pieces' := by simp [textOf]

/-- The text of a plain value, with its strings as they are. -/
def Value.text (p : Platform) (value : Value) : List Char := textOf (value.pieces p)

def elementText (p : Platform) (values : List Value) : List Char := textOf (elementPieces p values)

/-- Each piece fits into the memory there is, which is doubled at most once for each
reservation; so does the character that ends the text. -/
def Fits : List Piece → Nat → Nat → Prop
  | [], size, allocated => size < allocated
  | .reserve sz :: pieces, size, allocated =>
    Fits pieces size (if size + sz > allocated then allocated * 2 else allocated)
  | .text s :: pieces, size, allocated =>
    size + s.length ≤ allocated ∧ Fits pieces (size + s.length) allocated

instance Fits.decidable : ∀ pieces size allocated, Decidable (Fits pieces size allocated)
  | [], size, allocated => inferInstanceAs (Decidable (size < allocated))
  | .reserve _ :: pieces, size, _ => Fits.decidable pieces size _
  | .text s :: pieces, size, allocated =>
    have := Fits.decidable pieces (size + s.length) allocated
    inferInstanceAs (Decidable (_ ∧ _))

theorem write_dest (out : JsonBuffer) (pieces : List Piece) :
    (out.write pieces).dest = out.dest ++ textOf pieces := by
  induction pieces generalizing out with
  | nil => simp
  | cons piece pieces ih =>
    cases piece with
    | reserve sz =>
      rw [JsonBuffer.write_cons, ih, textOf_reserve, JsonBuffer.put, JsonBuffer.resize]
      split <;> rfl
    | text s =>
      rw [JsonBuffer.write_cons, ih, textOf_text, ← List.append_assoc]
      rfl

theorem write_overrun (out : JsonBuffer) (pieces : List Piece) :
    (out.write pieces).finish.overrun = false ↔
      out.overrun = false ∧ Fits pieces out.dest.length out.allocated := by
  induction pieces generalizing out with
  | nil =>
    simp only [JsonBuffer.write_nil, JsonBuffer.finish, Fits, Bool.or_eq_false_iff]
    refine and_congr_right fun _ => ⟨fun h => ?_, fun h => decide_eq_false ?_⟩
    · have := of_decide_eq_false h
      omega
    · omega
  | cons piece pieces ih =>
    rw [JsonBuffer.write_cons, ih]
    cases piece with
    | reserve sz =>
      simp only [JsonBuffer.put, JsonBuffer.resize, Fits]
      split <;> rfl
    | text s =>
      simp [JsonBuffer.put, JsonBuffer.add_new_token, Fits, and_assoc]

/-! ## The tokens -/

/-- The characters that may follow a backslash by themselves. -/
def escapes : List Char := ['"', '/', '\\', 'b', 'f', 'r', 'n', 't']

def isHex (c : Char) : Bool := c.isDigit || ('A' ≤ c && c ≤ 'F') || ('a' ≤ c && c ≤ 'f')

/-- What may stand between quotes: no quote, and a backslash only as an escape sequence. -/
def escaped : List Char → Bool
  | [] => true
  | '\\' :: 'u' :: a :: b :: c :: d :: s => isHex a && isHex b && isHex c && isHex d && escaped s
  | '\\' :: c :: s => c ∈ escapes && escaped s
  | c :: s => c ≠ '"' && c ≠ '\\' && escaped s

/-- The strings and keys of a value. -/
def Value.strings (value : Value) : List (List Char) :=
  value.leaves.filterMap fun
    | .string s => some s
    | _ => none

mutual

/-- The tokens of the text of a plain value that starts at an offset. -/
def Value.tokens (p : Platform) : Value → Nat → List JsmnToken
  | .string s, start => [⟨.string, start + 1, start + 1 + s.length, 0⟩]
  | .array values, start =>
    ⟨.array, start, start + ((Value.array values).text p).length, values.length⟩ ::
      elementTokens p values (start + 1)
  | .table members, start =>
    ⟨.object, start, start + ((Value.table members).text p).length, members.length⟩ ::
      memberTokens p members (start + 1)
  | value, start => [⟨.primitive, start, start + (value.text p).length, 0⟩]

/-- A key has its value as its only part. -/
def memberTokens (p : Platform) : List (Value × Value) → Nat → List JsmnToken
  | [], _ => []
  | (k, value) :: members, start =>
    let next := start + (k.text p).length + 1
    (k.tokens p start).map ({ · with size := 1 }) ++ value.tokens p next ++
      memberTokens p members (next + (value.text p).length + 1)

def elementTokens (p : Platform) : List Value → Nat → List JsmnToken
  | [], _ => []
  | value :: values, start =>
    value.tokens p start ++ elementTokens p values (start + (value.text p).length + 1)

end

/-- What the tokenizer is documented to do with the text of a value: it splits it where its
strings are well formed, and no token is a string that is not. -/
structure Platform.Splits (p : Platform) (value : Value) : Prop where
  tokens : (∀ s ∈ value.strings, escaped s) →
    p.jsmn (value.text p) = some (value.tokens p 0)
  strings : ∀ tokens, p.jsmn (value.text p) = some tokens →
    ∀ t ∈ tokens, t.type = .string → escaped (t.slice (value.text p))

end Lavril.Json
