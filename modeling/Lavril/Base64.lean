import Lavril.Cells
import Lavril.Lexer
import Lavril.Strings
import Lavril.Succeeds
import Mathlib.Logic.Function.Basic

/-!
# Base64

The counters `i` and `j` of both functions are `int`s, while lengths are `size_t`s. A
character is a `char` and is used as an index of the decoding table with its sign; the table
is set for the characters of the alphabet only. A run ends with a fault where it reads
outside of the input or of the table or a cell that is not set, stores outside of its buffer
or goes over the largest `int`.
-/

namespace Lavril.Base64

inductive Fault where
  | input (i : Int)
  | table (i : Int)
  | output
  | overflow
  deriving DecidableEq

/-- A buffer from `malloc` and `*output_length`. -/
structure Block where
  cells : Cells UInt8
  output_length : Nat
  deriving DecidableEq

def encoding_table : List LVChar :=
  ['A', 'B', 'C', 'D', 'E', 'F', 'G', 'H', 'I', 'J', 'K', 'L', 'M', 'N', 'O', 'P',
    'Q', 'R', 'S', 'T', 'U', 'V', 'W', 'X', 'Y', 'Z', 'a', 'b', 'c', 'd', 'e', 'f',
    'g', 'h', 'i', 'j', 'k', 'l', 'm', 'n', 'o', 'p', 'q', 'r', 's', 't', 'u', 'v',
    'w', 'x', 'y', 'z', '0', '1', '2', '3', '4', '5', '6', '7', '8', '9', '+', '/'].map _LC

def mod_table : List Nat := [0, 2, 1]

/-- As many increments of an `int`. -/
def advance (i n : Nat) : Except Fault Nat :=
  if i + n ≤ INT_MAX then .ok (i + n) else .error .overflow

def stored : Option (Cells UInt8) → Except Fault (Cells UInt8)
  | some cells => .ok cells
  | none => .error .output

section encode

/-- The characters for three octets. -/
def quad (octet_a octet_b octet_c : UInt8) : List LVChar :=
  let triple := octet_a.toNat <<< 0x10 + octet_b.toNat <<< 0x08 + octet_c.toNat
  [encoding_table.getD (triple >>> (3 * 6) &&& 0x3F) 0,
    encoding_table.getD (triple >>> (2 * 6) &&& 0x3F) 0,
    encoding_table.getD (triple >>> (1 * 6) &&& 0x3F) 0,
    encoding_table.getD (triple >>> (0 * 6) &&& 0x3F) 0]

/-- A turn of the loop, with `taken` octets from the input and 0 for the others. -/
def encodeTurn (a b c : UInt8) (taken i j : Nat) (out : Cells UInt8) :
    Except Fault (Nat × Nat × Cells UInt8) := do
  let i ← advance i taken
  let out ← stored (out.storeAll j (quad a b c))
  pure (i, ← advance j 4, out)

/-- `data` from the index `i` on. -/
def encodeLoop : List UInt8 → Nat → Nat → Cells UInt8 → Except Fault (Cells UInt8)
  | [], _, _, out => .ok out
  | [a], i, j, out => do
    let (_, _, out) ← encodeTurn a 0 0 1 i j out
    pure out
  | [a, b], i, j, out => do
    let (_, _, out) ← encodeTurn a b 0 2 i j out
    pure out
  | a :: b :: c :: rest, i, j, out => do
    let (i, j, out) ← encodeTurn a b c 3 i j out
    encodeLoop rest i j out

/-- The last characters are overwritten, the last one first. -/
def pad (output_length : Nat) (out : Cells UInt8) : Nat → Except Fault (Cells UInt8)
  | 0 => .ok out
  | i + 1 => do
    stored ((← pad output_length out i).store (output_length - 1 - i) (_LC '='))

def base64_encode (data : List UInt8) : Except Fault Block := do
  let output_length := 4 * ((data.length + 2) / 3)
  let out ← encodeLoop data 0 0 (Cells.alloc UInt8 output_length)
  pure ⟨← pad output_length out (mod_table.getD (data.length % 3) 0), output_length⟩

end encode

section decode

/-- `decoding_table[(unsigned char) encoding_table[i]] = i`. -/
def setSextet (table : Nat → Option Nat) (e : LVChar × Nat) : Nat → Option Nat :=
  Function.update table e.1.toNat (some e.2)

/-- `none` for the cells of the table that `malloc` has not set. -/
def build_decoding_table : Nat → Option Nat :=
  encoding_table.zipIdx.foldl setSextet fun _ => none

def decoding_table (i : Int) : Except Fault Nat :=
  match if 0 ≤ i ∧ i < 256 then build_decoding_table i.toNat else none with
  | some sextet => .ok sextet
  | none => .error (.table i)

/-- `data[i]`. -/
def characterAt (data : List LVChar) (i : Int) : Except Fault LVChar :=
  match if 0 ≤ i then data[i.toNat]? else none with
  | some c => .ok c
  | none => .error (.input i)

/-- The value of a character and `i` behind it; `0 & i++` is 0. -/
def sextet (c : LVChar) (i : Nat) : Except Fault (Nat × Nat) :=
  if c = _LC '=' then do pure (0, ← advance i 1)
  else do
    let i ← advance i 1
    pure (← decoding_table (signed c), i)

/-- `triple`, and `i` behind the four characters. -/
def sextets (a b c d : LVChar) (i : Nat) : Except Fault (Nat × Nat) := do
  let (sextet_a, i) ← sextet a i
  let (sextet_b, i) ← sextet b i
  let (sextet_c, i) ← sextet c i
  let (sextet_d, i) ← sextet d i
  pure (sextet_a <<< (3 * 6) + sextet_b <<< (2 * 6) + sextet_c <<< (1 * 6) +
    sextet_d <<< (0 * 6), i)

/-- `if (j < *output_length) decoded_data[j++] = octet`. -/
def put (output_length octet j : Nat) (out : Cells UInt8) :
    Except Fault (Nat × Cells UInt8) :=
  if j < output_length then do
    let out ← stored (out.store j (UInt8.ofNat octet))
    pure (← advance j 1, out)
  else .ok (j, out)

def putOctets (output_length triple j : Nat) (out : Cells UInt8) :
    Except Fault (Nat × Cells UInt8) := do
  let (j, out) ← put output_length (triple >>> (2 * 8) &&& 0xFF) j out
  let (j, out) ← put output_length (triple >>> (1 * 8) &&& 0xFF) j out
  put output_length (triple >>> (0 * 8) &&& 0xFF) j out

/-- `data` from the index `i` on, of which four characters are read at a time. -/
def decodeLoop (output_length : Nat) :
    List LVChar → Nat → Nat → Cells UInt8 → Except Fault (Cells UInt8)
  | [], _, _, out => .ok out
  | a :: b :: c :: d :: rest, i, j, out => do
    let (triple, i) ← sextets a b c d i
    let (j, out) ← putOctets output_length triple j out
    decodeLoop output_length rest i j out
  | data, i, _, _ => .error (.input (i + data.length))

/-- `if (c == '=') (*output_length)--`. -/
def shorten (c : LVChar) (output_length : Nat) : Nat :=
  if c = _LC '=' then output_length - 1 else output_length

/-- From `malloc` on. -/
def decodeInto (data : List LVChar) (output_length : Nat) : Except Fault (Option Block) := do
  let out ← decodeLoop output_length data 0 0 (Cells.alloc UInt8 output_length)
  pure (some ⟨out, output_length⟩)

/-- The result is `NULL` for a length that is not a multiple of four. -/
def base64_decode (data : List LVChar) : Except Fault (Option Block) :=
  if data.length % 4 ≠ 0 then .ok none
  else do
    let last ← characterAt data (data.length - 1)
    let beforeLast ← characterAt data (data.length - 2)
    decodeInto data (shorten beforeLast (shorten last (data.length / 4 * 3)))

end decode

section table

variable {c : LVChar}

theorem nodup_encoding_table : encoding_table.Nodup := by decide +kernel

theorem foldl_setSextet (l : List LVChar) :
    ∀ (k : Nat) (table : Nat → Option Nat), l.Nodup →
      (l.zipIdx k).foldl setSextet table c.toNat =
        if c ∈ l then some (k + l.idxOf c) else table c.toNat := by
  induction l with
  | nil => simp
  | cons x l ih =>
    intro k table distinct
    rw [List.nodup_cons] at distinct
    rw [List.zipIdx_cons, List.foldl_cons, ih _ _ distinct.2]
    by_cases same : c = x
    · subst same
      simp [distinct.1, setSextet]
    · have other : c.toNat ≠ x.toNat := fun eq => same (UInt8.toNat_inj.mp eq)
      have behind : (x :: l).idxOf c = l.idxOf c + 1 := List.idxOf_cons_ne _ (Ne.symm same)
      simp only [List.mem_cons, same, false_or, setSextet, Function.update_of_ne other, behind]
      split
      · rw [Nat.add_assoc, Nat.add_comm 1]
      · rfl

theorem build_decoding_table_eq (c : LVChar) :
    build_decoding_table c.toNat =
      if c ∈ encoding_table then some (encoding_table.idxOf c) else none := by
  rw [build_decoding_table, foldl_setSextet _ _ _ nodup_encoding_table, Nat.zero_add]

theorem nonneg_of_mem (mem : c ∈ encoding_table) : c.toNat < 128 := by
  have all : encoding_table.all (fun c => c.toNat < 128) = true := by decide
  exact of_decide_eq_true (List.all_eq_true.mp all c mem)

theorem decoding_table_spec (c : LVChar) :
    Succeeds (decoding_table (signed c)) (c ∈ encoding_table)
      (fun sextet => sextet = encoding_table.idxOf c) := by
  rw [decoding_table]
  by_cases mem : c ∈ encoding_table
  · have small := nonneg_of_mem mem
    have within : 0 ≤ signed c ∧ signed c < 256 := by
      rw [signed, if_pos small]
      omega
    have same : (signed c).toNat = c.toNat := by
      rw [signed, if_pos small]
      rfl
    rw [if_pos within, same, build_decoding_table_eq, if_pos mem]
    exact .of_ok mem rfl
  · split
    · next found =>
      split at found
      · next within =>
        have same : (signed c).toNat = c.toNat := by
          rw [signed] at within ⊢
          have byte : c.toNat < 256 := c.toNat_lt
          by_cases small : c.toNat < 128
          · rw [if_pos small]
            rfl
          · rw [if_neg small] at within
            omega
        rw [same, build_decoding_table_eq, if_neg mem] at found
        cases found
      · cases found
    · exact .of_error mem

end table

section decoding

variable {c : LVChar} {n : Nat} {xs data : List UInt8}

/-- A padding character, or one of the alphabet. -/
def Known (c : LVChar) : Prop := c = _LC '=' ∨ c ∈ encoding_table

def value (c : LVChar) : Nat := if c = _LC '=' then 0 else encoding_table.idxOf c

/-- The number that four characters make. -/
def tripleOf (a b c d : LVChar) : Nat :=
  value a <<< (3 * 6) + value b <<< (2 * 6) + value c <<< (1 * 6) + value d <<< (0 * 6)

/-- The octets of whole groups of four characters. -/
def octets : List LVChar → List UInt8
  | a :: b :: c :: d :: rest =>
    UInt8.ofNat (tripleOf a b c d >>> (2 * 8) &&& 0xFF) ::
      UInt8.ofNat (tripleOf a b c d >>> (1 * 8) &&& 0xFF) ::
        UInt8.ofNat (tripleOf a b c d >>> (0 * 8) &&& 0xFF) :: octets rest
  | _ => []

theorem advance_spec (i n : Nat) :
    Succeeds (advance i n) (i + n ≤ INT_MAX) (fun k => k = i + n) := by
  rw [advance]
  split
  · next fits => exact .of_ok fits rfl
  · next large => exact .of_error large

theorem sextet_spec (c : LVChar) (i : Nat) :
    Succeeds (sextet c i) (Known c ∧ i + 1 ≤ INT_MAX) (fun r => r = (value c, i + 1)) := by
  rw [sextet]
  split
  · next padding =>
    refine Succeeds.mono ((advance_spec i 1).bind_ok fun k _ eq => ?_) ?_ fun r _ eq => eq
    · subst eq
      exact .of_ok trivial (by rw [value, if_pos padding])
    · exact and_iff_right (Or.inl padding)
  · next other =>
    refine Succeeds.congr ((advance_spec i 1).bind fun k _ eq =>
      (decoding_table_spec c).bind_ok fun sextet mem same => ?_) ?_
    · subst eq same
      exact .of_ok trivial (by rw [value, if_neg other])
    · rw [Known, or_iff_right other, and_comm]

theorem take_take_append (xs ys : List UInt8) :
    (xs.take n ++ ys).take n = (xs ++ ys).take n := by
  rcases Nat.le_total xs.length n with short | long
  · rw [List.take_of_length_le short]
  · rw [List.take_append_of_le_length long, List.take_append_of_le_length]
    · rw [List.take_take, Nat.min_self]
    · rw [List.length_take, Nat.min_eq_left long]

/-- What is stored of `xs` when there are `n` cells. -/
def Kept (n : Nat) (xs : List UInt8) (r : Nat × Cells UInt8) : Prop :=
  r = ((xs.take n).length, Cells.filled n (xs.take n))

theorem put_spec (octet : Nat) (within : xs.length ≤ n) (int : xs.length + 1 ≤ INT_MAX) :
    Succeeds (put n octet xs.length (Cells.filled n xs)) True
      (Kept n (xs ++ [UInt8.ofNat octet])) := by
  rw [put]
  split
  · next room =>
    have all : (xs ++ [UInt8.ofNat octet]).take n = xs ++ [UInt8.ofNat octet] :=
      List.take_of_length_le (by rw [List.length_append]; exact room)
    rw [Cells.store_filled room]
    refine Succeeds.always ((advance_spec xs.length 1).bind_ok fun k _ eq => ?_) int
    subst eq
    refine .of_ok trivial ?_
    rw [Kept, all, List.length_append]
    rfl
  · next full =>
    have same : xs.length = n := by omega
    refine .of_ok trivial ?_
    rw [Kept, List.take_append_of_le_length (Nat.le_of_eq same.symm),
      List.take_of_length_le within]

theorem Kept.bounds {r : Nat × Cells UInt8} (kept : Kept n xs r) :
    ∃ ys, r = (ys.length, Cells.filled n ys) ∧ ys = xs.take n ∧ ys.length ≤ n ∧
      ys.length ≤ xs.length := by
  refine ⟨xs.take n, kept, rfl, ?_, ?_⟩
  all_goals
    rw [List.length_take]
    omega

theorem sextets_spec (a b c d : LVChar) (i : Nat) :
    Succeeds (sextets a b c d i)
      ((Known a ∧ Known b ∧ Known c ∧ Known d) ∧ i + 4 ≤ INT_MAX)
      (fun r => r = (tripleOf a b c d, i + 4)) := by
  refine Succeeds.congr (P :=
    (Known a ∧ i + 1 ≤ INT_MAX) ∧ (Known b ∧ i + 1 + 1 ≤ INT_MAX) ∧
    (Known c ∧ i + 1 + 1 + 1 ≤ INT_MAX) ∧ (Known d ∧ i + 1 + 1 + 1 + 1 ≤ INT_MAX)) ?_ ?_
  · refine (sextet_spec a i).bind fun _ _ first => ?_
    subst first
    refine (sextet_spec b (i + 1)).bind fun _ _ second => ?_
    subst second
    refine (sextet_spec c (i + 1 + 1)).bind fun _ _ third => ?_
    subst third
    refine (sextet_spec d (i + 1 + 1 + 1)).bind_ok fun _ _ fourth => ?_
    subst fourth
    exact .of_ok trivial rfl
  · constructor
    · rintro ⟨⟨one, two, three, four⟩, int⟩
      exact ⟨⟨one, by omega⟩, ⟨two, by omega⟩, ⟨three, by omega⟩, ⟨four, int⟩⟩
    · rintro ⟨⟨one, _⟩, ⟨two, _⟩, ⟨three, _⟩, ⟨four, int⟩⟩
      exact ⟨⟨one, two, three, four⟩, int⟩

/-- The octets of a number, the highest first. -/
def octetsOf (triple : Nat) : List UInt8 :=
  [UInt8.ofNat (triple >>> (2 * 8) &&& 0xFF), UInt8.ofNat (triple >>> (1 * 8) &&& 0xFF),
    UInt8.ofNat (triple >>> (0 * 8) &&& 0xFF)]

theorem putOctets_spec (triple : Nat) (within : xs.length ≤ n) (int : xs.length + 3 ≤ INT_MAX) :
    Succeeds (putOctets n triple xs.length (Cells.filled n xs)) True
      (Kept n (xs ++ octetsOf triple)) := by
  refine (put_spec _ within (by omega)).ok_bind fun r kept => ?_
  obtain ⟨ys, rfl, eq, within', short⟩ := kept.bounds
  rw [List.length_append, List.length_singleton] at short
  refine (put_spec _ within' (by omega)).ok_bind fun r kept => ?_
  obtain ⟨zs, rfl, eq', within'', short'⟩ := kept.bounds
  rw [List.length_append, List.length_singleton] at short'
  refine (put_spec _ within'' (by omega)).mono Iff.rfl fun r _ kept => ?_
  rw [Kept] at kept ⊢
  rw [kept, eq', take_take_append, eq, List.append_assoc, take_take_append, List.append_assoc]
  rfl

/-- The loop comes through characters that are known while `i` is in its range. It stores what
there is room for. -/
theorem decodeLoop_spec (data : List LVChar) :
    ∀ (i : Nat) (xs : List UInt8), data.length % 4 = 0 → xs.length ≤ n → xs.length ≤ i →
      i ≤ INT_MAX →
      Succeeds (decodeLoop n data i xs.length (Cells.filled n xs))
        ((∀ c ∈ data, Known c) ∧ i + data.length ≤ INT_MAX)
        (fun out => out = Cells.filled n ((xs ++ octets data).take n)) := by
  induction data using octets.induct with
  | case1 a b c d rest ih =>
    intro i xs groups within behind int
    simp only [List.length_cons] at groups
    refine Succeeds.congr (P :=
      ((Known a ∧ Known b ∧ Known c ∧ Known d) ∧ i + 4 ≤ INT_MAX) ∧
      (∀ x ∈ rest, Known x) ∧ i + 4 + rest.length ≤ INT_MAX) ?_ ?_
    · rw [decodeLoop]
      refine (sextets_spec a b c d i).bind fun _ known read => ?_
      subst read
      refine (putOctets_spec _ within (by omega)).ok_bind fun _ kept => ?_
      obtain ⟨ys, rfl, same, within', short⟩ := kept.bounds
      rw [List.length_append] at short
      refine (ih (i + 4) ys (by omega) within' ?_ known.2).mono Iff.rfl fun out _ whole => ?_
      · change ys.length ≤ xs.length + 3 at short
        omega
      · rw [whole, same, take_take_append, List.append_assoc]
        rfl
    · simp only [List.forall_mem_cons, List.length_cons]
      constructor
      · rintro ⟨⟨one, two, three, four, others⟩, int⟩
        exact ⟨⟨⟨one, two, three, four⟩, by omega⟩, others, by omega⟩
      · rintro ⟨⟨⟨one, two, three, four⟩, _⟩, others, int⟩
        exact ⟨⟨one, two, three, four, others⟩, by omega⟩
  | case2 data other =>
    intro i xs groups within _ int
    have empty : data = [] := by
      match data, groups, other with
      | [], _, _ => rfl
      | a :: b :: c :: d :: rest, _, other => exact absurd rfl (other a b c d rest)
    subst empty
    refine .of_ok ⟨by simp, int⟩ ?_
    rw [show octets [] = [] by rfl, List.append_nil, List.take_of_length_le within]

theorem characterAt_spec (data : List LVChar) (i : Int) :
    Succeeds (characterAt data i) (0 ≤ i ∧ i < data.length)
      (fun c => data[i.toNat]? = some c) := by
  rw [characterAt]
  by_cases nonneg : 0 ≤ i
  · rw [if_pos nonneg]
    by_cases within : i < data.length
    · have there : i.toNat < data.length := by omega
      rw [List.getElem?_eq_getElem there]
      exact .of_ok ⟨nonneg, within⟩ rfl
    · rw [List.getElem?_eq_none (by omega)]
      exact .of_error fun both => within both.2
  · rw [if_neg nonneg]
    exact .of_error fun both => nonneg both.1

/-- The length by the last two characters. -/
def decodedLength (data : List LVChar) : Nat :=
  shorten (data.getD (data.length - 2) 0)
    (shorten (data.getD (data.length - 1) 0) (data.length / 4 * 3))

/-- What the decoder gives for an input that it comes through. -/
def decoded (data : List LVChar) : Option Block :=
  if data.length % 4 ≠ 0 then none
  else some ⟨Cells.filled (decodedLength data) ((octets data).take (decodedLength data)),
    decodedLength data⟩

/-- The inputs that the decoder comes through. -/
def Safe (data : List LVChar) : Prop :=
  data.length % 4 ≠ 0 ∨ data ≠ [] ∧ (∀ c ∈ data, Known c) ∧ data.length ≤ INT_MAX

theorem base64_decode_spec (data : List LVChar) :
    Succeeds (base64_decode data) (Safe data) (fun result => result = decoded data) := by
  rw [base64_decode, decoded, Safe]
  split
  · next odd => exact .of_ok (Or.inl odd) rfl
  · next whole =>
    refine Succeeds.congr (P :=
      (0 ≤ (data.length : Int) - 1 ∧ (data.length : Int) - 1 < data.length) ∧
      (0 ≤ (data.length : Int) - 2 ∧ (data.length : Int) - 2 < data.length) ∧
      (∀ c ∈ data, Known c) ∧ 0 + data.length ≤ INT_MAX) ?_ ?_
    · refine (characterAt_spec data _).bind fun last one found => ?_
      refine (characterAt_spec data _).bind fun beforeLast two found' => ?_
      have same : decodedLength data =
          shorten beforeLast (shorten last (data.length / 4 * 3)) := by
        rw [decodedLength, List.getD_eq_getElem?_getD, List.getD_eq_getElem?_getD,
          show data.length - 1 = ((data.length : Int) - 1).toNat by omega, found,
          show data.length - 2 = ((data.length : Int) - 2).toNat by omega, found']
        rfl
      rw [← same]
      have loop := decodeLoop_spec (n := decodedLength data) data 0 [] (by omega)
        (Nat.zero_le _) (Nat.le_refl 0) (by decide)
      refine (loop.bind_ok fun out _ whole => ?_)
      subst whole
      exact .of_ok trivial rfl
    · rw [or_iff_right whole]
      constructor
      · rintro ⟨some, known, int⟩
        have positive := List.length_pos_iff.mpr some
        exact ⟨by omega, by omega, known, by omega⟩
      · rintro ⟨one, _, known, int⟩
        have some : data ≠ [] := by
          rintro rfl
          exact absurd one.1 (by decide)
        exact ⟨some, known, by omega⟩

end decoding

section script

/-- How a function of the library comes back to the script. -/
inductive Answer where
  | null
  | string (s : List LVChar)
  | failed (err : String)
  deriving DecidableEq

/-- `lv_pushstring` with the length of the buffer. -/
def lv_pushstring : Option Block → Except Fault Answer
  | none => .ok .null
  | some block =>
    match block.cells.read block.output_length with
    | some s => .ok (.string s)
    | none => .error .output

/-- What `lv_getstring` gives is decoded up to its first NUL. -/
def crypto_base64_decode (s : Option (List LVChar)) : Except Fault Answer :=
  match s with
  | some s => do lv_pushstring (← base64_decode (s.takeWhile (· ≠ 0)))
  | none => .ok .null

/-- Base64, with padding. -/
def WellFormed (s : List LVChar) : Prop :=
  s.length % 4 = 0 ∧ ∃ body k, s = body ++ List.replicate k (_LC '=') ∧ k ≤ 2 ∧
    ∀ c ∈ body, c ∈ encoding_table

/-- The call stays inside of its memory, and fails for what is not base64. -/
def Checks (s : List LVChar) : Prop :=
  ∃ answer, crypto_base64_decode (some s) = .ok answer ∧
    (WellFormed s ∨ ∃ err, answer = .failed err)

theorem length_octets (data : List LVChar) : (octets data).length = data.length / 4 * 3 := by
  induction data using octets.induct with
  | case1 a b c d rest ih =>
    rw [octets]
    simp only [List.length_cons, ih]
    omega
  | case2 data other =>
    have short : data.length < 4 := by
      match data, other with
      | [], _ | [_], _ | [_, _], _ | [_, _, _], _ => simp
      | a :: b :: c :: d :: rest, other => exact absurd rfl (other a b c d rest)
    rw [octets.eq_2 data other, Nat.div_eq_of_lt short]
    rfl

theorem shorten_le (c : LVChar) (n : Nat) : shorten c n ≤ n := by
  rw [shorten]
  split <;> omega

/-- No cell of the result is left unset. -/
theorem length_kept (data : List LVChar) :
    ((octets data).take (decodedLength data)).length = decodedLength data := by
  rw [List.length_take, length_octets]
  exact Nat.min_eq_left ((shorten_le _ _).trans (shorten_le _ _))

theorem read_decoded (data : List LVChar) :
    Cells.read (Cells.filled (decodedLength data) ((octets data).take (decodedLength data)))
      (decodedLength data) = some ((octets data).take (decodedLength data)) := by
  have read := Cells.read_filled ((octets data).take (decodedLength data))
  rwa [length_kept] at read

theorem crypto_base64_decode_spec (s : List LVChar) :
    Succeeds (crypto_base64_decode (some s)) (Safe (s.takeWhile (· ≠ 0)))
      (fun answer => ∀ err, answer ≠ .failed err) := by
  rw [crypto_base64_decode]
  refine (base64_decode_spec _).bind_ok fun result _ same => ?_
  subst same
  rw [decoded]
  split
  · exact .of_ok trivial (by simp)
  · rw [lv_pushstring]
    simp only [read_decoded]
    exact .of_ok trivial (by simp)

theorem Known.ne_zero {c : LVChar} (known : Known c) : c ≠ 0 := by
  rintro rfl
  exact absurd known (not_or.mpr ⟨by decide, by decide⟩)

theorem WellFormed.known {s : List LVChar} (formed : WellFormed s) : ∀ c ∈ s, Known c := by
  obtain ⟨_, body, k, rfl, _, letters⟩ := formed
  intro c mem
  rcases List.mem_append.mp mem with front | back
  · exact Or.inr (letters c front)
  · exact Or.inl (List.eq_of_mem_replicate back)

theorem WellFormed.takeWhile {s : List LVChar} (formed : WellFormed s) :
    s.takeWhile (· ≠ 0) = s :=
  List.takeWhile_eq_self_iff.mpr fun c mem => by simpa using (formed.known c mem).ne_zero

/-- The call is as it should be for base64 that is not empty and not too long, and for
nothing else. -/
theorem base64_decode_checks_iff (s : List LVChar) :
    Checks s ↔ WellFormed s ∧ s ≠ [] ∧ s.length ≤ INT_MAX := by
  have spec := crypto_base64_decode_spec s
  constructor
  · rintro ⟨answer, came, formed | ⟨err, failed⟩⟩
    · have safe : Safe (s.takeWhile (· ≠ 0)) := by
        by_contra fault
        obtain ⟨e, error⟩ := spec.error fault
        rw [error] at came
        cases came
      rw [formed.takeWhile] at safe
      rcases safe with odd | ⟨some, _, int⟩
      · exact absurd formed.1 odd
      · exact ⟨formed, some, int⟩
    · exact absurd failed (Ensures.of_succeeds spec answer came err)
  · rintro ⟨formed, some, int⟩
    have safe : Safe (s.takeWhile (· ≠ 0)) := by
      rw [formed.takeWhile]
      exact Or.inr ⟨some, formed.known, int⟩
    obtain ⟨answer, came, _⟩ := spec.ok safe
    exact ⟨answer, came, Or.inl formed⟩

/-- Characters that the table is not set for. -/
theorem exclamations_not_checked : ¬ Checks (List.replicate 4 (_LC '!')) := by
  rintro ⟨answer, came, _⟩
  have fault : crypto_base64_decode (some (List.replicate 4 (_LC '!'))) =
      .error (.table 33) := by decide
  rw [fault] at came
  cases came

end script

end Lavril.Base64
