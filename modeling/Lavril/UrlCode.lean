import Lavril.Cells
import Lavril.Lexer
import Lavril.Strings

/-!
# The URL codec

`url_encode` and `url_decode` walk over a string of C by a pointer; what is left of the
string from the pointer on stands for it here, with the terminator as its last character. A
character is a `char`, so it has a sign. Running off the string and storing outside of the
allocated characters end the run without a result.
-/

namespace Lavril.Crypto

section digits

def tolower (c : LVChar) : LVChar := if _LC 'A' ≤ c && c ≤ _LC 'Z' then c + 32 else c

/-- The result is a `char` again. -/
def from_hex (ch : LVChar) : LVChar :=
  if scisdigit ch then ch - _LC '0' else tolower ch - _LC 'a' + 10

def hex : List LVChar :=
  ['0', '1', '2', '3', '4', '5', '6', '7', '8', '9', 'a', 'b', 'c', 'd', 'e', 'f'].map _LC

/-- `code & 15` is what is left of `code` by 16, also below 0. -/
def to_hex (code : Int) : LVChar := hex.getD (code % 16).toNat 0

end digits

section loops

/-- `isalnum` is that of the C locale, in which no negative character is a letter. -/
def unreserved (c : LVChar) : Bool :=
  scisalnum c || c == _LC '-' || c == _LC '_' || c == _LC '.' || c == _LC '~'

/-- What one turn of `url_encode` stores. `>>` keeps the sign. -/
def encoding (c : LVChar) : List LVChar :=
  if unreserved c then [c]
  else if c = _LC ' ' then [_LC '+']
  else [_LC '%', to_hex (signed c / 16), to_hex (signed c % 16)]

/-- From the state of `buf` and `pbuf` to their state at the end. -/
def encodeLoop : List LVChar → Cells LVChar → Nat → Option (Cells LVChar × Nat)
  | [], _, _ => none
  | c :: pstr, buf, pbuf =>
    if c = 0 then some (buf, pbuf)
    else do encodeLoop pstr (← Cells.storeAll buf pbuf (encoding c)) (pbuf + (encoding c).length)

def decodeLoop : List LVChar → Cells LVChar → Nat → Option (Cells LVChar × Nat)
  | [], _, _ => none
  | c :: pstr, buf, pbuf =>
    if c = 0 then some (buf, pbuf)
    else if c = _LC '%' then
      match pstr with
      | [] => none
      | first :: behind =>
        if first = 0 then decodeLoop (first :: behind) buf pbuf
        else
          match behind with
          | [] => none
          | second :: rest =>
            if second = 0 then decodeLoop (first :: second :: rest) buf pbuf
            else do
              let buf ← Cells.store buf pbuf (from_hex first <<< 4 ||| from_hex second)
              decodeLoop rest buf (pbuf + 1)
    else if c = _LC '+' then do decodeLoop pstr (← Cells.store buf pbuf (_LC ' ')) (pbuf + 1)
    else do decodeLoop pstr (← Cells.store buf pbuf c) (pbuf + 1)

/-- The string in a buffer, and how many characters have been stored in it. -/
structure Encoded where
  buf : Cells LVChar
  written : Nat

/-- Behind the loop: `*pbuf = '\0'`. -/
def finish (state : Cells LVChar × Nat) : Option Encoded := do
  pure ⟨← Cells.store state.1 state.2 0, state.2 + 1⟩

def url_encode (str : CString) : Option Encoded := do
  finish (← encodeLoop str.memory (Cells.alloc LVChar (str.strlen * 3 + 1)) 0)

def url_decode (str : CString) : Option Encoded := do
  finish (← decodeLoop str.memory (Cells.alloc LVChar (str.strlen + 1)) 0)

end loops

section hexadecimal

variable {c : LVChar} {k : Nat}

theorem to_hex_eq (code : Int) (fits : code % 16 = k) : to_hex code = hex.getD k 0 := by
  rw [to_hex, fits]
  rfl

theorem to_hex_high (c : LVChar) : to_hex (signed c / 16) = hex.getD (c.toNat / 16) 0 := by
  have small : c.toNat < 256 := c.toNat_lt
  refine to_hex_eq _ ?_
  rw [signed]
  split <;> omega

theorem to_hex_low (c : LVChar) : to_hex (signed c % 16) = hex.getD (c.toNat % 16) 0 := by
  refine to_hex_eq _ ?_
  rw [signed]
  split <;> omega

theorem from_hex_hex : k < 16 → from_hex (hex.getD k 0) = UInt8.ofNat k := by
  have each : ∀ k < 16, from_hex (hex.getD k 0) = UInt8.ofNat k := by decide
  exact each k

theorem hex_ne_zero : k < 16 → hex.getD k 0 ≠ 0 := by
  have each : ∀ k < 16, hex.getD k 0 ≠ 0 := by decide
  exact each k

theorem nibbles (c : LVChar) :
    UInt8.ofNat (c.toNat / 16) <<< 4 ||| UInt8.ofNat (c.toNat % 16) = c := by
  have small : c.toNat < 256 := c.toNat_lt
  have low : c.toNat % 16 < 2 ^ 4 := Nat.mod_lt _ (by decide)
  apply UInt8.toNat_inj.mp
  have high : c.toNat / 16 < 2 ^ 8 := by omega
  rw [UInt8.toNat_or, UInt8.toNat_shiftLeft, UInt8.toNat_ofNat', UInt8.toNat_ofNat',
    Nat.mod_eq_of_lt high, Nat.mod_eq_of_lt (show c.toNat % 16 < 2 ^ 8 by omega)]
  have four : (4 : UInt8).toNat % 8 = 4 := rfl
  rw [four, Nat.mod_eq_of_lt (by rw [Nat.shiftLeft_eq]; omega),
    ← Nat.shiftLeft_add_eq_or_of_lt low, Nat.shiftLeft_eq]
  omega

theorem code_hex (c : LVChar) :
    from_hex (to_hex (signed c / 16)) <<< 4 ||| from_hex (to_hex (signed c % 16)) = c := by
  have small : c.toNat < 256 := c.toNat_lt
  rw [to_hex_high, to_hex_low, from_hex_hex (by omega), from_hex_hex (Nat.mod_lt _ (by decide)),
    nibbles]

end hexadecimal

section encoding

variable {c x : LVChar} {s xs : List LVChar} {n : Nat}

theorem length_encoding_le (c : LVChar) : (encoding c).length ≤ 3 := by
  rw [encoding]
  split
  · simp
  · split <;> simp

theorem length_encoded_le (s : List LVChar) : (s.flatMap encoding).length ≤ s.length * 3 := by
  induction s with
  | nil => simp
  | cons c s ih =>
    have one := length_encoding_le c
    rw [List.flatMap_cons, List.length_append, List.length_cons]
    omega

theorem unreserved_ne (plain : unreserved c = true) : c ≠ 0 ∧ c ≠ _LC '%' ∧ c ≠ _LC '+' := by
  refine ⟨?_, ?_, ?_⟩
  all_goals
    rintro rfl
    exact absurd plain (by decide)

theorem encoding_ne_zero (nonzero : c ≠ 0) (mem : x ∈ encoding c) : x ≠ 0 := by
  rw [encoding] at mem
  split at mem
  · rwa [List.mem_singleton.mp mem]
  · split at mem
    · rw [List.mem_singleton.mp mem]
      decide
    · have small : c.toNat < 256 := c.toNat_lt
      simp only [List.mem_cons, List.not_mem_nil, or_false] at mem
      rcases mem with rfl | rfl | rfl
      · decide
      · rw [to_hex_high]
        exact hex_ne_zero (by omega)
      · rw [to_hex_low]
        exact hex_ne_zero (Nat.mod_lt _ (by decide))

/-- The text that `url_encode` leaves. -/
def encoded (s : CString) : CString where
  chars := s.chars.flatMap encoding
  terminated := by
    intro mem
    obtain ⟨c, among, zero⟩ := List.mem_flatMap.mp mem
    have nonzero : c ≠ 0 := fun same => s.terminated (same ▸ among)
    exact encoding_ne_zero nonzero zero rfl

theorem encodeLoop_filled (free : 0 ∉ s) :
    ∀ xs : List LVChar, xs.length + (s.flatMap encoding).length ≤ n →
      encodeLoop (s ++ [0]) (Cells.filled n xs) xs.length =
        some (Cells.filled n (xs ++ s.flatMap encoding),
          (xs ++ s.flatMap encoding).length) := by
  induction s with
  | nil => simp [encodeLoop]
  | cons c s ih =>
    intro xs fits
    rw [List.mem_cons, not_or] at free
    rw [List.flatMap_cons, List.length_append] at fits
    have stored := Cells.storeAll_filled (n := n) (encoding c) xs (by omega)
    have rest := ih free.2 (xs ++ encoding c) (by rw [List.length_append]; omega)
    rw [List.length_append, List.append_assoc] at rest
    rw [List.cons_append, encodeLoop, if_neg (Ne.symm free.1), stored]
    exact rest

theorem url_encode_eq (str : CString) :
    url_encode str = some ⟨Cells.filled (str.strlen * 3 + 1) ((encoded str).chars ++ [0]),
      (encoded str).strlen + 1⟩ := by
  have small : (encoded str).chars.length ≤ str.strlen * 3 := length_encoded_le str.chars
  have loop := encodeLoop_filled (n := str.strlen * 3 + 1) str.terminated []
    (by rw [List.length_nil, Nat.zero_add]; exact Nat.le_succ_of_le small)
  have ended := Cells.store_filled (x := (0 : LVChar)) (Nat.lt_succ_of_le small)
  rw [url_encode, CString.memory, Cells.alloc_eq]
  simp only [List.length_nil, List.nil_append] at loop
  rw [loop]
  simp only [Option.bind_eq_bind, Option.bind_some, finish]
  rw [show (str.chars.flatMap encoding) = (encoded str).chars from rfl, ended]
  rfl

end encoding

section decoding

variable {c first second : LVChar} {rest : List LVChar} {n : Nat}

/-- What `url_decode` stores for a string. -/
def decoding : List LVChar → List LVChar
  | [] => []
  | c :: pstr =>
    if c = _LC '%' then
      match pstr with
      | [] => []
      | [first] => decoding [first]
      | first :: second :: rest =>
        (from_hex first <<< 4 ||| from_hex second) :: decoding rest
    else (if c = _LC '+' then _LC ' ' else c) :: decoding pstr

theorem decoding_plain (plain : c ≠ _LC '%') :
    decoding (c :: rest) = (if c = _LC '+' then _LC ' ' else c) :: decoding rest := by
  rw [decoding.eq_def]
  exact if_neg plain

theorem decoding_escape :
    decoding (_LC '%' :: first :: second :: rest) =
      (from_hex first <<< 4 ||| from_hex second) :: decoding rest := by
  rw [decoding.eq_def]
  exact if_pos rfl

/-- An escape that is cut off behind its first digit is dropped. -/
theorem decoding_cut : decoding [_LC '%', first] = decoding [first] := by
  rw [decoding.eq_def]
  exact if_pos rfl

theorem decoding_encoding (c : LVChar) (rest : List LVChar) :
    decoding (encoding c ++ rest) = c :: decoding rest := by
  rw [encoding]
  split
  · next plain =>
    obtain ⟨_, percent, plus⟩ := unreserved_ne plain
    rw [List.singleton_append, decoding_plain percent, if_neg plus]
  · split
    · next space =>
      rw [space, List.singleton_append, decoding_plain (by decide), if_pos rfl]
    · rw [List.cons_append, List.cons_append, List.singleton_append, decoding_escape, code_hex]

theorem decoding_encoded (s : List LVChar) : decoding (s.flatMap encoding) = s := by
  induction s with
  | nil => rw [List.flatMap_nil, decoding]
  | cons c s ih => rw [List.flatMap_cons, decoding_encoding, ih]

theorem length_decoding_le (s : List LVChar) : (decoding s).length ≤ s.length := by
  induction s using decoding.induct with
  | case1 => exact Nat.le_refl 0
  | case2 => exact Nat.zero_le 1
  | case3 first ih =>
    rw [decoding_cut]
    exact Nat.le_succ_of_le ih
  | case4 first second rest ih =>
    rw [decoding_escape]
    simp only [List.length_cons]
    omega
  | case5 c rest plain ih =>
    rw [decoding_plain plain]
    exact Nat.succ_le_succ ih

theorem decodeLoop_escape (buf : Cells LVChar) (pbuf : Nat) (one : first ≠ 0)
    (two : second ≠ 0) :
    decodeLoop (_LC '%' :: first :: second :: rest) buf pbuf =
      (Cells.store buf pbuf (from_hex first <<< 4 ||| from_hex second)).bind
        fun buf => decodeLoop rest buf (pbuf + 1) := by
  rw [decodeLoop.eq_def]
  simp [one, two, show _LC '%' ≠ 0 by decide]

theorem decodeLoop_cut (buf : Cells LVChar) (pbuf : Nat) (one : first ≠ 0) :
    decodeLoop (_LC '%' :: first :: 0 :: rest) buf pbuf =
      decodeLoop (first :: 0 :: rest) buf pbuf := by
  rw [decodeLoop.eq_def]
  simp [one, show _LC '%' ≠ 0 by decide]

theorem decodeLoop_plain (buf : Cells LVChar) (pbuf : Nat) (nonzero : c ≠ 0)
    (plain : c ≠ _LC '%') :
    decodeLoop (c :: rest) buf pbuf =
      (Cells.store buf pbuf (if c = _LC '+' then _LC ' ' else c)).bind
        fun buf => decodeLoop rest buf (pbuf + 1) := by
  rw [decodeLoop.eq_def]
  simp only [nonzero, plain, if_false]
  split <;> rfl

theorem decodeLoop_filled (s : List LVChar) :
    ∀ xs : List LVChar, 0 ∉ s → xs.length + s.length ≤ n →
      decodeLoop (s ++ [0]) (Cells.filled n xs) xs.length =
        some (Cells.filled n (xs ++ decoding s), (xs ++ decoding s).length) := by
  induction s using decoding.induct with
  | case1 =>
    intro xs _ _
    simp [decodeLoop, decoding]
  | case2 =>
    intro xs _ _
    have dropped : decoding [_LC '%'] = [] := by decide
    rw [dropped, List.append_nil, List.singleton_append, decodeLoop.eq_def]
    rfl
  | case3 first ih =>
    intro xs free fits
    simp only [List.mem_cons, not_or] at free
    have behind := ih xs (by simpa using free.2) (Nat.le_of_succ_le fits)
    rw [List.cons_append, List.singleton_append, decodeLoop_cut _ _ (Ne.symm free.2.1),
      decoding_cut]
    exact behind
  | case4 first second rest ih =>
    intro xs free fits
    simp only [List.mem_cons, not_or] at free
    simp only [List.length_cons] at fits
    have behind := ih (xs ++ [from_hex first <<< 4 ||| from_hex second]) free.2.2.2
      (by rw [List.length_append, List.length_singleton]; omega)
    rw [List.length_append, List.length_singleton, List.append_assoc, List.singleton_append]
      at behind
    rw [List.cons_append, List.cons_append, List.cons_append,
      decodeLoop_escape _ _ (Ne.symm free.2.1) (Ne.symm free.2.2.1),
      Cells.store_filled (show xs.length < n by omega), decoding_escape]
    exact behind
  | case5 c rest plain ih =>
    intro xs free fits
    simp only [List.mem_cons, not_or] at free
    simp only [List.length_cons] at fits
    have behind := ih (xs ++ [if c = _LC '+' then _LC ' ' else c]) free.2
      (by rw [List.length_append, List.length_singleton]; omega)
    rw [List.length_append, List.length_singleton, List.append_assoc, List.singleton_append]
      at behind
    rw [List.cons_append, decodeLoop_plain _ _ (Ne.symm free.1) plain,
      Cells.store_filled (show xs.length < n by omega), decoding_plain plain]
    exact behind

theorem url_decode_eq (str : CString) :
    url_decode str = some ⟨Cells.filled (str.strlen + 1) (decoding str.chars ++ [0]),
      (decoding str.chars).length + 1⟩ := by
  have small : (decoding str.chars).length ≤ str.strlen := length_decoding_le str.chars
  have loop := decodeLoop_filled (n := str.strlen + 1) str.chars [] str.terminated
    (by rw [List.length_nil, Nat.zero_add]; exact Nat.le_succ _)
  have ended := Cells.store_filled (x := (0 : LVChar)) (Nat.lt_succ_of_le small)
  rw [List.length_nil, List.nil_append] at loop
  rw [url_decode, CString.memory, Cells.alloc_eq, loop]
  simp only [Option.bind_eq_bind, Option.bind_some, finish]
  rw [ended]
  rfl

end decoding

section codec

namespace Encoded

/-- The characters that a reader of the buffer as a string of C gets. -/
def string (e : Encoded) : Option (List LVChar) := Cells.upTo 0 e.buf

end Encoded

/-- A run of the encoder or the decoder that stores no more than `limit` characters; a run
that reads behind the terminator or stores outside of its buffer has no result. -/
def Stays (run : Option Encoded) (limit : Nat) : Prop := ∃ e, run = some e ∧ e.written ≤ limit

/-- The run leaves this string of C in its buffer. -/
def Leaves (run : Option Encoded) (chars : List LVChar) : Prop :=
  run.bind Encoded.string = some chars

theorem url_encode_leaves (str : CString) : Leaves (url_encode str) (encoded str).chars := by
  rw [Leaves, url_encode_eq]
  exact Cells.upTo_filled (encoded str).terminated

/-- Whatever is encoded is decoded to itself, and neither function leaves its memory. -/
theorem url_roundTrip (str : CString) :
    (∃ encoded : CString, Leaves (url_encode str) encoded.chars ∧
      Leaves (url_decode encoded) str.chars) ∧
      Stays (url_encode str) (3 * str.strlen + 1) ∧ Stays (url_decode str) (str.strlen + 1) := by
  refine ⟨⟨encoded str, url_encode_leaves str, ?_⟩, ?_, ?_⟩
  · rw [Leaves, url_decode_eq, encoded]
    rw [decoding_encoded]
    exact Cells.upTo_filled str.terminated
  · have small : (encoded str).strlen ≤ str.strlen * 3 := length_encoded_le str.chars
    refine ⟨_, url_encode_eq str, ?_⟩
    change (encoded str).strlen + 1 ≤ 3 * str.strlen + 1
    omega
  · refine ⟨_, url_decode_eq str, ?_⟩
    exact Nat.succ_le_succ (length_decoding_le str.chars)

end codec

end Lavril.Crypto
