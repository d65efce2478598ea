import Lavril.Base64
import Mathlib.Algebra.Ring.Nat

/-!
# Decoding what has been encoded

The encoder stores four characters for every three octets that have been started, and then
writes the padding over the last of them. The decoder gets the octets back.
-/

namespace Lavril.Base64

variable {n : Nat} {a b c : UInt8} {xs data : List UInt8}

section stored

/-- What the loop of the encoder stores. -/
def encodedRaw : List UInt8 → List LVChar
  | [] => []
  | [a] => quad a 0 0
  | [a, b] => quad a b 0
  | a :: b :: c :: rest => quad a b c ++ encodedRaw rest

/-- The part of it that the padding does not go over. -/
def front : List UInt8 → List LVChar
  | [] => []
  | [a] => (quad a 0 0).take 2
  | [a, b] => (quad a b 0).take 3
  | a :: b :: c :: rest => quad a b c ++ front rest

def overwritten : List UInt8 → List LVChar
  | [] => []
  | [a] => (quad a 0 0).drop 2
  | [a, b] => (quad a b 0).drop 3
  | _ :: _ :: _ :: rest => overwritten rest

/-- The whole text. -/
def encodedText (data : List UInt8) : List LVChar :=
  front data ++ List.replicate (overwritten data).length (_LC '=')

theorem encodedRaw_eq (data : List UInt8) : encodedRaw data = front data ++ overwritten data := by
  induction data using encodedRaw.induct with
  | case1 => rfl
  | case2 => rfl
  | case3 => rfl
  | case4 a b c rest ih => rw [encodedRaw, front, overwritten, ih, List.append_assoc]

theorem length_encodedRaw (data : List UInt8) :
    (encodedRaw data).length = 4 * ((data.length + 2) / 3) := by
  induction data using encodedRaw.induct with
  | case1 => rfl
  | case2 a => simp [encodedRaw, quad]
  | case3 a b => simp [encodedRaw, quad]
  | case4 a b c rest ih =>
    rw [encodedRaw, List.length_append, ih]
    simp only [quad, List.length_cons, List.length_nil]
    omega

theorem length_overwritten (data : List UInt8) :
    mod_table.getD (data.length % 3) 0 = (overwritten data).length := by
  induction data using encodedRaw.induct with
  | case1 => rfl
  | case2 => rfl
  | case3 => rfl
  | case4 a b c rest ih =>
    rw [overwritten, ← ih]
    simp only [List.length_cons]
    rw [show (rest.length + 1 + 1 + 1) % 3 = rest.length % 3 by omega]

theorem length_encodedText (data : List UInt8) :
    (encodedText data).length = 4 * ((data.length + 2) / 3) := by
  rw [← length_encodedRaw, encodedRaw_eq, encodedText]
  simp

theorem encodeTurn_spec (taken i : Nat) (few : taken ≤ 4) (behind : i ≤ xs.length)
    (room : xs.length + 4 ≤ n) :
    Succeeds (encodeTurn a b c taken i xs.length (Cells.filled n xs))
      (xs.length + 4 ≤ INT_MAX)
      (fun r => r = (i + taken, (xs ++ quad a b c).length, Cells.filled n (xs ++ quad a b c))) := by
  have quad_stored := Cells.storeAll_filled (n := n) (quad a b c) xs room
  refine Succeeds.congr (P := i + taken ≤ INT_MAX ∧ xs.length + 4 ≤ INT_MAX) ?_ (by omega)
  refine (advance_spec i taken).bind fun _ _ moved => ?_
  subst moved
  rw [quad_stored]
  refine (advance_spec xs.length 4).bind_ok fun _ _ moved => ?_
  subst moved
  refine .of_ok trivial ?_
  rw [List.length_append]
  rfl

theorem encodeLoop_spec (data : List UInt8) :
    ∀ (i : Nat) (xs : List UInt8), i ≤ xs.length → xs.length ≤ INT_MAX →
      xs.length + (encodedRaw data).length ≤ n →
      Succeeds (encodeLoop data i xs.length (Cells.filled n xs))
        (xs.length + (encodedRaw data).length ≤ INT_MAX)
        (fun out => out = Cells.filled n (xs ++ encodedRaw data)) := by
  induction data using encodedRaw.induct with
  | case1 =>
    intro i xs _ int _
    exact .of_ok int (by rw [encodedRaw, List.append_nil])
  | case2 a =>
    intro i xs behind int room
    refine (encodeTurn_spec 1 i (by decide) behind room).bind_ok fun _ _ turned => ?_
    subst turned
    exact .of_ok trivial rfl
  | case3 a b =>
    intro i xs behind int room
    refine (encodeTurn_spec 2 i (by decide) behind room).bind_ok fun _ _ turned => ?_
    subst turned
    exact .of_ok trivial rfl
  | case4 a b c rest ih =>
    intro i xs behind int room
    rw [encodedRaw, List.length_append] at room ⊢
    have four : (quad a b c).length = 4 := rfl
    rw [four] at room ⊢
    refine Succeeds.congr (P := xs.length + 4 ≤ INT_MAX ∧
      xs.length + 4 + (encodedRaw rest).length ≤ INT_MAX) ?_ (by omega)
    refine (encodeTurn_spec 3 i (by decide) behind (by omega)).bind fun _ small turned => ?_
    subst turned
    have length : (xs ++ quad a b c).length = xs.length + 4 := List.length_append
    have more := ih (i + 3) (xs ++ quad a b c) (by omega) (by omega) (by omega)
    rw [length, List.append_assoc] at more
    rw [length]
    exact more

theorem pad_filled (ys : List UInt8) :
    ∀ xs : List UInt8, n = xs.length + ys.length →
      pad n (Cells.filled n (xs ++ ys)) ys.length =
        .ok (Cells.filled n (xs ++ List.replicate ys.length (_LC '='))) := by
  induction ys with
  | nil => exact fun _ _ => rfl
  | cons y ys ih =>
    intro xs size
    rw [List.length_cons] at size ⊢
    have later := ih (xs ++ [y]) (by rw [List.length_append, List.length_singleton]; omega)
    rw [List.append_assoc, List.append_assoc, List.singleton_append, List.singleton_append]
      at later
    have place : n - 1 - ys.length = xs.length := by omega
    have room : xs.length + (y :: List.replicate ys.length (_LC '=')).length ≤ n := by
      rw [List.length_cons, List.length_replicate]
      omega
    have replaced := Cells.store_over (x := _LC '=') room
    rw [pad, later, place]
    change stored (Cells.store _ _ _) = _
    rw [replaced, List.replicate_succ]
    rfl

theorem base64_encode_spec (data : List UInt8) :
    Succeeds (base64_encode data) (4 * ((data.length + 2) / 3) ≤ INT_MAX)
      (fun block => block = ⟨Cells.filled (4 * ((data.length + 2) / 3)) (encodedText data),
        4 * ((data.length + 2) / 3)⟩) := by
  have size := length_encodedRaw data
  have loop := encodeLoop_spec (n := 4 * ((data.length + 2) / 3)) data 0 [] (Nat.le_refl 0)
    (Nat.zero_le _) (by rw [size, List.length_nil, Nat.zero_add])
  rw [List.length_nil, Nat.zero_add, size, List.nil_append] at loop
  refine loop.bind_ok fun out _ whole => ?_
  subst whole
  have parts := encodedRaw_eq data
  have padded := pad_filled (n := 4 * ((data.length + 2) / 3)) (overwritten data) (front data)
    (by rw [← List.length_append, ← parts, size])
  rw [length_overwritten, parts, padded]
  exact .of_ok trivial rfl

end stored

section values

theorem length_encoding_table : encoding_table.length = 64 := rfl

theorem value_letter {k : Nat} (small : k < 64) : value (encoding_table.getD k 0) = k := by
  have within : k < encoding_table.length := small
  have letter : encoding_table.getD k 0 = encoding_table[k] := by
    rw [List.getD_eq_getElem?_getD, List.getElem?_eq_getElem within, Option.getD_some]
  have other : encoding_table[k] ≠ _LC '=' := fun same =>
    absurd (same ▸ List.getElem_mem within) (show _LC '=' ∉ encoding_table by decide)
  rw [value, letter, if_neg other]
  exact nodup_encoding_table.idxOf_getElem k within

/-- Six bits of a number. -/
theorem sixBits (t s : Nat) : t >>> s &&& 0x3F = t / 2 ^ s % 64 := by
  rw [Nat.shiftRight_eq_div_pow]
  exact Nat.and_two_pow_sub_one_eq_mod _ 6

theorem eightBits (t s : Nat) : t >>> s &&& 0xFF = t / 2 ^ s % 256 := by
  rw [Nat.shiftRight_eq_div_pow]
  exact Nat.and_two_pow_sub_one_eq_mod _ 8

/-- The number that three octets make. -/
def tripleBytes (a b c : UInt8) : Nat := a.toNat <<< 0x10 + b.toNat <<< 0x08 + c.toNat

theorem tripleBytes_eq (a b c : UInt8) :
    tripleBytes a b c = a.toNat * 65536 + b.toNat * 256 + c.toNat := by
  rw [tripleBytes, Nat.shiftLeft_eq, Nat.shiftLeft_eq]

theorem quad_eq (a b c : UInt8) :
    quad a b c = [encoding_table.getD (tripleBytes a b c / 2 ^ 18 % 64) 0,
      encoding_table.getD (tripleBytes a b c / 2 ^ 12 % 64) 0,
      encoding_table.getD (tripleBytes a b c / 2 ^ 6 % 64) 0,
      encoding_table.getD (tripleBytes a b c / 2 ^ 0 % 64) 0] := by
  rw [← sixBits, ← sixBits, ← sixBits, ← sixBits]
  rfl

theorem value_sixBits (t : Nat) : value (encoding_table.getD (t % 64) 0) = t % 64 :=
  value_letter (Nat.mod_lt _ (by decide))

theorem octetsOf_tripleBytes (a b c : UInt8) : octetsOf (tripleBytes a b c) = [a, b, c] := by
  have ha : a.toNat < 256 := a.toNat_lt
  have hb : b.toNat < 256 := b.toNat_lt
  have hc : c.toNat < 256 := c.toNat_lt
  have first : tripleBytes a b c / 2 ^ (2 * 8) % 256 = a.toNat := by
    rw [tripleBytes_eq]
    omega
  have second : tripleBytes a b c / 2 ^ (1 * 8) % 256 = b.toNat := by
    rw [tripleBytes_eq]
    omega
  have third : tripleBytes a b c / 2 ^ (0 * 8) % 256 = c.toNat := by
    rw [tripleBytes_eq]
    omega
  rw [octetsOf, eightBits, eightBits, eightBits, first, second, third]
  simp

/-- The number that four characters make, by what they stand for. -/
theorem tripleOf_eq (p q r s : LVChar) :
    tripleOf p q r s = value p * 262144 + value q * 4096 + value r * 64 + value s := by
  rw [tripleOf]
  simp only [Nat.shiftLeft_eq]
  omega

theorem tripleBytes_lt (a b c : UInt8) : tripleBytes a b c < 2 ^ 24 := by
  have ha : a.toNat < 256 := a.toNat_lt
  have hb : b.toNat < 256 := b.toNat_lt
  have hc : c.toNat < 256 := c.toNat_lt
  rw [tripleBytes_eq]
  omega

theorem octets_quad (a b c : UInt8) (rest : List LVChar) :
    octets (quad a b c ++ rest) = a :: b :: c :: octets rest := by
  have small := tripleBytes_lt a b c
  have whole : tripleOf (encoding_table.getD (tripleBytes a b c / 2 ^ 18 % 64) 0)
      (encoding_table.getD (tripleBytes a b c / 2 ^ 12 % 64) 0)
      (encoding_table.getD (tripleBytes a b c / 2 ^ 6 % 64) 0)
      (encoding_table.getD (tripleBytes a b c / 2 ^ 0 % 64) 0) = tripleBytes a b c := by
    rw [tripleOf_eq]
    simp only [value_sixBits]
    omega
  rw [quad_eq]
  change octetsOf (tripleOf _ _ _ _) ++ octets rest = _
  rw [whole, octetsOf_tripleBytes]
  rfl

theorem value_padding : value (_LC '=') = 0 := rfl

/-- The last group stands for one octet, or for two. -/
theorem octets_one (a : UInt8) :
    octets ((quad a 0 0).take 2 ++ [_LC '=', _LC '=']) = [a, 0, 0] := by
  have same := tripleBytes_eq a 0 0
  have ha : a.toNat < 256 := a.toNat_lt
  have whole : tripleOf (encoding_table.getD (tripleBytes a 0 0 / 2 ^ 18 % 64) 0)
      (encoding_table.getD (tripleBytes a 0 0 / 2 ^ 12 % 64) 0) (_LC '=') (_LC '=') =
        tripleBytes a 0 0 := by
    rw [tripleOf_eq, value_sixBits, value_sixBits, value_padding, same, UInt8.toNat_zero]
    omega
  rw [quad_eq]
  change octetsOf (tripleOf _ _ _ _) = _
  rw [whole, octetsOf_tripleBytes]

theorem octets_two (a b : UInt8) :
    octets ((quad a b 0).take 3 ++ [_LC '=']) = [a, b, 0] := by
  have same := tripleBytes_eq a b 0
  have ha : a.toNat < 256 := a.toNat_lt
  have hb : b.toNat < 256 := b.toNat_lt
  have whole : tripleOf (encoding_table.getD (tripleBytes a b 0 / 2 ^ 18 % 64) 0)
      (encoding_table.getD (tripleBytes a b 0 / 2 ^ 12 % 64) 0)
      (encoding_table.getD (tripleBytes a b 0 / 2 ^ 6 % 64) 0) (_LC '=') =
        tripleBytes a b 0 := by
    rw [tripleOf_eq, value_sixBits, value_sixBits, value_sixBits, value_padding, same,
      UInt8.toNat_zero]
    omega
  rw [quad_eq]
  change octetsOf (tripleOf _ _ _ _) = _
  rw [whole, octetsOf_tripleBytes]

theorem octets_encodedText (data : List UInt8) :
    ∃ zeros, octets (encodedText data) = data ++ zeros := by
  induction data using encodedRaw.induct with
  | case1 => exact ⟨[], rfl⟩
  | case2 a => exact ⟨[0, 0], octets_one a⟩
  | case3 a b => exact ⟨[0], octets_two a b⟩
  | case4 a b c rest ih =>
    obtain ⟨zeros, eq⟩ := ih
    refine ⟨zeros, ?_⟩
    rw [encodedText] at eq ⊢
    rw [front, overwritten, List.append_assoc, octets_quad, eq]
    rfl

end values

section roundTrip

theorem quad_letters (a b c : UInt8) : ∀ q ∈ quad a b c, q ∈ encoding_table := by
  have letter : ∀ t : Nat, encoding_table.getD (t % 64) 0 ∈ encoding_table := by
    intro t
    have within : t % 64 < encoding_table.length := Nat.mod_lt _ (by decide)
    rw [List.getD_eq_getElem?_getD, List.getElem?_eq_getElem within, Option.getD_some]
    exact List.getElem_mem within
  rw [quad_eq]
  intro q mem
  simp only [List.mem_cons, List.not_mem_nil, or_false] at mem
  rcases mem with rfl | rfl | rfl | rfl
  all_goals exact letter _

theorem front_letters (data : List UInt8) : ∀ q ∈ front data, q ∈ encoding_table := by
  induction data using encodedRaw.induct with
  | case1 => simp [front]
  | case2 a => exact fun q mem => quad_letters a 0 0 q (List.mem_of_mem_take mem)
  | case3 a b => exact fun q mem => quad_letters a b 0 q (List.mem_of_mem_take mem)
  | case4 a b c rest ih =>
    intro q mem
    rcases List.mem_append.mp mem with here | there
    · exact quad_letters a b c q here
    · exact ih q there

/-- The lengths of the parts of the text. -/
theorem lengths (data : List UInt8) :
    (overwritten data).length ≤ 2 ∧
      data.length + (overwritten data).length = 3 * ((data.length + 2) / 3) ∧
      (data ≠ [] → 2 ≤ (front data).length) := by
  induction data using encodedRaw.induct with
  | case1 => simp [overwritten]
  | case2 a => simp [overwritten, front, quad]
  | case3 a b => simp [overwritten, front, quad]
  | case4 a b c rest ih =>
    obtain ⟨few, whole, _⟩ := ih
    rw [overwritten, front, List.length_append, show (quad a b c).length = 4 from rfl]
    simp only [List.length_cons]
    exact ⟨few, by omega, fun _ => by omega⟩

/-- Where the padding is. -/
theorem encodedText_getD {k : Nat} (within : k < (encodedText data).length) :
    (encodedText data).getD k 0 = _LC '=' ↔ (front data).length ≤ k := by
  rw [List.getD_eq_getElem?_getD, List.getElem?_eq_getElem within, Option.getD_some]
  by_cases letter : k < (front data).length
  · have here : (encodedText data)[k] = (front data)[k] := List.getElem_append_left letter
    rw [here]
    refine iff_of_false (fun same => ?_) (Nat.not_le_of_lt letter)
    exact absurd (same ▸ front_letters data _ (List.getElem_mem letter))
      (show _LC '=' ∉ encoding_table by decide)
  · have there : (encodedText data)[k] = _LC '=' := by
      refine (List.getElem_append_right (Nat.le_of_not_lt letter)).trans ?_
      exact List.getElem_replicate _
    exact iff_of_true there (Nat.le_of_not_lt letter)

theorem decodedLength_encodedText (some : data ≠ []) :
    decodedLength (encodedText data) = data.length := by
  obtain ⟨few, whole, two⟩ := lengths data
  have two := two some
  have text := length_encodedText data
  have split : (encodedText data).length = (front data).length + (overwritten data).length := by
    rw [encodedText, List.length_append, List.length_replicate]
  have last : (encodedText data).getD ((encodedText data).length - 1) 0 = _LC '=' ↔ _ :=
    encodedText_getD (by omega)
  have beforeLast : (encodedText data).getD ((encodedText data).length - 2) 0 = _LC '=' ↔ _ :=
    encodedText_getD (by omega)
  rw [decodedLength, shorten, shorten]
  simp only [last, beforeLast]
  split <;> split <;> omega

/-- Everything the encoder has allocated is stored, in the length that base64 has, and the
decoder gives the bytes back. -/
def RoundTrips (data : List UInt8) : Prop :=
  ∃ encoded text decoded, base64_encode data = .ok encoded ∧
    encoded.output_length = 4 * ((data.length + 2) / 3) ∧
    encoded.cells.read encoded.output_length = some text ∧
    base64_decode text = .ok (some decoded) ∧ decoded.output_length = data.length ∧
    decoded.cells.read decoded.output_length = some data

theorem encodedText_safe (some : data ≠ []) (int : (encodedText data).length ≤ INT_MAX) :
    Safe (encodedText data) := by
  have size := length_encodedText data
  have positive := List.length_pos_iff.mpr some
  refine Or.inr ⟨?_, ?_, int⟩
  · refine List.length_pos_iff.mp ?_
    omega
  · intro c mem
    rcases List.mem_append.mp mem with letter | padding
    · exact Or.inr (front_letters data c letter)
    · exact Or.inl (List.eq_of_mem_replicate padding)

theorem read_encodedText (data : List UInt8) :
    Cells.read (Cells.filled (4 * ((data.length + 2) / 3)) (encodedText data))
      (4 * ((data.length + 2) / 3)) = some (encodedText data) := by
  have read := Cells.read_filled (encodedText data)
  rwa [length_encodedText] at read

theorem decoded_encodedText (some : data ≠ []) :
    decoded (encodedText data) = .some ⟨Cells.filled data.length data, data.length⟩ := by
  have whole : ¬ (encodedText data).length % 4 ≠ 0 := by
    rw [length_encodedText]
    omega
  obtain ⟨zeros, eq⟩ := octets_encodedText data
  rw [decoded, if_neg whole, decodedLength_encodedText some, eq, List.take_left]

/-- What the encoder does with data that is too long for its counters. -/
theorem not_roundTrips_of_long (long : INT_MAX < 4 * ((data.length + 2) / 3)) :
    ¬ RoundTrips data := by
  rintro ⟨encoded, _, _, came, _⟩
  obtain ⟨e, fault⟩ := (base64_encode_spec data).error (Nat.not_le_of_lt long)
  rw [fault] at came
  cases came

end roundTrip

end Lavril.Base64
