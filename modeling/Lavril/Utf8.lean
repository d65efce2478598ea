import Mathlib.Data.Nat.Bitwise

/-!
# UTF-8

The bytes of a code point, surrogates included. The first byte tells how many there are, so
no encoding begins with another.
-/

namespace Utf8

def encode (v : Nat) : List UInt8 :=
  if v ≤ 0x7f then [UInt8.ofNat v]
  else if v ≤ 0x7ff then
    [UInt8.ofNat (v / 64 % 0x20 + 0xc0), UInt8.ofNat (v % 0x40 + 0x80)]
  else if v ≤ 0xffff then
    [UInt8.ofNat (v / 4096 % 0x10 + 0xe0), UInt8.ofNat (v / 64 % 0x40 + 0x80),
      UInt8.ofNat (v % 0x40 + 0x80)]
  else
    [UInt8.ofNat (v / 262144 % 0x08 + 0xf0), UInt8.ofNat (v / 4096 % 0x40 + 0x80),
      UInt8.ofNat (v / 64 % 0x40 + 0x80), UInt8.ofNat (v % 0x40 + 0x80)]

theorem encode_toNat (c : Char) : encode c.toNat = String.utf8EncodeChar c := rfl

/-- The length of an encoding by its first byte. -/
def width (first : Nat) : Nat :=
  if first < 0x80 then 1 else if first < 0xe0 then 2 else if first < 0xf0 then 3 else 4

theorem toNat_ofNat_of_lt {n : Nat} (lt : n < 256) : (UInt8.ofNat n).toNat = n := by
  rw [UInt8.toNat_ofNat', Nat.mod_eq_of_lt lt]

theorem length_encode (v : Nat) : (encode v).length = width ((encode v).headD 0).toNat := by
  unfold encode
  split
  · rename_i le
    have first : width (UInt8.ofNat v).toNat = 1 := by
      rw [toNat_ofNat_of_lt (by omega), width, if_pos (by omega)]
    exact first.symm
  · split
    · have first : width (UInt8.ofNat (v / 64 % 0x20 + 0xc0)).toNat = 2 := by
        rw [toNat_ofNat_of_lt (by omega), width, if_neg (by omega), if_pos (by omega)]
      exact first.symm
    · split
      · have first : width (UInt8.ofNat (v / 4096 % 0x10 + 0xe0)).toNat = 3 := by
          rw [toNat_ofNat_of_lt (by omega), width, if_neg (by omega), if_neg (by omega),
            if_pos (by omega)]
        exact first.symm
      · have first : width (UInt8.ofNat (v / 262144 % 0x08 + 0xf0)).toNat = 4 := by
          rw [toNat_ofNat_of_lt (by omega), width, if_neg (by omega), if_neg (by omega),
            if_neg (by omega)]
        exact first.symm

theorem encode_ne_nil (v : Nat) : encode v ≠ [] := by
  unfold encode
  split
  · simp
  · split
    · simp
    · split <;> simp

/-- No encoding goes on with more bytes to another. -/
theorem eq_nil_of_encode {v v' : Nat} {more : List UInt8} (eq : encode v = encode v' ++ more) :
    more = [] := by
  have same : (encode v).headD 0 = (encode v').headD 0 := by
    rw [eq]
    cases bytes : encode v' with
    | nil => exact absurd bytes (encode_ne_nil v')
    | cons b bs => rfl
  have lengths := congrArg List.length eq
  rw [List.length_append, length_encode, length_encode, same] at lengths
  exact List.length_eq_zero_iff.mp (by omega)

end Utf8
