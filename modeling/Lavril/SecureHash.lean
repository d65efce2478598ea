import Mathlib.Algebra.Ring.Nat
import Mathlib.Data.List.GetD

/-!
# The secure hash SHA-1

The hash as FIPS 180 defines it: 32-bit words, a message schedule of eighty of
them for a block of 64 bytes, and padding with the length of the message.
-/

namespace SecureHash

abbrev Word := BitVec 32

/-- The five words of a hash value. -/
@[ext]
structure Hash where
  (a b c d e : Word)
  deriving DecidableEq

namespace Hash

def add (H H' : Hash) : Hash := ⟨H.a + H'.a, H.b + H'.b, H.c + H'.c, H.d + H'.d, H.e + H'.e⟩

def words (H : Hash) : List Word := [H.a, H.b, H.c, H.d, H.e]

end Hash

def initial : Hash := ⟨0x67452301, 0xefcdab89, 0x98badcfe, 0x10325476, 0xc3d2e1f0⟩

/-! ## The compression function -/

def choose (x y z : Word) : Word := (x &&& y) ^^^ (~~~x &&& z)

def parity (x y z : Word) : Word := x ^^^ y ^^^ z

def majority (x y z : Word) : Word := (x &&& y) ^^^ (x &&& z) ^^^ (y &&& z)

/-- The function of round `t`. -/
def f (t : Nat) : Word → Word → Word → Word :=
  if t < 20 then choose else if t < 40 then parity else if t < 60 then majority else parity

/-- The constant of round `t`. -/
def K (t : Nat) : Word :=
  if t < 20 then 0x5a827999 else if t < 40 then 0x6ed9eba1
  else if t < 60 then 0x8f1bbcdc else 0xca62c1d6

/-- The message schedule of a block. -/
def schedule (M : Nat → Word) (t : Nat) : Word :=
  if t < 16 then M t
  else (schedule M (t - 3) ^^^ schedule M (t - 8) ^^^ schedule M (t - 14) ^^^
    schedule M (t - 16)).rotateLeft 1

def round (W : Nat → Word) (V : Hash) (t : Nat) : Hash :=
  ⟨V.a.rotateLeft 5 + f t V.b V.c V.d + V.e + K t + W t, V.a, V.b.rotateLeft 30, V.c, V.d⟩

/-- The working variables after `n` rounds. -/
def rounds (W : Nat → Word) (V : Hash) : Nat → Hash
  | 0 => V
  | n + 1 => round W (rounds W V n) n

def compress (H : Hash) (M : Nat → Word) : Hash := H.add (rounds (schedule M) H 80)

/-! ## Messages -/

/-- Four bytes, the first of them the most significant one. -/
def word (b₀ b₁ b₂ b₃ : UInt8) : Word := b₀.toBitVec ++ b₁.toBitVec ++ b₂.toBitVec ++ b₃.toBitVec

/-- The words of a block. -/
def blockWord (block : List UInt8) (t : Nat) : Word :=
  word (block.getD (4 * t) 0) (block.getD (4 * t + 1) 0) (block.getD (4 * t + 2) 0)
    (block.getD (4 * t + 3) 0)

/-- The blocks of a message are compressed one after the other. -/
def compressBlocks (H : Hash) (message : List UInt8) : Hash :=
  if message.length < 64 then H
  else compressBlocks (compress H (blockWord (message.take 64))) (message.drop 64)
  termination_by message.length
  decreasing_by
    simp only [List.length_drop]
    omega

/-- The length in bits, as eight bytes. -/
def lengthBytes (bits : BitVec 64) : List UInt8 :=
  (List.range 8).map fun n => UInt8.ofBitVec ((bits >>> (8 * (7 - n))).setWidth 8)

/-- A bit that is set, zeros, and the length of the message. -/
def padding (n : Nat) : List UInt8 :=
  0x80 :: List.replicate ((119 - n % 64) % 64) 0 ++ lengthBytes (BitVec.ofNat 64 (8 * n))

def sha1 (message : List UInt8) : Hash := compressBlocks initial (message ++ padding message.length)

/-- The last `k` hexadecimal digits of a number. -/
def digits : Nat → Nat → List Char
  | 0, _ => []
  | k + 1, n => digits k (n / 16) ++ [Nat.digitChar (n % 16)]

def Hash.hex (H : Hash) : List Char := H.words.flatMap fun w => digits 8 w.toNat

/-! ## Rules -/

variable {H : Hash} {M M' : Nat → Word} {message rest : List UInt8}

theorem schedule_low {t : Nat} (low : t < 16) : schedule M t = M t := by
  rw [schedule, if_pos low]

theorem schedule_high {t : Nat} (high : ¬ t < 16) :
    schedule M t = (schedule M (t - 3) ^^^ schedule M (t - 8) ^^^ schedule M (t - 14) ^^^
      schedule M (t - 16)).rotateLeft 1 := by
  rw [schedule, if_neg high]

/-- The schedule depends on the sixteen words of the block only. -/
theorem schedule_congr (same : ∀ t < 16, M t = M' t) : schedule M = schedule M' := by
  funext t
  induction t using Nat.strong_induction_on with
  | _ t ih =>
    by_cases low : t < 16
    · rw [schedule_low low, schedule_low low, same t low]
    · rw [schedule_high low, schedule_high low, ih _ (by omega), ih _ (by omega),
        ih _ (by omega), ih _ (by omega)]

theorem compress_congr (same : ∀ t < 16, M t = M' t) : compress H M = compress H M' := by
  rw [compress, compress, schedule_congr same]

theorem compressBlocks_short (short : message.length < 64) : compressBlocks H message = H := by
  rw [compressBlocks, if_pos short]

theorem compressBlocks_nil : compressBlocks H [] = H := compressBlocks_short (by decide)

theorem compressBlocks_block (block : message.length = 64) :
    compressBlocks H (message ++ rest) = compressBlocks (compress H (blockWord message)) rest := by
  rw [compressBlocks, if_neg (by simp [block]), List.take_left' block, List.drop_left' block]

theorem compressBlocks_single (block : message.length = 64) :
    compressBlocks H message = compress H (blockWord message) := by
  have alone := @compressBlocks_block H _ [] block
  rwa [List.append_nil, compressBlocks_nil] at alone

theorem compressBlocks_append (whole : 64 ∣ message.length) :
    compressBlocks H (message ++ rest) = compressBlocks (compressBlocks H message) rest := by
  induction eq : message.length using Nat.strong_induction_on generalizing H message with
  | _ n ih =>
    by_cases short : message.length < 64
    · have none : message = [] := List.eq_nil_of_length_eq_zero (by omega)
      rw [none, List.nil_append, compressBlocks_nil]
    · have block : (message.take 64).length = 64 := by
        rw [List.length_take]
        omega
      have parts : message = message.take 64 ++ message.drop 64 :=
        (List.take_append_drop 64 message).symm
      have left : (message.drop 64).length = message.length - 64 := List.length_drop
      rw [parts, List.append_assoc, compressBlocks_block block, compressBlocks_block block]
      exact ih _ (by omega) (by omega) rfl

@[simp] theorem length_lengthBytes (bits : BitVec 64) : (lengthBytes bits).length = 8 := by
  simp [lengthBytes]

/-- Zeros at the end of a block add nothing to its words. -/
theorem blockWord_zeros (front : List UInt8) (k t : Nat) :
    blockWord (front ++ List.replicate k 0) t = blockWord front t := by
  have same (i : Nat) : (front ++ List.replicate k 0).getD i 0 = front.getD i 0 := by
    by_cases inside : i < front.length
    · rw [List.getD_append _ _ _ _ inside]
    · rw [List.getD_append_right _ _ _ _ (Nat.le_of_not_lt inside),
        List.getD_eq_getElem?_getD, List.getElem?_getD_replicate_default_eq,
        List.getD_eq_default _ _ (Nat.le_of_not_lt inside)]
  simp only [blockWord, same]

/-- The words before the length. -/
theorem blockWord_front {front tail : List UInt8} (length : front.length = 56) {t : Nat}
    (lt : t < 14) : blockWord (front ++ tail) t = blockWord front t := by
  have same {i : Nat} (inside : i < 56) : (front ++ tail).getD i 0 = front.getD i 0 :=
    List.getD_append _ _ _ _ (by omega)
  simp only [blockWord]
  rw [same (by omega), same (by omega), same (by omega), same (by omega)]

/-- A word has the four bytes that it is shifted to. -/
theorem word_bytes (w : Word) :
    word (.ofBitVec ((w >>> 24).setWidth 8)) (.ofBitVec ((w >>> 16).setWidth 8))
      (.ofBitVec ((w >>> 8).setWidth 8)) (.ofBitVec (w.setWidth 8)) = w := by
  apply BitVec.eq_of_getLsbD_eq
  intro i inside
  simp only [word, BitVec.getLsbD_append, BitVec.getLsbD_setWidth, BitVec.getLsbD_ushiftRight]
  by_cases h₃ : i < 8
  · simp [h₃]
  · by_cases h₂ : i < 16
    · simp [h₃, show i - 8 < 8 by omega, show 8 + (i - 8) = i by omega]
    · by_cases h₁ : i < 24
      · simp [h₃, Nat.sub_sub, show ¬ i - 8 < 8 by omega, show i - 16 < 8 by omega,
          show 16 + (i - 16) = i by omega]
      · simp [h₃, Nat.sub_sub, show ¬ i - 8 < 8 by omega, show ¬ i - 16 < 8 by omega,
          show i - 24 < 8 by omega, show 24 + (i - 24) = i by omega]

theorem setWidth_byte (x : BitVec 64) {k : Nat} (le : k ≤ 24) :
    (x.setWidth 32 >>> k).setWidth 8 = (x >>> k).setWidth 8 := by
  apply BitVec.eq_of_getLsbD_eq
  intro i inside
  simp only [BitVec.getLsbD_setWidth, BitVec.getLsbD_ushiftRight]
  simp [show k + i < 32 by omega]

/-- The words of the length. -/
theorem blockWord_lengthBytes {front : List UInt8} (length : front.length = 56)
    (bits : BitVec 64) :
    blockWord (front ++ lengthBytes bits) 14 = (bits >>> 32).setWidth 32 ∧
      blockWord (front ++ lengthBytes bits) 15 = bits.setWidth 32 := by
  have byte {n : Nat} (lt : n < 8) : (front ++ lengthBytes bits).getD (56 + n) 0 =
      UInt8.ofBitVec ((bits >>> (8 * (7 - n))).setWidth 8) := by
    rw [List.getD_append_right _ _ _ _ (by omega), length, Nat.add_sub_cancel_left,
      lengthBytes, List.getD_eq_getElem?_getD, List.getElem?_map, List.getElem?_range lt]
    rfl
  have high : blockWord (front ++ lengthBytes bits) 14 =
      word (.ofBitVec ((bits >>> 32 >>> 24).setWidth 8)) (.ofBitVec ((bits >>> 32 >>> 16).setWidth 8))
        (.ofBitVec ((bits >>> 32 >>> 8).setWidth 8)) (.ofBitVec ((bits >>> 32).setWidth 8)) := by
    simp only [← BitVec.shiftRight_add]
    exact congr (congr (congrArg₂ word (byte (n := 0) (by decide)) (byte (n := 1) (by decide)))
      (byte (n := 2) (by decide))) (byte (n := 3) (by decide))
  have lower : blockWord (front ++ lengthBytes bits) 15 =
      word (.ofBitVec ((bits >>> 24).setWidth 8)) (.ofBitVec ((bits >>> 16).setWidth 8))
        (.ofBitVec ((bits >>> 8).setWidth 8)) (.ofBitVec ((bits >>> 0).setWidth 8)) :=
    congr (congr (congrArg₂ word (byte (n := 4) (by decide)) (byte (n := 5) (by decide)))
      (byte (n := 6) (by decide))) (byte (n := 7) (by decide))
  constructor
  · rw [high, ← word_bytes ((bits >>> 32).setWidth 32), setWidth_byte _ (by decide),
      setWidth_byte _ (by decide), setWidth_byte _ (by decide),
      BitVec.setWidth_setWidth_of_le _ (by decide)]
  · rw [lower, ← word_bytes (bits.setWidth 32), setWidth_byte _ (by decide),
      setWidth_byte _ (by decide), setWidth_byte _ (by decide),
      BitVec.setWidth_setWidth_of_le _ (by decide), BitVec.ushiftRight_zero]

/-- Digits of a number that zeros fill up. -/
theorem replicate_toDigits {k n : Nat} (lt : n < 16 ^ (k + 1)) :
    List.replicate (k + 1 - (Nat.toDigits 16 n).length) '0' ++ Nat.toDigits 16 n =
      digits (k + 1) n := by
  induction k generalizing n with
  | zero =>
    rw [Nat.toDigits_of_lt_base (by omega)]
    simp [digits, Nat.mod_eq_of_lt (show n < 16 by omega)]
  | succ k ih =>
    rw [digits, ← ih (Nat.div_lt_of_lt_mul (by rw [← Nat.pow_succ']; exact lt))]
    by_cases small : n < 16
    · rw [Nat.toDigits_of_lt_base small, Nat.div_eq_of_lt small, Nat.toDigits_zero,
        Nat.mod_eq_of_lt small]
      simp [List.replicate_succ']
    · rw [Nat.toDigits_of_base_le (by decide) (Nat.le_of_not_lt small), List.length_append,
        List.length_singleton, Nat.add_sub_add_right, List.append_assoc]

end SecureHash
