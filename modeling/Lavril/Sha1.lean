import Lavril.Lexer
import Lavril.Strings
import Lavril.SecureHash
import Mathlib.Data.Fin.VecNotation
import Mathlib.Logic.Function.Basic

/-!
# SHA-1

The words of `SHA1` have 64 bits; what is above the lower 32 of them is not
removed before the digest is printed.
-/

namespace Lavril.Crypto

namespace SHA1

/-- `unsigned long int`. -/
abbrev uint32 := BitVec 64

abbrev DIGEST_INTS : Nat := 5
abbrev BLOCK_INTS : Nat := 16
abbrev BLOCK_BYTES : Nat := BLOCK_INTS * 4

abbrev Block := Fin BLOCK_INTS → uint32

end SHA1

structure SHA1 where
  digest : Fin SHA1.DIGEST_INTS → SHA1.uint32
  buffer : List LVChar
  transforms : BitVec 64

namespace SHA1

def SHA1_ROL (value : uint32) (bits : Nat) : uint32 :=
  (value <<< bits) ||| ((value &&& 0xffffffff) >>> (32 - bits))

/-- The block and the word that has been stored in it. -/
def SHA1_BLK (block : Block) (i : Nat) : uint32 × Block :=
  let word := SHA1_ROL (block (Fin.ofNat 16 (i + 13)) ^^^ block (Fin.ofNat 16 (i + 8)) ^^^
    block (Fin.ofNat 16 (i + 2)) ^^^ block (Fin.ofNat 16 i)) 1
  (word, Function.update block (Fin.ofNat 16 i) word)

/-! ## The rounds -/

inductive Operation where
  | R0 | R1 | R2 | R3 | R4
  deriving DecidableEq

/-- The working variables of `transform`. -/
inductive Var where
  | a | b | c | d | e
  deriving DecidableEq

abbrev Vars := Var → uint32

namespace Operation

def mix (w x y : uint32) : Operation → uint32
  | R0 => (w &&& (x ^^^ y)) ^^^ y
  | R1 => (w &&& (x ^^^ y)) ^^^ y
  | R2 => w ^^^ x ^^^ y
  | R3 => ((w ||| x) &&& y) ||| (w &&& x)
  | R4 => w ^^^ x ^^^ y

def constant : Operation → uint32
  | R0 => 0x5a827999
  | R1 => 0x5a827999
  | R2 => 0x6ed9eba1
  | R3 => 0x8f1bbcdc
  | R4 => 0xca62c1d6

/-- The word of the block, which `R0` takes as it is. -/
def word (block : Block) (i : Nat) : Operation → uint32 × Block
  | R0 => (block (Fin.ofNat 16 i), block)
  | _ => SHA1_BLK block i

end Operation

/-- A round with its operands. -/
structure Round where
  operation : Operation
  (v w x y z : Var)
  i : Nat
  deriving DecidableEq

def Round.run (r : Round) (vars : Vars) (block : Block) : Vars × Block :=
  let taken := r.operation.word block r.i
  let mixed := r.operation.mix (vars r.w) (vars r.x) (vars r.y)
  let vars := Function.update vars r.z
    (vars r.z + (mixed + taken.1 + r.operation.constant + SHA1_ROL (vars r.v) 5))
  (Function.update vars r.w (SHA1_ROL (vars r.w) 30), taken.2)

/-- The loop of `transform`, unrolled. -/
def rounds : List Round := [
  ⟨.R0, .a, .b, .c, .d, .e, 0⟩, ⟨.R0, .e, .a, .b, .c, .d, 1⟩, ⟨.R0, .d, .e, .a, .b, .c, 2⟩,
  ⟨.R0, .c, .d, .e, .a, .b, 3⟩, ⟨.R0, .b, .c, .d, .e, .a, 4⟩, ⟨.R0, .a, .b, .c, .d, .e, 5⟩,
  ⟨.R0, .e, .a, .b, .c, .d, 6⟩, ⟨.R0, .d, .e, .a, .b, .c, 7⟩, ⟨.R0, .c, .d, .e, .a, .b, 8⟩,
  ⟨.R0, .b, .c, .d, .e, .a, 9⟩, ⟨.R0, .a, .b, .c, .d, .e, 10⟩, ⟨.R0, .e, .a, .b, .c, .d, 11⟩,
  ⟨.R0, .d, .e, .a, .b, .c, 12⟩, ⟨.R0, .c, .d, .e, .a, .b, 13⟩, ⟨.R0, .b, .c, .d, .e, .a, 14⟩,
  ⟨.R0, .a, .b, .c, .d, .e, 15⟩, ⟨.R1, .e, .a, .b, .c, .d, 16⟩, ⟨.R1, .d, .e, .a, .b, .c, 17⟩,
  ⟨.R1, .c, .d, .e, .a, .b, 18⟩, ⟨.R1, .b, .c, .d, .e, .a, 19⟩, ⟨.R2, .a, .b, .c, .d, .e, 20⟩,
  ⟨.R2, .e, .a, .b, .c, .d, 21⟩, ⟨.R2, .d, .e, .a, .b, .c, 22⟩, ⟨.R2, .c, .d, .e, .a, .b, 23⟩,
  ⟨.R2, .b, .c, .d, .e, .a, 24⟩, ⟨.R2, .a, .b, .c, .d, .e, 25⟩, ⟨.R2, .e, .a, .b, .c, .d, 26⟩,
  ⟨.R2, .d, .e, .a, .b, .c, 27⟩, ⟨.R2, .c, .d, .e, .a, .b, 28⟩, ⟨.R2, .b, .c, .d, .e, .a, 29⟩,
  ⟨.R2, .a, .b, .c, .d, .e, 30⟩, ⟨.R2, .e, .a, .b, .c, .d, 31⟩, ⟨.R2, .d, .e, .a, .b, .c, 32⟩,
  ⟨.R2, .c, .d, .e, .a, .b, 33⟩, ⟨.R2, .b, .c, .d, .e, .a, 34⟩, ⟨.R2, .a, .b, .c, .d, .e, 35⟩,
  ⟨.R2, .e, .a, .b, .c, .d, 36⟩, ⟨.R2, .d, .e, .a, .b, .c, 37⟩, ⟨.R2, .c, .d, .e, .a, .b, 38⟩,
  ⟨.R2, .b, .c, .d, .e, .a, 39⟩, ⟨.R3, .a, .b, .c, .d, .e, 40⟩, ⟨.R3, .e, .a, .b, .c, .d, 41⟩,
  ⟨.R3, .d, .e, .a, .b, .c, 42⟩, ⟨.R3, .c, .d, .e, .a, .b, 43⟩, ⟨.R3, .b, .c, .d, .e, .a, 44⟩,
  ⟨.R3, .a, .b, .c, .d, .e, 45⟩, ⟨.R3, .e, .a, .b, .c, .d, 46⟩, ⟨.R3, .d, .e, .a, .b, .c, 47⟩,
  ⟨.R3, .c, .d, .e, .a, .b, 48⟩, ⟨.R3, .b, .c, .d, .e, .a, 49⟩, ⟨.R3, .a, .b, .c, .d, .e, 50⟩,
  ⟨.R3, .e, .a, .b, .c, .d, 51⟩, ⟨.R3, .d, .e, .a, .b, .c, 52⟩, ⟨.R3, .c, .d, .e, .a, .b, 53⟩,
  ⟨.R3, .b, .c, .d, .e, .a, 54⟩, ⟨.R3, .a, .b, .c, .d, .e, 55⟩, ⟨.R3, .e, .a, .b, .c, .d, 56⟩,
  ⟨.R3, .d, .e, .a, .b, .c, 57⟩, ⟨.R3, .c, .d, .e, .a, .b, 58⟩, ⟨.R3, .b, .c, .d, .e, .a, 59⟩,
  ⟨.R4, .a, .b, .c, .d, .e, 60⟩, ⟨.R4, .e, .a, .b, .c, .d, 61⟩, ⟨.R4, .d, .e, .a, .b, .c, 62⟩,
  ⟨.R4, .c, .d, .e, .a, .b, 63⟩, ⟨.R4, .b, .c, .d, .e, .a, 64⟩, ⟨.R4, .a, .b, .c, .d, .e, 65⟩,
  ⟨.R4, .e, .a, .b, .c, .d, 66⟩, ⟨.R4, .d, .e, .a, .b, .c, 67⟩, ⟨.R4, .c, .d, .e, .a, .b, 68⟩,
  ⟨.R4, .b, .c, .d, .e, .a, 69⟩, ⟨.R4, .a, .b, .c, .d, .e, 70⟩, ⟨.R4, .e, .a, .b, .c, .d, 71⟩,
  ⟨.R4, .d, .e, .a, .b, .c, 72⟩, ⟨.R4, .c, .d, .e, .a, .b, 73⟩, ⟨.R4, .b, .c, .d, .e, .a, 74⟩,
  ⟨.R4, .a, .b, .c, .d, .e, 75⟩, ⟨.R4, .e, .a, .b, .c, .d, 76⟩, ⟨.R4, .d, .e, .a, .b, .c, 77⟩,
  ⟨.R4, .c, .d, .e, .a, .b, 78⟩, ⟨.R4, .b, .c, .d, .e, .a, 79⟩]

def Round.runAll (rounds : List Round) (vars : Vars) (block : Block) : Vars × Block :=
  rounds.foldl (fun s r => r.run s.1 s.2) (vars, block)

def vars (s : SHA1) : Vars
  | .a => s.digest 0
  | .b => s.digest 1
  | .c => s.digest 2
  | .d => s.digest 3
  | .e => s.digest 4

def transform (s : SHA1) (block : Block) : SHA1 × Block :=
  let (vars, block) := Round.runAll rounds s.vars block
  let digest := s.digest
  let digest := Function.update digest 0 (digest 0 + vars .a)
  let digest := Function.update digest 1 (digest 1 + vars .b)
  let digest := Function.update digest 2 (digest 2 + vars .c)
  let digest := Function.update digest 3 (digest 3 + vars .d)
  let digest := Function.update digest 4 (digest 4 + vars .e)
  ({ s with digest := digest, transforms := s.transforms + 1 }, block)

/-! ## Streams -/

/-- `std::istream`. -/
structure IStream where
  chars : List LVChar
  good : Bool

/-- `read`, with what it assigns to the string. -/
def read (is : IStream) (max : Nat) : List LVChar × IStream :=
  if is.good then (is.chars.take max, ⟨is.chars.drop max, max ≤ is.chars.length⟩) else ([], is)

/-- A character with `& 0xff`, an `int`. -/
def octet (buffer : List LVChar) (i : Nat) : BitVec 32 := (buffer.getD i 0).toBitVec.setWidth 32

/-- The `int` keeps its sign when it is stored. -/
def buffer_to_block (buffer : List LVChar) : Block := fun i =>
  (octet buffer (4 * i + 3) ||| octet buffer (4 * i + 2) <<< 8 |||
    octet buffer (4 * i + 1) <<< 16 ||| octet buffer (4 * i) <<< 24).signExtend 64

def reset : SHA1 where
  digest := ![0x67452301, 0xefcdab89, 0x98badcfe, 0x10325476, 0xc3d2e1f0]
  buffer := []
  transforms := 0

/-- The loop of `update`. -/
def updateLoop (s : SHA1) (is : IStream) : SHA1 × IStream :=
  if is.good then
    let s := (s.transform (buffer_to_block s.buffer)).1
    let next := read is BLOCK_BYTES
    updateLoop { s with buffer := next.1 } next.2
  else (s, is)
  termination_by if is.good then is.chars.length + 1 else 0
  decreasing_by
    rename_i good
    simp only [read, good, if_true, List.length_drop, decide_eq_true_eq, BLOCK_BYTES, BLOCK_INTS]
    split <;> omega

def update (s : SHA1) (is : IStream) : SHA1 :=
  let (rest_of_buffer, is) := read is (BLOCK_BYTES - s.buffer.length)
  ({ s with buffer := s.buffer ++ rest_of_buffer }.updateLoop is).1

def updateString (s : SHA1) (string : List LVChar) : SHA1 := s.update ⟨string, true⟩

/-- What `std::hex` prints in a field of eight characters that `0` fills. -/
def hexWord (word : uint32) : List LVChar :=
  let digits := (Nat.toDigits 16 word.toNat).map _LC
  List.replicate (8 - digits.length) (_LC '0') ++ digits

/-- The loop of `final` over all words but the last two. -/
def clearBlock (block : Block) : Block := fun i => if i.val < BLOCK_INTS - 2 then 0 else block i

/-- The number of bits in the last two words of a block. -/
def withLength (block : Block) (total_bits : BitVec 64) : Block :=
  let block := Function.update block 15 total_bits
  Function.update block 14 (total_bits >>> 32)

/-- The text, and the object after `reset`. -/
def final (s : SHA1) : List LVChar × SHA1 :=
  let total_bits : BitVec 64 := (s.transforms * BLOCK_BYTES + BitVec.ofNat 64 s.buffer.length) * 8
  let buffer := s.buffer ++ [0x80]
  let orig_size := buffer.length
  let buffer := buffer ++ List.replicate (BLOCK_BYTES - buffer.length) 0
  let block := buffer_to_block buffer
  let (s, block) :=
    if orig_size > BLOCK_BYTES - 8 then
      let (s, block) := s.transform block
      (s, clearBlock block)
    else (s, block)
  let (s, _) := s.transform (withLength block total_bits)
  ((List.finRange DIGEST_INTS).flatMap fun i => hexWord (s.digest i &&& 0xffffffff), reset)

end SHA1

open SHA1

def sha1 (string : List LVChar) : List LVChar := (reset.updateString string).final.1

/-- `from_file`. The stream is in a bad state when the file has not been opened. -/
def SHA1.from_file (stream : IStream) : List LVChar := (reset.update stream).final.1

/-- `crypto_sha1`, whose argument ends at its first terminator. -/
def crypto_sha1 (s : List LVChar) : List LVChar := sha1 (s.takeWhile (· ≠ 0))

end Lavril.Crypto
