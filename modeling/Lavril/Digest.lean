import Lavril.Sha1
import Mathlib.Algebra.BigOperators.Group.List.Basic
import Mathlib.Data.BitVec

/-!
# What SHA1 computes

The lower halves of the words of `transform` are those of the compression
function, and `update` and `final` compress the padded message.
-/

namespace Lavril.Crypto

open SecureHash

namespace SHA1

/-- The 32 bits that count. -/
def low (word : uint32) : Word := word.setWidth 32

section words

variable (v w x y : uint32)

theorem low_add : low (v + w) = low v + low w := BitVec.setWidth_add v w (by decide)

theorem low_xor : low (v ^^^ w) = low v ^^^ low w := BitVec.setWidth_xor

theorem getLsbD_mask (i : Nat) : (0xffffffff : uint32).getLsbD i = decide (i < 32) := by
  have mask : (0xffffffff : uint32) = (BitVec.allOnes 32).setWidth 64 := by decide
  rw [mask, BitVec.getLsbD_setWidth, BitVec.getLsbD_allOnes]
  by_cases inside : i < 32
  · simp [inside, Nat.lt_trans inside (by decide : 32 < 64)]
  · simp [inside]

theorem low_rol {bits : Nat} (lt : bits < 32) :
    low (SHA1_ROL v bits) = (low v).rotateLeft bits := by
  apply BitVec.eq_of_getLsbD_eq
  intro i inside
  rw [BitVec.getLsbD_rotateLeft_of_le lt]
  simp only [low, SHA1_ROL, BitVec.getLsbD_setWidth, BitVec.getLsbD_or, BitVec.getLsbD_shiftLeft,
    BitVec.getLsbD_ushiftRight, BitVec.getLsbD_and, getLsbD_mask]
  by_cases wraps : i < bits
  · have kept : 32 - bits + i < 32 := by omega
    simp [wraps, kept, inside]
  · have gone : ¬ 32 - bits + i < 32 := by omega
    simp [wraps, gone, inside, Nat.lt_trans inside (by decide : 32 < 64),
      show i - bits < 32 by omega]

/-- The operations compute the functions of the rounds. -/
theorem low_mix {t : Nat} {operation : Operation}
    (function : operation = if t < 16 then .R0 else if t < 20 then .R1 else if t < 40 then .R2
      else if t < 60 then .R3 else .R4) :
    low (operation.mix w x y) = f t (low w) (low x) (low y) := by
  have chooses : low ((w &&& (x ^^^ y)) ^^^ y) = choose (low w) (low x) (low y) := by
    apply BitVec.eq_of_getLsbD_eq
    intro i inside
    simp only [low, choose, BitVec.getLsbD_setWidth, BitVec.getLsbD_xor, BitVec.getLsbD_and,
      BitVec.getLsbD_not]
    cases w.getLsbD i <;> cases x.getLsbD i <;> cases y.getLsbD i <;> simp [inside]
  have counts : low (((w ||| x) &&& y) ||| (w &&& x)) = majority (low w) (low x) (low y) := by
    apply BitVec.eq_of_getLsbD_eq
    intro i inside
    simp only [low, majority, BitVec.getLsbD_setWidth, BitVec.getLsbD_xor, BitVec.getLsbD_and,
      BitVec.getLsbD_or]
    cases w.getLsbD i <;> cases x.getLsbD i <;> cases y.getLsbD i <;> simp [inside]
  have adds : low (w ^^^ x ^^^ y) = parity (low w) (low x) (low y) := by
    simp only [low_xor, parity]
  subst function
  unfold f
  split_ifs <;> first | omega | assumption

end words

section rounds

/-- The variables in the order of their names. -/
def named : Nat → Var
  | 0 => .a
  | 1 => .b
  | 2 => .c
  | 3 => .d
  | _ => .e

/-- An operand of round `t`. The names go round. -/
def operand (t k : Nat) : Var := named ((4 * t + k) % 5)

/-- Round `t` of `rounds`. -/
def roundAt (t : Nat) : Round where
  operation := if t < 16 then .R0 else if t < 20 then .R1 else if t < 40 then .R2
    else if t < 60 then .R3 else .R4
  v := operand t 0
  w := operand t 1
  x := operand t 2
  y := operand t 3
  z := operand t 4
  i := t

theorem rounds_eq : rounds = (List.range 80).map roundAt := by decide

theorem named_ne {m n : Nat} (lt : m < 5) (lt' : n < 5) (ne : m ≠ n) : named m ≠ named n := by
  have distinct : ∀ m < 5, ∀ n < 5, m ≠ n → named m ≠ named n := by decide
  exact distinct m lt n lt' ne

theorem operand_ne (t : Nat) {k l : Nat} (lt : k < 5) (lt' : l < 5) (ne : k ≠ l) :
    operand t k ≠ operand t l :=
  named_ne (Nat.mod_lt _ (by decide)) (Nat.mod_lt _ (by decide)) (by omega)

theorem operand_succ_zero (t : Nat) : operand (t + 1) 0 = operand t 4 := by
  unfold operand
  congr 1

theorem operand_succ_succ (t k : Nat) : operand (t + 1) (k + 1) = operand t k := by
  unfold operand
  congr 1
  omega

/-- Before round `t`, the working variables are those of the compression function and the
block has the last sixteen words of the schedule. -/
structure Simulates (W : Nat → Word) (V : Hash) (t : Nat) (vars : Vars) (block : Block) :
    Prop where
  a : low (vars (operand t 0)) = V.a
  b : low (vars (operand t 1)) = V.b
  c : low (vars (operand t 2)) = V.c
  d : low (vars (operand t 3)) = V.d
  e : low (vars (operand t 4)) = V.e
  block : ∀ j, j < max t 16 → t ≤ j + 16 → low (block (Fin.ofNat 16 j)) = W j

variable {M : Nat → Word} {V : Hash} {t : Nat} {vars : Vars} {block : Block}

theorem fin_eq {i j : Nat} (mod : i % 16 = j % 16) : Fin.ofNat 16 i = Fin.ofNat 16 j :=
  Fin.ext mod

/-- The word of a round is that of the schedule, and the block keeps up with it. -/
theorem Simulates.word (sim : Simulates (schedule M) V t vars block) :
    low ((roundAt t).operation.word block t).1 = schedule M t ∧
      ∀ j, j < max (t + 1) 16 → t + 1 ≤ j + 16 →
        low (((roundAt t).operation.word block t).2 (Fin.ofNat 16 j)) = schedule M j := by
  by_cases first : t < 16
  · have operation : (roundAt t).operation = .R0 := if_pos first
    rw [operation]
    exact ⟨sim.block t (by omega) (by omega), fun j lt ge => sim.block j (by omega) (by omega)⟩
  · have stored : (roundAt t).operation.word block t = SHA1_BLK block t := by
      simp only [roundAt, if_neg first]
      split_ifs <;> rfl
    have words : low (SHA1_BLK block t).1 = schedule M t := by
      simp only [SHA1_BLK]
      rw [low_rol _ (by decide), low_xor, low_xor, low_xor, schedule_high first,
        fin_eq (i := t + 13) (j := t - 3) (by omega), fin_eq (i := t + 8) (j := t - 8) (by omega),
        fin_eq (i := t + 2) (j := t - 14) (by omega), fin_eq (i := t) (j := t - 16) (by omega),
        sim.block (t - 3) (by omega) (by omega), sim.block (t - 8) (by omega) (by omega),
        sim.block (t - 14) (by omega) (by omega), sim.block (t - 16) (by omega) (by omega)]
    rw [stored]
    refine ⟨words, fun j lt ge => ?_⟩
    by_cases new : j = t
    · subst new
      simpa only [SHA1_BLK, Function.update_self] using words
    · have apart : Fin.ofNat 16 j ≠ Fin.ofNat 16 t := by
        intro eq
        have mod : j % 16 = t % 16 := congrArg Fin.val eq
        omega
      simp only [SHA1_BLK, Function.update_of_ne apart]
      exact sim.block j (by omega) (by omega)

theorem roundAt_constant (t : Nat) : low (roundAt t).operation.constant = K t := by
  simp only [roundAt, K]
  split_ifs <;> first | omega | decide

/-- What round `r` adds up in the variable `z`. -/
def Round.sum (r : Round) (vars : Vars) (block : Block) : uint32 :=
  vars r.z + (r.operation.mix (vars r.w) (vars r.x) (vars r.y) + (r.operation.word block r.i).1 +
    r.operation.constant + SHA1_ROL (vars r.v) 5)

theorem Round.run_eq {r : Round} (apart : r.w ≠ r.z) : r.run vars block =
    (Function.update (Function.update vars r.z (r.sum vars block)) r.w (SHA1_ROL (vars r.w) 30),
      (r.operation.word block r.i).2) := by
  simp only [run, sum, Function.update_of_ne apart]

theorem sum_eq (e mixed word constant rotated : Word) :
    e + (mixed + word + constant + rotated) = rotated + mixed + e + constant + word := by
  ac_rfl

/-- The sum of a round is its first working variable. -/
theorem Simulates.sum (sim : Simulates (schedule M) V t vars block) :
    low ((roundAt t).sum vars block) = (SecureHash.round (schedule M) V t).a := by
  have mixed : low ((roundAt t).operation.mix (vars (roundAt t).w) (vars (roundAt t).x)
      (vars (roundAt t).y)) = f t V.b V.c V.d := by
    rw [low_mix _ _ _ (rfl : (roundAt t).operation = _), ← sim.b, ← sim.c, ← sim.d]
    rfl
  have word : low ((roundAt t).operation.word block (roundAt t).i).1 = schedule M t := sim.word.1
  have oldest : low (vars (roundAt t).z) = V.e := sim.e
  have newest : low (vars (roundAt t).v) = V.a := sim.a
  rw [Round.sum, low_add, low_add, low_add, low_add, mixed, word, roundAt_constant,
    low_rol _ (by decide), oldest, newest, sum_eq, SecureHash.round]

/-- One round. -/
theorem Simulates.run (sim : Simulates (schedule M) V t vars block) :
    Simulates (schedule M) (round (schedule M) V t) (t + 1) ((roundAt t).run vars block).1
      ((roundAt t).run vars block).2 := by
  have apart : (roundAt t).w ≠ (roundAt t).z := operand_ne t (by decide) (by decide) (by decide)
  rw [Round.run_eq apart]
  dsimp only
  have kept {k : Nat} (lt : k < 5) (other : k ≠ 1) (other' : k ≠ 4) :
      Function.update (Function.update vars (roundAt t).z ((roundAt t).sum vars block))
        (roundAt t).w (SHA1_ROL (vars (roundAt t).w) 30) (operand t k) = vars (operand t k) := by
    have apart : operand t k ≠ (roundAt t).w := operand_ne t lt (by decide) other
    have apart' : operand t k ≠ (roundAt t).z := operand_ne t lt (by decide) other'
    rw [Function.update_of_ne apart, Function.update_of_ne apart']
  refine ⟨?a, ?b, ?c, ?d, ?e, sim.word.2⟩
  case a =>
    have apart : operand t 4 ≠ (roundAt t).w := operand_ne t (by decide) (by decide) (by decide)
    have written : (roundAt t).z = operand t 4 := rfl
    rw [operand_succ_zero, Function.update_of_ne apart, written, Function.update_self, sim.sum]
  case b =>
    rw [operand_succ_succ, kept (by decide) (by decide) (by decide), sim.a, SecureHash.round]
  case c =>
    have written : (roundAt t).w = operand t 1 := rfl
    rw [operand_succ_succ, written, Function.update_self, low_rol _ (by decide), sim.b, SecureHash.round]
  case d =>
    rw [operand_succ_succ, kept (by decide) (by decide) (by decide), sim.c, SecureHash.round]
  case e =>
    rw [operand_succ_succ, kept (by decide) (by decide) (by decide), sim.d, SecureHash.round]

/-- The rounds up to round `n`. -/
theorem Simulates.runs (sim : Simulates (schedule M) V 0 vars block) (n : Nat) :
    Simulates (schedule M) (SecureHash.rounds (schedule M) V n) n
      (Round.runAll ((List.range n).map roundAt) vars block).1
      (Round.runAll ((List.range n).map roundAt) vars block).2 := by
  induction n with
  | zero => exact sim
  | succ n ih =>
    rw [List.range_succ, List.map_append, Round.runAll, List.foldl_append]
    exact ih.run

end rounds

section transform

local instance digestInts_neZero : NeZero DIGEST_INTS := ⟨by decide⟩

/-- What the lower halves of `digest` are. -/
def lowDigest (s : SHA1) : Hash :=
  ⟨low (s.digest 0), low (s.digest 1), low (s.digest 2), low (s.digest 3), low (s.digest 4)⟩

/-- `transform` compresses a block, whatever the upper halves are. -/
theorem transform_lowDigest (s : SHA1) (block : Block) :
    (s.transform block).1.lowDigest =
      compress s.lowDigest fun t => low (block (Fin.ofNat 16 t)) := by
  have start : Simulates (schedule fun t => low (block (Fin.ofNat 16 t))) s.lowDigest 0 s.vars
      block := by
    refine ⟨rfl, rfl, rfl, rfl, rfl, fun j lt _ => ?_⟩
    rw [schedule_low (by omega)]
  obtain ⟨a, b, c, d, e, -⟩ := start.runs 80
  rw [← rounds_eq] at a b c d e
  rw [compress, Hash.add, ← a, ← b, ← c, ← d, ← e]
  simp only [lowDigest, ← low_add]
  rfl

theorem transform_transforms (s : SHA1) (block : Block) :
    (s.transform block).1.transforms = s.transforms + 1 := rfl

theorem octets_eq_append (b₀ b₁ b₂ b₃ : BitVec 8) :
    b₃.setWidth 32 ||| b₂.setWidth 32 <<< 8 ||| b₁.setWidth 32 <<< 16 |||
      b₀.setWidth 32 <<< 24 = b₀ ++ b₁ ++ b₂ ++ b₃ := by
  apply BitVec.eq_of_getLsbD_eq
  intro i inside
  have above (b : BitVec 8) {j : Nat} (le : 8 ≤ j) : b.getLsbD j = false := b.getLsbD_of_ge j le
  simp only [BitVec.getLsbD_or, BitVec.getLsbD_shiftLeft, BitVec.getLsbD_setWidth,
    BitVec.getLsbD_append]
  by_cases h₃ : i < 8
  · simp [h₃, inside, Nat.lt_trans h₃ (by decide : 8 < 16), Nat.lt_trans h₃ (by decide : 8 < 24)]
  have out₃ := above b₃ (Nat.le_of_not_lt h₃)
  by_cases h₂ : i < 16
  · simp [h₃, h₂, inside, out₃, show i - 8 < 8 by omega, show i - 8 < 32 by omega,
      show i < 24 by omega]
  have out₂ := above b₂ (show 8 ≤ i - 8 by omega)
  by_cases h₁ : i < 24
  · simp [h₃, h₂, h₁, inside, out₃, out₂, Nat.sub_sub, show i - 8 < 32 by omega,
      show i - 16 < 32 by omega, show ¬ i - 8 < 8 by omega, show i - 16 < 8 by omega]
  have out₁ := above b₁ (show 8 ≤ i - 16 by omega)
  simp [h₃, h₂, h₁, inside, out₃, out₂, out₁, Nat.sub_sub, show i - 24 < 32 by omega,
    show ¬ i - 8 < 8 by omega, show ¬ i - 16 < 8 by omega]

theorem setWidth_signExtend (x : BitVec 32) : (x.signExtend 64).setWidth 32 = x := by
  apply BitVec.eq_of_getLsbD_eq
  intro i inside
  rw [BitVec.getLsbD_setWidth, BitVec.getLsbD_signExtend]
  simp [inside, Nat.lt_trans inside (by decide : 32 < 64)]

/-- The words of a buffer. -/
theorem low_buffer_to_block (buffer : List LVChar) {t : Nat} (lt : t < 16) :
    low (buffer_to_block buffer (Fin.ofNat 16 t)) = blockWord buffer t := by
  have index : (Fin.ofNat 16 t).val = t := Nat.mod_eq_of_lt lt
  simp only [low, buffer_to_block, index, blockWord, word, octet]
  rw [setWidth_signExtend, octets_eq_append]

theorem transform_buffer_to_block (s : SHA1) (buffer : List LVChar) :
    (s.transform (buffer_to_block buffer)).1.lowDigest =
      compress s.lowDigest (blockWord buffer) := by
  rw [transform_lowDigest]
  exact compress_congr fun t lt => low_buffer_to_block buffer lt

end transform

section update

variable {s : SHA1} {whole : List LVChar} {is : IStream}

/-- What is still to be read from a stream. -/
def IStream.rest (is : IStream) : List LVChar := if is.good then is.chars else []

/-- The blocks of `whole` have been compressed. -/
structure Absorbed (s : SHA1) (whole : List LVChar) : Prop where
  blocks : 64 ∣ whole.length
  digest : s.lowDigest = compressBlocks initial whole
  transforms : s.transforms = BitVec.ofNat 64 (whole.length / 64)

theorem reset_absorbed : Absorbed reset [] where
  blocks := Nat.dvd_zero 64
  digest := (compressBlocks_short (by decide)).symm
  transforms := rfl

theorem Absorbed.transform {block : List LVChar} (absorbed : Absorbed s whole)
    (length : block.length = 64) :
    Absorbed (s.transform (buffer_to_block block)).1 (whole ++ block) where
  blocks := by
    rw [List.length_append, length]
    exact Nat.dvd_add absorbed.blocks (Nat.dvd_refl 64)
  digest := by
    rw [transform_buffer_to_block, absorbed.digest, compressBlocks_append absorbed.blocks,
      compressBlocks_single length]
  transforms := by
    rw [transform_transforms, absorbed.transforms, List.length_append, length,
      Nat.add_div_right _ (by decide), BitVec.ofNat_add]
    rfl

theorem read_rest (is : IStream) (max : Nat) : (read is max).1 ++ (read is max).2.rest = is.rest := by
  cases good : is.good with
  | false => simp [read, IStream.rest, good]
  | true =>
    by_cases enough : max ≤ is.chars.length
    · simp [read, IStream.rest, good, enough]
    · simp [read, IStream.rest, good, enough, Nat.le_of_not_le enough]

/-- A stream that is still good has given all that was asked for. -/
theorem length_read {max : Nat} (pos : 0 < max) (is : IStream) :
    if (read is max).2.good then (read is max).1.length = max else (read is max).1.length < max := by
  cases good : is.good with
  | false => simpa [read, good] using pos
  | true =>
    by_cases enough : max ≤ is.chars.length
    · simp [read, good, enough]
    · simp [read, good, enough]

/-- The loop of `update` compresses the whole blocks. -/
theorem Absorbed.updateLoop (absorbed : Absorbed s whole)
    (length : if is.good then s.buffer.length = 64 else s.buffer.length < 64) :
    ∃ whole', Absorbed (s.updateLoop is).1 whole' ∧ (s.updateLoop is).1.buffer.length < 64 ∧
      whole' ++ (s.updateLoop is).1.buffer = whole ++ s.buffer ++ is.rest := by
  induction eq : (if is.good then is.chars.length + 1 else 0) using Nat.strong_induction_on
    generalizing s is whole with
  | _ n ih =>
    rw [SHA1.updateLoop]
    cases good : is.good with
    | false =>
      simp only [good, Bool.false_eq_true, if_false] at length
      exact ⟨whole, absorbed, length, by simp [IStream.rest, good]⟩
    | true =>
      simp only [good, if_true] at length eq ⊢
      have first : (read is BLOCK_BYTES).1 ++ (read is BLOCK_BYTES).2.rest = is.rest := read_rest is _
      have next := length_read (show 0 < BLOCK_BYTES by decide) is
      have smaller : (if (read is BLOCK_BYTES).2.good then
          (read is BLOCK_BYTES).2.chars.length + 1 else 0) < n := by
        simp only [read, good, if_true, List.length_drop, decide_eq_true_eq, BLOCK_BYTES,
          BLOCK_INTS]
        split <;> omega
      have compressed : Absorbed { (s.transform (buffer_to_block s.buffer)).1 with
          buffer := (read is BLOCK_BYTES).1 } (whole ++ s.buffer) :=
        ⟨(absorbed.transform length).blocks, (absorbed.transform length).digest,
          (absorbed.transform length).transforms⟩
      obtain ⟨whole', after, short, joined⟩ := ih _ smaller compressed next rfl
      exact ⟨whole', after, short, by rw [joined, List.append_assoc, first]⟩

/-- `SHA1` has taken in a text. -/
structure Taken (s : SHA1) (text : List LVChar) : Prop where
  absorbed : ∃ whole, Absorbed s whole ∧ whole ++ s.buffer = text
  short : s.buffer.length < 64

theorem reset_taken : Taken reset [] := ⟨⟨[], reset_absorbed, rfl⟩, by decide⟩

/-- `update` takes in what is to be read from the stream. -/
theorem Taken.update {text : List LVChar} (taken : Taken s text) (is : IStream) :
    Taken (s.update is) (text ++ is.rest) := by
  obtain ⟨⟨whole, absorbed, rfl⟩, short⟩ := taken
  have free : 0 < BLOCK_BYTES - s.buffer.length := Nat.sub_pos_of_lt short
  have first := read_rest is (BLOCK_BYTES - s.buffer.length)
  have filled := length_read free is
  have length : if (read is (BLOCK_BYTES - s.buffer.length)).2.good then
      (s.buffer ++ (read is (BLOCK_BYTES - s.buffer.length)).1).length = 64
      else (s.buffer ++ (read is (BLOCK_BYTES - s.buffer.length)).1).length < 64 := by
    have size : BLOCK_BYTES = 64 := rfl
    rw [List.length_append]
    generalize read is (BLOCK_BYTES - s.buffer.length) = taken at filled ⊢
    cases good : taken.2.good with
    | false =>
      simp only [good, Bool.false_eq_true, if_false] at filled ⊢
      omega
    | true =>
      simp only [good, if_true] at filled ⊢
      omega
  have start : Absorbed { s with
      buffer := s.buffer ++ (read is (BLOCK_BYTES - s.buffer.length)).1 } whole :=
    ⟨absorbed.blocks, absorbed.digest, absorbed.transforms⟩
  obtain ⟨whole', after, short', joined⟩ := start.updateLoop length
  refine ⟨⟨whole', after, ?_⟩, short'⟩
  rw [SHA1.update, joined, List.append_assoc, List.append_assoc, first, List.append_assoc]

theorem Taken.updates {text : List LVChar} (taken : Taken s text) (streams : List IStream) :
    Taken (streams.foldl SHA1.update s) (text ++ streams.flatMap IStream.rest) := by
  induction streams generalizing s text with
  | nil => simpa using taken
  | cons is streams ih =>
    rw [List.foldl_cons, List.flatMap_cons, ← List.append_assoc]
    exact ih (taken.update is)

end update

section final

variable {s : SHA1} {text : List LVChar}

/-- `total_bits`. -/
theorem Taken.total_bits (taken : Taken s text) :
    (s.transforms * BLOCK_BYTES + BitVec.ofNat 64 s.buffer.length) * 8 =
      BitVec.ofNat 64 (8 * text.length) := by
  obtain ⟨⟨whole, absorbed, rfl⟩, -⟩ := taken
  obtain ⟨blocks, eq⟩ := absorbed.blocks
  have size : (BLOCK_BYTES : BitVec 64) = BitVec.ofNat 64 64 := rfl
  rw [absorbed.transforms, size, List.length_append, eq, Nat.mul_div_cancel_left _ (by decide),
    ← BitVec.ofNat_mul, ← BitVec.ofNat_add]
  have eight : (8 : BitVec 64) = BitVec.ofNat 64 8 := rfl
  rw [eight, ← BitVec.ofNat_mul, Nat.mul_comm, Nat.mul_comm blocks 64]

/-- The last block of the padded message is compressed. -/
theorem transform_withLength (s : SHA1) (block : Block) (bits : BitVec 64) (front : List LVChar)
    (few : front.length ≤ 56)
    (words : ∀ t < 14, low (block (Fin.ofNat 16 t)) = blockWord front t) :
    (s.transform (withLength block bits)).1.lowDigest = compress s.lowDigest
      (blockWord (front ++ List.replicate (56 - front.length) 0 ++ lengthBytes bits)) := by
  rw [transform_lowDigest]
  refine compress_congr fun t lt => ?_
  have length : (front ++ List.replicate (56 - front.length) 0).length = 56 := by
    simp only [List.length_append, List.length_replicate]
    omega
  obtain ⟨high, lower⟩ := blockWord_lengthBytes length bits
  by_cases early : t < 14
  · have apart {n : Nat} (le : 14 ≤ n) (lt' : n < 16) : Fin.ofNat 16 t ≠ Fin.ofNat 16 n := by
      intro eq
      have mod : t % 16 = n % 16 := congrArg Fin.val eq
      omega
    have other : Fin.ofNat 16 t ≠ 14 := apart (n := 14) (by decide) (by decide)
    have other' : Fin.ofNat 16 t ≠ 15 := apart (n := 15) (by decide) (by decide)
    rw [blockWord_front length early, blockWord_zeros, withLength, Function.update_of_ne other,
      Function.update_of_ne other', words t early]
  · obtain rfl | rfl : t = 14 ∨ t = 15 := by omega
    · rw [high]
      rfl
    · rw [lower]
      rfl

/-- What is left to compress for `final`. -/
theorem Taken.sha1_eq (taken : Taken s text) : SecureHash.sha1 text =
    compressBlocks s.lowDigest (s.buffer ++ [0x80] ++
      List.replicate ((119 - s.buffer.length) % 64) 0 ++
      lengthBytes (BitVec.ofNat 64 (8 * text.length))) := by
  obtain ⟨⟨whole, absorbed, rfl⟩, short⟩ := taken
  have blocks := absorbed.blocks
  have left : (whole ++ s.buffer).length % 64 = s.buffer.length := by
    rw [List.length_append]
    omega
  rw [SecureHash.sha1, padding, left, absorbed.digest, List.append_assoc,
    compressBlocks_append blocks]
  simp only [List.append_assoc, List.nil_append, List.cons_append]

/-- The buffer as `final` pads it. -/
def padded (buffer : List LVChar) : List LVChar :=
  buffer ++ [0x80] ++ List.replicate (BLOCK_BYTES - (buffer ++ [0x80]).length) 0

theorem length_padded {buffer : List LVChar} (short : buffer.length < 64) :
    (padded buffer).length = 64 := by
  have size : BLOCK_BYTES = 64 := rfl
  rw [padded, List.length_append, List.length_replicate, List.length_append, List.length_singleton]
  omega

/-- The length fits into the block that the text ends in. -/
theorem Taken.final_short (taken : Taken s text) (few : s.buffer.length < 56) :
    (s.transform (withLength (buffer_to_block (padded s.buffer))
      (BitVec.ofNat 64 (8 * text.length)))).1.lowDigest = SecureHash.sha1 text := by
  have length : (s.buffer ++ [0x80]).length = s.buffer.length + 1 := List.length_append
  have zeros : (119 - s.buffer.length) % 64 = 56 - (s.buffer ++ [0x80]).length := by omega
  rw [transform_withLength s _ _ (s.buffer ++ [0x80]) (by omega) fun t early => ?words,
    taken.sha1_eq, zeros, compressBlocks_single]
  case words => rw [low_buffer_to_block _ (by omega), padded, blockWord_zeros]
  simp only [List.length_append, List.length_replicate, length_lengthBytes, List.length_singleton]
  omega

theorem clearBlock_early (block : Block) : ∀ t < 14, clearBlock block (Fin.ofNat 16 t) = 0 := by
  intro t early
  have index : (Fin.ofNat 16 t).val = t := Nat.mod_eq_of_lt (by omega)
  exact if_pos (by rw [index]; exact early)

/-- The length needs a block of its own. -/
theorem Taken.final_long (taken : Taken s text) (many : 56 ≤ s.buffer.length) {block : Block}
    (zero : ∀ t < 14, block (Fin.ofNat 16 t) = 0) :
    ((s.transform (buffer_to_block (padded s.buffer))).1.transform
      (withLength block (BitVec.ofNat 64 (8 * text.length)))).1.lowDigest =
      SecureHash.sha1 text := by
  have short := taken.short
  have length : (s.buffer ++ [0x80]).length = s.buffer.length + 1 := List.length_append
  have size : BLOCK_BYTES = 64 := rfl
  have zeros : (119 - s.buffer.length) % 64 = BLOCK_BYTES - (s.buffer ++ [0x80]).length + 56 := by
    omega
  rw [transform_withLength _ block _ [] (by decide) fun t early => ?words,
    transform_buffer_to_block, taken.sha1_eq, zeros, List.replicate_add, ← List.append_assoc,
    List.append_assoc _ (List.replicate 56 0), ← padded,
    compressBlocks_block (length_padded short), compressBlocks_single]
  case words =>
    rw [zero t early]
    simp only [blockWord, List.getD_nil]
    decide
  · rfl
  · simp

theorem hexWord_eq (word : uint32) :
    hexWord (word &&& 0xffffffff) = (digits 8 (low word).toNat).map _LC := by
  have masked : (word &&& 0xffffffff).toNat = (low word).toNat := by
    rw [BitVec.toNat_and, low, BitVec.toNat_setWidth]
    exact Nat.and_two_pow_sub_one_eq_mod word.toNat 32
  rw [hexWord, masked, ← replicate_toDigits (low word).isLt, List.map_append, List.map_replicate,
    List.length_map]

/-- What `final` prints. -/
theorem print_eq (s : SHA1) : ((List.finRange DIGEST_INTS).flatMap fun i =>
    hexWord (s.digest i &&& 0xffffffff)) = s.lowDigest.hex.map _LC := by
  simp only [hexWord_eq, Hash.hex, Hash.words, List.map_flatMap]
  rfl

theorem Taken.final (taken : Taken s text) :
    s.final = ((SecureHash.sha1 text).hex.map _LC, reset) := by
  have length : (s.buffer ++ [0x80]).length = s.buffer.length + 1 := List.length_append
  have size : BLOCK_BYTES = 64 := rfl
  by_cases few : s.buffer.length < 56
  · have fits : ¬ (s.buffer ++ [0x80]).length > BLOCK_BYTES - 8 := by omega
    rw [← taken.final_short few, ← print_eq, ← taken.total_bits]
    simp only [SHA1.final, if_neg fits, withLength, padded]
  · have long : (s.buffer ++ [0x80]).length > BLOCK_BYTES - 8 := by omega
    have early := clearBlock_early (s.transform (buffer_to_block (padded s.buffer))).2
    rw [← taken.final_long (Nat.le_of_not_lt few) early, ← print_eq, ← taken.total_bits]
    simp only [SHA1.final, if_pos long, withLength, padded]

/-- Whatever the stream is cut into, `final` gives the SHA-1 of what has been read from it and
leaves the object as it was at first. -/
theorem final_updates (streams : List IStream) :
    (streams.foldl SHA1.update reset).final =
      ((SecureHash.sha1 (streams.flatMap IStream.rest)).hex.map _LC, reset) := by
  have taken := reset_taken.updates streams
  rw [List.nil_append] at taken
  exact taken.final

end final

end SHA1

/-- A file that cannot be opened counts as an empty one. -/
theorem SHA1.from_file_eq (stream : IStream) :
    from_file stream = (SecureHash.sha1 stream.rest).hex.map _LC := by
  have once := final_updates [stream]
  simp only [List.flatMap_singleton] at once
  exact congrArg Prod.fst once

/-- `crypto_sha1` is the SHA-1 of the argument up to its first terminator. -/
theorem crypto_sha1_eq (s : List LVChar) :
    crypto_sha1 s = (SecureHash.sha1 (s.takeWhile (· ≠ 0))).hex.map _LC := by
  have once := SHA1.final_updates [⟨s.takeWhile (· ≠ 0), true⟩]
  simp only [List.flatMap_singleton, SHA1.IStream.rest, if_true] at once
  exact congrArg Prod.fst once

end Lavril.Crypto
