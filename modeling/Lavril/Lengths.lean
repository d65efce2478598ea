import Lavril.RoundTrip
import Mathlib.Algebra.Order.BigOperators.Group.List

/-!
# Lengths and counts in a stream

No length or count is checked before it is used; a wrong one shows only in the reads that
follow. What holds is said of streams that are loaded to the end: `Sound n p` says that
what `p` has used is no more than `n` and not negative, unless the data has run out with it.
-/

namespace Lavril
namespace Bytecode

open Codec

/-- The callback does not answer a request for a negative number of bytes with that
number while there is data. -/
def Honest (read : LVREADFUNC) : Prop :=
  ∀ (size : Int) (bs : List UInt8), size < 0 → (read size bs).1 = size → bs = []

/-- What the loader relies on in the callback. -/
structure Reliable (read : LVREADFUNC) : Prop where
  transfers : Transfers read
  shortens : Shortens read
  honest : Honest read

def Use.Fits (n : Nat) (u : Use) : Prop := 0 ≤ u.size ∧ u.size ≤ n

def Sound {α : Type} (n : Nat) (p : Loader α) : Prop :=
  ∀ s input a s' rest, input.length ≤ n → p s input = .ok a s' rest →
    rest.length ≤ input.length ∧ ((∀ u ∈ s'.uses, u ∈ s.uses ∨ u.Fits n) ∨ rest = [])

/-- Uses nothing. -/
def Quiet {α : Type} (p : Loader α) : Prop :=
  ∀ s input a s' rest, p s input = .ok a s' rest → s'.uses = s.uses ∧ rest.length ≤ input.length

namespace Quiet

variable {α γ : Type} {p : Loader α} {k : α → Loader γ} {n : Nat}

theorem pure (a : α) : Quiet (Pure.pure a : Loader α) := by
  intro s input b s' rest run
  obtain ⟨-, rfl, rfl⟩ := Reader.pure_eq_ok.mp run
  exact ⟨rfl, le_rfl⟩

theorem fail (e : String) : Quiet (Reader.fail e : Loader α) := by
  intro s input a s' rest run
  cases run

theorem bind (h : Quiet p) (h' : ∀ a, Quiet (k a)) : Quiet (p >>= k) := by
  intro s input b s' rest run
  obtain ⟨a, s₁, mid, first, second⟩ := Reader.bind_eq_ok.mp run
  obtain ⟨same, le⟩ := h s input a s₁ mid first
  obtain ⟨same', le'⟩ := h' a s₁ mid b s' rest second
  exact ⟨same'.trans same, le'.trans le⟩

theorem sound (h : Quiet p) : Sound n p := by
  intro s input a s' rest _ run
  obtain ⟨same, le⟩ := h s input a s' rest run
  refine ⟨le, Or.inl fun u mem => ?_⟩
  rw [same] at mem
  exact Or.inl mem

end Quiet

namespace Sound

variable {α γ : Type} {p : Loader α} {k : α → Loader γ} {n : Nat}

theorem bind (h : Sound n p) (h' : ∀ a, Sound n (k a)) : Sound n (p >>= k) := by
  intro s input b s' rest le run
  obtain ⟨a, s₁, mid, first, second⟩ := Reader.bind_eq_ok.mp run
  obtain ⟨shorter, uses⟩ := h s input a s₁ mid le first
  obtain ⟨shorter', uses'⟩ := h' a s₁ mid b s' rest (shorter.trans le) second
  refine ⟨shorter'.trans shorter, ?_⟩
  rcases uses' with uses' | out
  · rcases uses with uses | rfl
    · refine Or.inl fun u mem => ?_
      rcases uses' u mem with mem | fits
      · exact uses u mem
      · exact Or.inr fits
    · -- the data ran out before the second part
      exact Or.inr (List.length_eq_zero_iff.mp (Nat.le_zero.mp shorter'))
  · exact Or.inr out

theorem times (h : Sound n p) (count : Nat) : Sound n (Reader.times count p) := by
  induction count with
  | zero => exact (Quiet.pure []).sound
  | succ count ih => exact h.bind fun a => ih.bind fun l => (Quiet.pure (a :: l)).sound

theorem spends (h : ∀ n, Sound n p) : Spends p 0 := by
  intro s input a s' rest run
  exact (h input.length s input a s' rest le_rfl run).1

end Sound

/-- Has used nothing that is more than `n` or negative. -/
def Settled {α : Type} (n : Nat) (p : Loader α) : Prop :=
  ∀ s input a s' rest, input.length ≤ n → p s input = .ok a s' rest →
    ∀ u ∈ s'.uses, u ∈ s.uses ∨ u.Fits n

namespace Settled

variable {α γ : Type} {p : Loader α} {k : α → Loader γ} {n : Nat}

theorem fail (e : String) : Settled n (Reader.fail e : Loader α) := by
  intro s input a s' rest le run
  cases run

theorem bind (h : Quiet p) (h' : ∀ a, Settled n (k a)) : Settled n (p >>= k) := by
  intro s input b s' rest le run
  obtain ⟨a, s₁, mid, first, second⟩ := Reader.bind_eq_ok.mp run
  obtain ⟨same, shorter⟩ := h s input a s₁ mid first
  have uses := h' a s₁ mid b s' rest (shorter.trans le) second
  rwa [same] at uses

/-- What follows takes something in, so the data had not run out. -/
theorem of_sound (h : Sound n p) (quiet : ∀ a, Quiet (k a)) (spends : ∀ a, Spends (k a) 1) :
    Settled n (p >>= k) := by
  intro s input b s' rest le run
  obtain ⟨a, s₁, mid, first, second⟩ := Reader.bind_eq_ok.mp run
  rw [(quiet a s₁ mid b s' rest second).1]
  rcases (h s input a s₁ mid le first).2 with uses | rfl
  · exact uses
  · have more := spends a s₁ [] b s' rest second
    simp at more

end Settled

section

variable {read : LVREADFUNC} {n : Nat}

/-- What a successful read has taken off the data. -/
theorem safeRead_spec (reliable : Reliable read) {room : Nat} {size : Int} {s s' : Loading} {input bs rest : List UInt8}
    (run : safeRead read room size s input = .ok bs s' rest) :
    s' = s ∧ (0 ≤ size ∧ (rest.length : Int) + size = input.length ∨ size < 0 ∧ rest = []) := by
  unfold safeRead at run
  by_cases zero : size = 0
  · rw [if_pos zero] at run
    obtain ⟨-, rfl, rfl⟩ := Reader.pure_eq_ok.mp run
    exact ⟨rfl, Or.inl (by omega)⟩
  · rw [if_neg zero] at run
    obtain ⟨r, s₁, mid, got, answered⟩ := Reader.bind_eq_ok.mp run
    simp only [transfer] at got
    split at got
    · cases got
      split at answered
      · rename_i within answer
        obtain ⟨-, rfl, rfl⟩ := Reader.pure_eq_ok.mp answered
        refine ⟨rfl, ?_⟩
        rcases lt_or_gt_of_ne zero with neg | pos
        · rw [reliable.honest size input neg answer]
          exact Or.inr ⟨neg, List.drop_nil⟩
        · obtain ⟨k, rfl⟩ := Int.eq_ofNat_of_zero_le (le_of_lt pos)
          have enough : k ≤ input.length := by
            by_contra short
            have := (reliable.shortens k input (by omega)).1
            omega
          rw [reliable.transfers k input (by omega) enough, List.length_drop, List.length_take]
          omega
      · cases answered
    · cases got

theorem readBits_quiet (reliable : Reliable read) (w : Nat) : Quiet (readBits read w) := by
  intro s input a s' rest run
  obtain ⟨bs, s₁, mid, got, made⟩ := Reader.bind_eq_ok.mp run
  obtain ⟨-, rfl, rfl⟩ := Reader.pure_eq_ok.mp made
  obtain ⟨rfl, taken | taken⟩ := safeRead_spec reliable got
  · exact ⟨rfl, by omega⟩
  · omega

theorem readBits_spends (reliable : Reliable read) (w : Nat) : Spends (readBits read w) (w / 8) := by
  intro s input a s' rest run
  obtain ⟨bs, s₁, mid, got, made⟩ := Reader.bind_eq_ok.mp run
  obtain ⟨-, rfl, rfl⟩ := Reader.pure_eq_ok.mp made
  obtain ⟨-, taken | taken⟩ := safeRead_spec reliable got
  · omega
  · omega

theorem checkTag_quiet (reliable : Reliable read) (tag : BitVec 32) : Quiet (checkTag read tag) := by
  refine (readBits_quiet reliable 32).bind fun t => ?_
  split
  · exact Quiet.pure _
  · exact Quiet.fail _

theorem checkTag_spends (reliable : Reliable read) (tag : BitVec 32) : Spends (checkTag read tag) 4 := by
  refine (readBits_spends reliable 32).bind (n := 0) fun t => ?_
  split
  · exact Spends.pure _
  · exact Spends.fail _

theorem reallocScratchPad_quiet (newsize : Nat) : Quiet (reallocScratchPad newsize) := by
  intro s input a s' rest run
  obtain ⟨t, s₁, mid, here, updated⟩ := Reader.bind_eq_ok.mp run
  cases here
  split at updated
  · cases updated
    exact ⟨rfl, le_rfl⟩
  · cases updated

theorem getScratchPad_quiet (size : Int) : Quiet (getScratchPad size) := by
  intro s input a s' rest run
  obtain ⟨t, s₁, mid, here, sized⟩ := Reader.bind_eq_ok.mp run
  cases here
  split at sized
  · split at sized
    · exact reallocScratchPad_quiet _ s input a s' rest sized
    · split at sized
      · exact reallocScratchPad_quiet _ s input a s' rest sized
      · exact Quiet.pure _ s input a s' rest sized
  · exact Quiet.pure _ s input a s' rest sized

theorem createString_quiet (len : Int) : Quiet (createString len) := by
  intro s input a s' rest run
  obtain ⟨t, s₁, mid, here, made⟩ := Reader.bind_eq_ok.mp run
  cases here
  cases val : LVStringTable.bytes (s.scratchpad.takeWhile Option.isSome).reduceOption len with
  | none =>
    simp only [val] at made
    cases made
  | some val' =>
    simp only [val] at made
    exact Quiet.pure _ s input a s' rest made

theorem readScratchPad_spec (reliable : Reliable read) {size : Int} {s s' : Loading}
    {input rest : List UInt8} (run : readScratchPad read size s input = .ok ⟨⟩ s' rest) :
    s'.uses = s.uses ∧ (0 ≤ size ∧ (rest.length : Int) + size = input.length ∨ size < 0 ∧ rest = []) := by
  obtain ⟨t, s₁, mid, here, run⟩ := Reader.bind_eq_ok.mp run
  cases here
  obtain ⟨stored, s₂, mid, got, filled⟩ := Reader.bind_eq_ok.mp run
  obtain ⟨rfl, taken⟩ := safeRead_spec reliable got
  cases filled
  exact ⟨rfl, taken⟩

/-- A negative length is only passed when the data ends with it. -/
theorem readString_sound (reliable : Reliable read) (len : Int) : Sound n (readString read len) := by
  intro s input val s' rest le run
  obtain ⟨⟨⟩, s₁, mid₁, used₁, run⟩ := Reader.bind_eq_ok.mp run
  cases used₁
  obtain ⟨⟨⟩, s₂, mid₂, sized, run⟩ := Reader.bind_eq_ok.mp run
  obtain ⟨same₂, le₂⟩ := getScratchPad_quiet len _ _ _ _ _ sized
  obtain ⟨⟨⟩, s₃, mid₃, used₃, run⟩ := Reader.bind_eq_ok.mp run
  cases used₃
  obtain ⟨⟨⟩, s₄, mid₄, stored, run⟩ := Reader.bind_eq_ok.mp run
  obtain ⟨same₄, taken⟩ := readScratchPad_spec reliable stored
  obtain ⟨⟨⟩, s₅, mid₅, got, run⟩ := Reader.bind_eq_ok.mp run
  cases got
  obtain ⟨⟨⟩, s₆, mid₆, used₆, run⟩ := Reader.bind_eq_ok.mp run
  cases used₆
  obtain ⟨same₇, le₇⟩ := createString_quiet len _ _ _ _ _ run
  have uses : s'.uses = s.uses ++ [.scratchPad len] ++ [.read len] ++ [.string len] := by
    rw [same₇]
    simp only [same₄, same₂]
  rcases taken with ⟨nonneg, taken⟩ | ⟨neg, rfl⟩
  · refine ⟨by omega, Or.inl fun u mem => ?_⟩
    rw [uses] at mem
    simp only [List.mem_append, List.mem_singleton] at mem
    rcases mem with ((mem | rfl) | rfl) | rfl
    · exact Or.inl mem
    all_goals exact Or.inr ⟨nonneg, show len ≤ n by omega⟩
  · exact ⟨le₇.trans (Nat.zero_le _), Or.inr (List.length_eq_zero_iff.mp (Nat.le_zero.mp le₇))⟩

theorem readPayload_sound (reliable : Reliable read) (type : BitVec 32) :
    Sound n (readPayload read type) := by
  have bits := readBits_quiet reliable
  unfold readPayload
  split
  · exact (bits 64).sound.bind fun len => (readString_sound reliable len.toInt).bind fun val =>
      (Quiet.pure _).sound
  · split
    · exact ((bits 64).bind fun i => Quiet.pure _).sound
    · split
      · exact ((bits 64).bind fun i => Quiet.pure _).sound
      · split
        · exact ((bits 32).bind fun f => Quiet.pure _).sound
        · split
          · exact (Quiet.pure _).sound
          · exact (Quiet.fail _).sound

theorem readObject_sound (reliable : Reliable read) : Sound n (readObject read) :=
  (readBits_quiet reliable 32).sound.bind fun type => readPayload_sound reliable type

theorem readObject_spends (reliable : Reliable read) : Spends (readObject read) 4 :=
  (readBits_spends reliable 32).bind fun type => Sound.spends fun _ =>
    readPayload_sound reliable type

theorem readOuter_sound (reliable : Reliable read) : Sound n (readOuter read) :=
  (readBits_quiet reliable 64).sound.bind fun _ => (readObject_sound reliable).bind fun _ =>
    (readObject_sound reliable).bind fun _ => (Quiet.pure _).sound

theorem readOuter_spends (reliable : Reliable read) : Spends (readOuter read) 16 :=
  (readBits_spends reliable 64).bind fun _ => (readObject_spends reliable).bind (m := 4) fun _ =>
    (readObject_spends reliable).bind fun _ => Spends.pure _

theorem readLocal_sound (reliable : Reliable read) : Sound n (readLocal read) :=
  (readObject_sound reliable).bind fun _ => (((readBits_quiet reliable 64).bind fun _ =>
    (readBits_quiet reliable 64).bind fun _ => (readBits_quiet reliable 64).bind fun _ =>
    Quiet.pure _)).sound

theorem readLocal_spends (reliable : Reliable read) : Spends (readLocal read) 28 :=
  (readObject_spends reliable).bind fun _ => (readBits_spends reliable 64).bind fun _ =>
    (readBits_spends reliable 64).bind fun _ => (readBits_spends reliable 64).bind fun _ =>
    Spends.pure _

/-! ## Counts -/

theorem loop_spends {α : Type} {p : Loader α} (h : Spends p 1) (c : BitVec 64) :
    Spends (loop c p) c.toInt.toNat := by
  intro s input l s' rest run
  obtain ⟨⟨⟩, s₁, mid, used, run⟩ := Reader.bind_eq_ok.mp run
  cases used
  have := h.times c.toInt.toNat _ _ _ _ _ run
  omega

theorem loop_sound {α : Type} {p : Loader α} (h : Sound n p) (h' : Spends p 1) {c : BitVec 64}
    (nonneg : 0 ≤ c.toInt) : Sound n (loop c p) := by
  intro s input l s' rest le run
  have spent := loop_spends h' c s input l s' rest run
  obtain ⟨⟨⟩, s₁, mid, used, run⟩ := Reader.bind_eq_ok.mp run
  cases used
  obtain ⟨shorter, uses⟩ := h.times c.toInt.toNat _ _ _ _ _ le run
  refine ⟨shorter, uses.imp_left fun uses u mem => ?_⟩
  rcases uses u mem with mem | fits
  · rcases List.mem_append.mp mem with mem | mem
    · exact Or.inl mem
    · obtain rfl := List.mem_singleton.mp mem
      exact Or.inr ⟨nonneg, show c.toInt ≤ n by omega⟩
  · exact Or.inr fits

/-- What `Create` asks of the counts. -/
def Counts.Valid (c : Counts) : Prop := (∀ k ∈ c.all, 0 ≤ k) ∧ c.size < MEMORY

theorem block_size {size : Nat} {c : BitVec 64} (nonneg : 0 ≤ c.toInt)
    (fits : size * c.toInt < MEMORY) : (BitVec.ofNat 64 size * c).toInt = size * c.toInt := by
  obtain ⟨k, eq⟩ := Int.eq_ofNat_of_zero_le nonneg
  have counted : c = BitVec.ofNat 64 k := by
    apply BitVec.eq_of_toInt_eq
    rw [eq, toInt_ofNat]
    have := BitVec.toInt_lt (x := c)
    unfold MEMORY
    omega
  rw [eq] at fits ⊢
  rw [counted, ← BitVec.ofNat_mul, toInt_ofNat]
  · push_cast
    rfl
  · exact_mod_cast fits

theorem readBlock_spec (reliable : Reliable read) {α : Type} {size : Nat} {c : BitVec 64}
    {record : List UInt8 → α} {s s' : Loading} {input rest : List UInt8} {l : List α}
    (nonneg : 0 ≤ c.toInt) (fits : size * c.toInt < MEMORY)
    (run : readBlock read size c record s input = .ok l s' rest) :
    s'.uses = s.uses ++ [.read (size * c.toInt)] ∧
      (rest.length : Int) + size * c.toInt = input.length := by
  unfold readBlock at run
  simp only [block_size nonneg fits] at run
  obtain ⟨⟨⟩, s₁, mid, used, run⟩ := Reader.bind_eq_ok.mp run
  cases used
  obtain ⟨stored, s₂, mid, got, made⟩ := Reader.bind_eq_ok.mp run
  cases made
  obtain ⟨rfl, taken | taken⟩ := safeRead_spec reliable got
  · exact ⟨rfl, taken.2⟩
  · have := Int.mul_nonneg (Int.natCast_nonneg size) nonneg
    omega

theorem readBlock_sound (reliable : Reliable read) {α : Type} {size : Nat} {c : BitVec 64}
    (record : List UInt8 → α) (nonneg : 0 ≤ c.toInt) (fits : size * c.toInt < MEMORY) :
    Sound n (readBlock read size c record) := by
  intro s input l s' rest le run
  obtain ⟨uses, taken⟩ := readBlock_spec reliable nonneg fits run
  have bytes := Int.mul_nonneg (Int.natCast_nonneg size) nonneg
  refine ⟨by omega, Or.inl fun u mem => ?_⟩
  rw [uses] at mem
  rcases List.mem_append.mp mem with mem | mem
  · exact Or.inl mem
  · obtain rfl := List.mem_singleton.mp mem
    exact Or.inr ⟨bytes, show size * c.toInt ≤ n by omega⟩

theorem readBlock_spends (reliable : Reliable read) {α : Type} (size : Nat) {c : BitVec 64}
    (record : List UInt8 → α) (pos : 0 < size) (nonneg : 0 ≤ c.toInt)
    (fits : size * c.toInt < MEMORY) : Spends (readBlock read size c record) c.toInt.toNat := by
  intro s input l s' rest run
  obtain ⟨-, taken⟩ := readBlock_spec reliable nonneg fits run
  have least := Int.mul_le_mul_of_nonneg_right (show (1 : Int) ≤ size by omega) nonneg
  omega

def Counts.total (c : Counts) : Nat := (c.all.map Int.toNat).sum

theorem Counts.le_total {c : Counts} {k : Int} (count : k ∈ c.all) : k ≤ c.total :=
  (Int.self_le_toNat k).trans (Int.ofNat_le.mpr
    (List.le_sum_of_mem (List.mem_map_of_mem count)))

theorem Counts.Valid.nonneg {c : Counts} (valid : c.Valid) :
    0 ≤ c.nliterals.toInt ∧ 0 ≤ c.nparameters.toInt ∧ 0 ≤ c.noutervalues.toInt ∧
    0 ≤ c.nlocalvarinfos.toInt ∧ 0 ≤ c.nlineinfos.toInt ∧ 0 ≤ c.ndefaultparams.toInt ∧
    0 ≤ c.ninstructions.toInt ∧ 0 ≤ c.nfunctions.toInt := by
  simpa [Counts.all] using valid.1

theorem loadArrays_sound (reliable : Reliable read) {nested : Loader FunctionPrototype}
    (sound : Sound n nested) (spends : Spends nested 1) (sourcename name : Object) {c : Counts}
    (valid : c.Valid) : Sound n (loadArrays read nested sourcename name c) := by
  obtain ⟨literals, parameters, outervalues, localvarinfos, lineinfos, defaultparams, instructions,
    functions⟩ := valid.nonneg
  have fits := valid.2
  unfold Counts.size at fits
  have part := (checkTag_quiet reliable CLOSURESTREAM_PART).sound (n := n)
  have object := (readObject_spends reliable).weaken (m := 1) (by omega)
  refine part.bind fun _ => ?_
  refine (loop_sound (readObject_sound reliable) object literals).bind fun _ => part.bind fun _ => ?_
  refine (loop_sound (readObject_sound reliable) object parameters).bind fun _ => part.bind fun _ => ?_
  refine (loop_sound (readOuter_sound reliable) ((readOuter_spends reliable).weaken (by omega))
    outervalues).bind fun _ => part.bind fun _ => ?_
  refine (loop_sound (readLocal_sound reliable) ((readLocal_spends reliable).weaken (by omega))
    localvarinfos).bind fun _ => part.bind fun _ => ?_
  refine (readBlock_sound reliable _ lineinfos (by push_cast; omega)).bind fun _ =>
    part.bind fun _ => ?_
  refine (readBlock_sound reliable _ defaultparams (by push_cast; omega)).bind fun _ =>
    part.bind fun _ => ?_
  refine (readBlock_sound reliable _ instructions (by push_cast; omega)).bind fun _ =>
    part.bind fun _ => ?_
  refine (loop_sound sound spends functions).bind fun _ => ?_
  exact ((readBits_quiet reliable 64).bind fun _ => (readBits_quiet reliable 8).bind fun _ =>
    (readBits_quiet reliable 64).bind fun _ => Quiet.pure _).sound

theorem loadArrays_spends (reliable : Reliable read) {nested : Loader FunctionPrototype}
    (spends : Spends nested 1) (sourcename name : Object) {c : Counts} (valid : c.Valid) :
    Spends (loadArrays read nested sourcename name c) c.total := by
  obtain ⟨literals, parameters, outervalues, localvarinfos, lineinfos, defaultparams, instructions,
    functions⟩ := valid.nonneg
  have fits := valid.2
  unfold Counts.size at fits
  have part := checkTag_spends reliable CLOSURESTREAM_PART
  have object := (readObject_spends reliable).weaken (m := 1) (by omega)
  have all := part.bind fun _ => (loop_spends object c.nliterals).bind fun literals =>
    part.bind fun _ => (loop_spends object c.nparameters).bind fun parameters =>
    part.bind fun _ => (loop_spends ((readOuter_spends reliable).weaken (by omega))
      c.noutervalues).bind fun outervalues =>
    part.bind fun _ => (loop_spends ((readLocal_spends reliable).weaken (by omega))
      c.nlocalvarinfos).bind fun localvarinfos =>
    part.bind fun _ => (readBlock_spends reliable 16 LVLineInfo.ofBytes (by omega) lineinfos
      (by push_cast; omega)).bind fun lineinfos =>
    part.bind fun _ => (readBlock_spends reliable 8 (Bytes.toBits 64) (by omega) defaultparams
      (by push_cast; omega)).bind fun defaultparams =>
    part.bind fun _ => (readBlock_spends reliable 8 LVInstruction.ofBytes (by omega) instructions
      (by push_cast; omega)).bind fun instructions =>
    part.bind fun _ => (loop_spends spends c.nfunctions).bind fun functions =>
    (readBits_spends reliable 64).bind fun stacksize => (readBits_spends reliable 8).bind
      fun bgenerator => (readBits_spends reliable 64).bind fun varparams =>
    Spends.pure (⟨sourcename, name, stacksize, bgenerator ≠ 0, varparams, localvarinfos, lineinfos,
      literals, parameters, functions, outervalues, defaultparams, instructions⟩ : FunctionPrototype)
  have sum : ∀ i j k l m n o p : Nat, i + (j + (k + (l + (m + (n + (o + p)))))) ≤ 4 + (i + (4 + (j +
      (4 + (k + (4 + (l + (4 + (m + (4 + (n + (4 + (o + (4 + (p + (8 + (1 + (8 + 0)))))))))))))))))) := by
    omega
  exact Spends.weaken all (sum _ _ _ _ _ _ _ _)

theorem create_spec {c : Counts} {s s' : Loading} {input rest : List UInt8}
    (run : create c s input = .ok ⟨⟩ s' rest) :
    c.Valid ∧ s'.uses = s.uses ++ c.all.map Use.allocate ∧ rest = input := by
  obtain ⟨⟨⟩, s₁, mid, used, run⟩ := Reader.bind_eq_ok.mp run
  cases used
  split at run
  · rename_i valid
    cases run
    exact ⟨valid, rfl, rfl⟩
  · cases run

/-- The arrays that are loaded are what the counts of the block are held to. -/
theorem create_sound (reliable : Reliable read) {nested : Loader FunctionPrototype}
    (sound : Sound n nested) (spends : Spends nested 1) (sourcename name : Object) (c : Counts) :
    Sound n (create c >>= fun _ => loadArrays read nested sourcename name c) := by
  intro s input f s' rest le run
  obtain ⟨⟨⟩, s₁, mid, created, loaded⟩ := Reader.bind_eq_ok.mp run
  obtain ⟨valid, allocated, rfl⟩ := create_spec created
  have spent := loadArrays_spends reliable spends sourcename name valid _ _ _ _ _ loaded
  obtain ⟨shorter, uses⟩ :=
    loadArrays_sound reliable sound spends sourcename name valid _ _ _ _ _ le loaded
  refine ⟨shorter, uses.imp_left fun uses u mem => ?_⟩
  rcases uses u mem with mem | fits
  · rw [allocated] at mem
    rcases List.mem_append.mp mem with mem | mem
    · exact Or.inl mem
    · obtain ⟨k, count, rfl⟩ := List.mem_map.mp mem
      have := Counts.le_total count
      exact Or.inr ⟨valid.1 k count, show k ≤ n by omega⟩
  · exact Or.inr fits

theorem readCounts_quiet (reliable : Reliable read) : Quiet (readCounts read) := by
  have bits := readBits_quiet reliable 64
  exact bits.bind fun _ => bits.bind fun _ => bits.bind fun _ => bits.bind fun _ =>
    bits.bind fun _ => bits.bind fun _ => bits.bind fun _ => bits.bind fun _ => Quiet.pure _

theorem load_sound (reliable : Reliable read) (depth : Nat) :
    (∀ n, Sound n (load read depth)) ∧ Spends (load read depth) 1 := by
  induction depth with
  | zero =>
    constructor
    · intro n s input f s' rest le run
      cases run
    · intro s input f s' rest run
      cases run
  | succ depth ih =>
    have part := checkTag_quiet reliable CLOSURESTREAM_PART
    have after : ∀ n, Sound n (readObject read >>= fun sourcename => readObject read >>= fun name =>
        checkTag read CLOSURESTREAM_PART >>= fun _ => readCounts read >>= fun c =>
        create c >>= fun _ => loadArrays read (load read depth) sourcename name c) := fun n =>
      (readObject_sound reliable).bind fun sourcename => (readObject_sound reliable).bind fun name =>
        part.sound.bind fun _ => (readCounts_quiet reliable).sound.bind fun c =>
        create_sound reliable (ih.1 n) ih.2 sourcename name c
    constructor
    · exact fun n => part.sound.bind fun _ => after n
    · have spent := (checkTag_spends reliable CLOSURESTREAM_PART).bind fun _ => Sound.spends after
      exact spent.weaken (by omega)

/-- The tag at the end is there only if the data has not run out. -/
theorem loadClosure_settled (reliable : Reliable read) (depth : Nat) :
    Settled n (loadClosure read depth) := by
  have tag := fun t => checkTag_quiet reliable t
  have tail : ∀ func : FunctionPrototype, Spends (checkTag read CLOSURESTREAM_TAIL >>= fun _ =>
      (pure func : Loader FunctionPrototype)) 1 := fun func =>
    ((checkTag_spends reliable CLOSURESTREAM_TAIL).bind fun _ => Spends.pure func).weaken (by omega)
  exact .bind (tag _) fun _ => .bind (tag _) fun _ => .bind (tag _) fun _ => .bind (tag _) fun _ =>
    .of_sound ((load_sound reliable depth).1 n)
      (fun func => (tag CLOSURESTREAM_TAIL).bind fun _ => Quiet.pure func) tail

theorem readStreamTag_quiet : Quiet (readStreamTag read) := by
  intro s input tag s' rest run
  obtain ⟨r, s₁, mid, got, run⟩ := Reader.bind_eq_ok.mp run
  simp only [transfer] at got
  split at got
  · cases got
    split at run
    · cases run
    · cases run
      exact ⟨rfl, by simp⟩
  · cases got

theorem file_read_honest : Honest file_read := by
  intro size bs neg answer
  unfold file_read at answer
  simp only [if_neg (not_le.mpr neg)] at answer
  split at answer
  · dsimp only at answer
    omega
  · rename_i zero
    exact List.length_eq_zero_iff.mp (not_not.mp zero)

theorem file_read_reliable : Reliable file_read :=
  ⟨file_read_transfers, file_read_shortens, file_read_honest⟩

end

end Bytecode
end Lavril
