import Lavril.BlobStreams
import Mathlib.Tactic.IntervalCases

/-!
# Swapping the bytes of words

The methods of a blob, which swap in its buffer, beside the global functions, which swap
in an integer.
-/

set_option linter.style.nameCheck false

namespace Lavril

def __swap_dword (n : BitVec 32) : BitVec 32 :=
  ((n &&& 0xFF000000) >>> 24) ||| ((n &&& 0x00FF0000) >>> 8) ||| ((n &&& 0x0000FF00) <<< 8) |||
    ((n &&& 0x000000FF) <<< 24)

def __swap_word (n : BitVec 16) : BitVec 16 :=
  (((n.setWidth 32 >>> 8) &&& 0x00FF) ||| ((n.setWidth 32 <<< 8) &&& 0xFF00)).setWidth 16

/-- A `short` is an `int` with a sign when it is shifted. -/
def _g_blob_swap2 (i : BitVec 64) : BitVec 64 :=
  let s : BitVec 32 := (i.setWidth 16).signExtend 32
  ((s <<< 8) ||| (s.sshiftRight 8 &&& 0x00FF)).signExtend 64

def _g_blob_swap4 (i : BitVec 64) : BitVec 64 := (__swap_dword (i.setWidth 32)).setWidth 64

/-! ## One word -/

theorem swap_word_bytes (x y : UInt8) :
    __swap_word (Bytes.toBits 16 [x, y]) = Bytes.toBits 16 [y, x] := by
  apply BitVec.eq_of_getLsbD_eq
  intro i lt
  rw [__swap_word]
  interval_cases i <;> simp [-BitVec.getLsbD_eq_getElem, Bytes.getLsbD_toBits]

theorem swap_dword_bytes (a b c d : UInt8) :
    __swap_dword (Bytes.toBits 32 [a, b, c, d]) = Bytes.toBits 32 [d, c, b, a] := by
  apply BitVec.eq_of_getLsbD_eq
  intro i lt
  rw [__swap_dword]
  interval_cases i <;> simp [-BitVec.getLsbD_eq_getElem, Bytes.getLsbD_toBits]

/-- An integer that is read from bytes, in another width that holds them. -/
theorem setWidth_toBits {w v : Nat} (bs : List UInt8) (whole : 8 * bs.length ≤ w) :
    (Bytes.toBits w bs).setWidth v = Bytes.toBits v bs := by
  have lt : Bytes.toNat bs < 2 ^ w := by
    calc Bytes.toNat bs < 256 ^ bs.length := Bytes.toNat_lt bs
      _ = 2 ^ (8 * bs.length) := by rw [pow_mul]; rfl
      _ ≤ 2 ^ w := Nat.pow_le_pow_right Nat.two_pos whole
  apply BitVec.eq_of_toNat_eq
  rw [BitVec.toNat_setWidth, Bytes.toBits, Bytes.toBits, BitVec.toNat_ofNat, BitVec.toNat_ofNat,
    Nat.mod_eq_of_lt lt]

/-- The global function leaves what it shifts out of the word: it is right when there is
nothing in the high byte. -/
theorem swap2_bytes (x y : UInt8) :
    _g_blob_swap2 (Bytes.toBits 64 [x, y]) = Bytes.toBits 64 [y, x] ↔ y = 0 := by
  rw [_g_blob_swap2, setWidth_toBits _ (by simp)]
  constructor
  · intro same
    apply UInt8.toBitVec_inj.mp
    apply BitVec.eq_of_getLsbD_eq
    intro i lt
    have bit := congrArg (fun w : BitVec 64 => w.getLsbD (16 + i)) same
    interval_cases i <;>
      simpa [-BitVec.getLsbD_eq_getElem, Bytes.getLsbD_toBits, BitVec.getLsbD_signExtend] using bit
  · rintro rfl
    apply BitVec.eq_of_getLsbD_eq
    intro i lt
    interval_cases i <;>
      simp [-BitVec.getLsbD_eq_getElem, Bytes.getLsbD_toBits, BitVec.getLsbD_signExtend,
        BitVec.getLsbD_sshiftRight, BitVec.msb_eq_getLsbD_last]

theorem swap4_bytes (a b c d : UInt8) :
    _g_blob_swap4 (Bytes.toBits 64 [a, b, c, d]) = Bytes.toBits 64 [d, c, b, a] := by
  rw [_g_blob_swap4, setWidth_toBits _ (by simp), swap_dword_bytes, setWidth_toBits _ (by simp)]

theorem toNat_two (x y : UInt8) : (Bytes.toBits 64 [x, y]).toNat < 256 ↔ y = 0 := by
  have low := x.toNat_lt
  have high := y.toNat_lt
  have zero : y = 0 ↔ y.toNat = 0 := UInt8.toNat_inj.symm
  rw [Bytes.toBits, BitVec.toNat_ofNat, zero]
  simp only [Bytes.toNat]
  omega

/-! ## All the words of a buffer -/

namespace Buffer

/-- The loop of the methods: `f` of each word. -/
def swapWords (buf : Buffer) {w : Nat} (f : BitVec w → BitVec w) (num : Int) :
    Except Fault Buffer :=
  (List.range num.toNat).foldlM (fun buf (i : Nat) => do
    let word ← load buf (i * (w / 8 : Nat)) (w / 8 : Nat)
    store buf (i * (w / 8 : Nat)) (Bytes.ofBits (f (Bytes.toBits w word)))) buf

theorem length_load {buf : Buffer} {offset n : Int} :
    Ensures (load buf offset n) fun data => data.length = toSize n := by
  rw [load.eq_def]
  split
  · rename_i zero
    exact .of_ok zero.symm
  · split
    · exact .of_error
    · split
      · rename_i inside
        refine .of_ok ?_
        rw [List.length_take, List.length_drop]
        omega
      · exact .of_error

theorem swap_eq_swapWords {w : Nat} {f : BitVec w → BitVec w} (small : w / 8 < 2 ^ 63)
    (reverses : ∀ word : List UInt8, word.length = w / 8 →
      Bytes.ofBits (f (Bytes.toBits w word)) = word.reverse) (buf : Buffer) (num : Int) :
    buf.swap (w / 8) num = buf.swapWords f num := by
  have size : toSize ((w / 8 : Nat) : Int) = w / 8 := by
    have := toSize_of_nonneg (n := ((w / 8 : Nat) : Int)) ⟨by omega, by omega⟩ (by omega)
    omega
  have step (buf : Buffer) (i : Nat) :
      (do
        let word ← load buf (i * (w / 8 : Nat)) (w / 8 : Nat)
        store buf (i * (w / 8 : Nat)) word.reverse) =
      (do
        let word ← load buf (i * (w / 8 : Nat)) (w / 8 : Nat)
        store buf (i * (w / 8 : Nat)) (Bytes.ofBits (f (Bytes.toBits w word)))) := by
    have length : Ensures (load buf (i * (w / 8 : Nat)) (w / 8 : Nat)) _ := length_load
    cases loaded : load buf (i * (w / 8 : Nat)) (w / 8 : Nat) with
    | error e => rfl
    | ok word =>
      show store buf _ word.reverse = store buf _ (Bytes.ofBits (f (Bytes.toBits w word)))
      rw [reverses word ((length word loaded).trans size)]
  rw [swap, swapWords]
  simp only [step]

/-- `_blob_swap2` calls `__swap_word` on each word. -/
theorem swap_two (buf : Buffer) (num : Int) : buf.swap 2 num = buf.swapWords __swap_word num :=
  swap_eq_swapWords (w := 16) (by decide) (fun word length => by
    obtain ⟨x, y, rfl⟩ := List.length_eq_two.mp length
    rw [swap_word_bytes, Bytes.ofBits_toBits _ (by simp)]
    rfl) buf num

/-- `_blob_swap4` calls `__swap_dword` on each word. -/
theorem swap_four (buf : Buffer) (num : Int) : buf.swap 4 num = buf.swapWords __swap_dword num :=
  swap_eq_swapWords (w := 32) (by decide) (fun word length => by
    obtain ⟨a, b, c, d, rfl⟩ : ∃ a b c d, word = [a, b, c, d] := by
      match word, length with
      | [a, b, c, d], _ => exact ⟨a, b, c, d, rfl⟩
    rw [swap_dword_bytes, Bytes.ofBits_toBits _ (by simp)]
    rfl) buf num

end Buffer

/-- The bytes of a word. -/
def word (k : Nat) (l : List UInt8) (i : Nat) : List UInt8 := (l.drop (i * k)).take k

/-- The bytes with the first `n` words of `k` bytes reversed. -/
def reversed (k n : Nat) (l : List UInt8) : List UInt8 :=
  (List.range n).flatMap (fun i => (word k l i).reverse) ++ l.drop (n * k)

variable {k n i : Nat} {l : List UInt8}

theorem length_word (le : (i + 1) * k ≤ l.length) : (word k l i).length = k := by
  rw [Nat.succ_mul] at le
  rw [word, List.length_take, List.length_drop]
  omega

theorem length_words {f : Nat → List UInt8} (length : ∀ i < n, (f i).length = k) :
    ((List.range n).flatMap f).length = n * k := by
  induction n with
  | zero => simp
  | succ n ih =>
    rw [List.range_succ, List.flatMap_append, List.length_append,
      ih fun i lt => length i (by omega), Nat.succ_mul]
    simp [length n (by omega)]

theorem length_reversed_words (le : n * k ≤ l.length) :
    ((List.range n).flatMap fun i => (word k l i).reverse).length = n * k := by
  refine length_words fun i lt => ?_
  rw [List.length_reverse]
  exact length_word (le_trans (Nat.mul_le_mul_right k lt) le)

theorem length_reversed (le : n * k ≤ l.length) : (reversed k n l).length = l.length := by
  rw [reversed, List.length_append, length_reversed_words le, List.length_drop]
  omega

theorem drop_reversed (le : n * k ≤ l.length) : (reversed k n l).drop (n * k) = l.drop (n * k) :=
  List.drop_left' (length_reversed_words le)

/-- The word at the front of what is not yet reversed. -/
theorem reversed_succ (le : (n + 1) * k ≤ l.length) :
    reversed k (n + 1) l =
      (reversed k n l).take (n * k) ++ (word k l n).reverse ++ (reversed k n l).drop (n * k + k) := by
  have within : n * k ≤ l.length := le_trans (Nat.mul_le_mul_right k (by omega)) le
  rw [← List.drop_drop, drop_reversed within, List.drop_drop]
  conv_rhs => rw [reversed, List.take_left' (length_reversed_words within)]
  rw [reversed, List.range_succ, List.flatMap_append, Nat.succ_mul]
  simp

theorem word_of_front {f : Nat → List UInt8} {rest : List UInt8} (length : ∀ i < n, (f i).length = k)
    (lt : i < n) : word k ((List.range n).flatMap f ++ rest) i = f i := by
  obtain ⟨m, rfl⟩ := Nat.exists_eq_add_of_lt lt
  have split : List.range (i + m + 1) = List.range i ++ i :: (List.range m).map (i + 1 + ·) := by
    rw [show i + m + 1 = i + (m + 1) from rfl, List.range_add, List.range_succ_eq_map]
    simp [Function.comp_def, Nat.add_assoc, Nat.add_comm 1]
  have front : ((List.range i).flatMap f).length = i * k :=
    length_words fun j lt => length j (by omega)
  rw [word, split, List.flatMap_append, List.flatMap_cons, List.append_assoc, List.append_assoc,
    List.drop_left' front, List.take_left' (length i (by omega))]

theorem word_reversed (le : n * k ≤ l.length) (lt : i < n) :
    word k (reversed k n l) i = (word k l i).reverse := by
  refine word_of_front (fun j lt => ?_) lt
  rw [List.length_reverse]
  exact length_word (le_trans (Nat.mul_le_mul_right k lt) le)

theorem flatMap_words (le : n * k ≤ l.length) :
    (List.range n).flatMap (word k l) = l.take (n * k) := by
  induction n with
  | zero => simp
  | succ n ih =>
    rw [List.range_succ, List.flatMap_append, ih (le_trans (Nat.mul_le_mul_right k (by omega)) le),
      Nat.succ_mul, List.take_add]
    simp [word]

/-- Reversing the words twice. -/
theorem reversed_reversed (le : n * k ≤ l.length) : reversed k n (reversed k n l) = l := by
  have back : (List.range n).flatMap (fun i => (word k (reversed k n l) i).reverse) =
      (List.range n).flatMap (word k l) := by
    refine List.flatMap_congr fun i mem => ?_
    rw [word_reversed le (List.mem_range.mp mem), List.reverse_reverse]
  rw [reversed, back, drop_reversed le, flatMap_words le, List.take_append_drop]

theorem take_reversed {s : Nat} (le : n * k ≤ s) (within : s ≤ l.length) :
    (reversed k n l).take s = reversed k n (l.take s) := by
  have same : (List.range n).flatMap (fun i => (word k l i).reverse) =
      (List.range n).flatMap (fun i => (word k (l.take s) i).reverse) := by
    refine List.flatMap_congr fun i mem => ?_
    have inside : (i + 1) * k ≤ s := le_trans (Nat.mul_le_mul_right k (List.mem_range.mp mem)) le
    rw [Nat.succ_mul] at inside
    rw [word, word, List.drop_take, List.take_take, min_eq_left (by omega)]
  have length := length_reversed_words (le_trans le within)
  rw [reversed, reversed, List.take_append, length, ← same, List.take_of_length_le (by omega),
    List.drop_take]

namespace Buffer

theorem swap_some (small : k < 2 ^ 63) (le : n * k ≤ l.length) :
    Buffer.swap (some l) k n = .ok (some (reversed k n l)) := by
  have size : toSize (k : Int) = k := by
    have := toSize_of_nonneg (n := (k : Int)) ⟨by omega, by omega⟩ (by omega)
    omega
  rw [swap, Int.toNat_natCast]
  induction n with
  | zero =>
    have none : reversed k 0 l = l := by simp [reversed]
    rw [List.range_zero, none]
    rfl
  | succ n ih =>
    have within : n * k ≤ l.length := le_trans (Nat.mul_le_mul_right k (by omega)) le
    have offset : ((n : Int) * k).toNat = n * k := by
      rw [← Nat.cast_mul, Int.toNat_natCast]
    have room : n * k + k ≤ l.length := by
      rw [Nat.succ_mul] at le
      exact le
    have length := length_reversed within
    have loaded : load (some (reversed k n l)) (n * k) k = .ok (word k l n) := by
      rw [load.eq_def, size, offset]
      by_cases zero : k = 0
      · rw [if_pos zero, word, zero, List.take_zero]
      · rw [if_neg zero]
        dsimp only
        rw [if_pos ⟨by positivity, by omega⟩, drop_reversed within]
        rfl
    have stored : store (some (reversed k n l)) (n * k) (word k l n).reverse =
        .ok (some (reversed k (n + 1) l)) := by
      have count : (word k l n).reverse.length = k := by
        rw [List.length_reverse]
        exact length_word le
      rw [store.eq_def, offset, count, reversed_succ le]
      by_cases empty : (word k l n).reverse = []
      · have zero : k = 0 := by rw [← count, empty, List.length_nil]
        rw [if_pos empty, empty, zero, List.append_nil, Nat.add_zero, List.take_append_drop]
      · rw [if_neg empty]
        dsimp only
        rw [if_pos ⟨by positivity, by omega⟩]
    rw [List.range_succ, List.foldlM_append, ih within]
    show (load (some (reversed k n l)) (n * k) k >>= fun word =>
      store (some (reversed k n l)) (n * k) word.reverse) >>= pure = _
    rw [loaded]
    show store (some (reversed k n l)) (n * k) (word k l n).reverse >>= pure = _
    rw [stored]
    rfl

end Buffer

namespace Blobs

/-- A word as an integer without a sign. -/
def wordAt (k : Nat) (b : LVBlob) (i : Nat) : BitVec 64 := Bytes.toBits 64 (word k b.contents i)

/-- The method makes of each complete word what the function gives of it, leaves the other
bytes, and is its own inverse. -/
def SwapAgrees (s : Blobs) (method : Blobs → Nat → Result) (k : Nat) (g : BitVec 64 → BitVec 64)
    (i : Nat) (b : LVBlob) : Prop :=
  ∃ b', method s i = .ok (.nothing, s.put i b') ∧
    b'.contents.length = b.contents.length ∧
    (∀ n < b.contents.length / k, wordAt k b' n = g (wordAt k b n)) ∧
    b'.contents.drop (b.contents.length / k * k) = b.contents.drop (b.contents.length / k * k) ∧
    method (s.put i b') i = .ok (.nothing, s)

variable {s : Blobs} {b : LVBlob} {g : BitVec 64 → BitVec 64}

theorem swap_runs (sound : s.Sound) (get : s.blobs[i]? = some b) (valid : b.IsValid = true)
    (pos : 0 < k) (small : k < 2 ^ 63) :
    ∃ l, b.buf = some l ∧ b.size.toNat ≤ l.length ∧
      s._blob_swap k i = .ok (.nothing, s.put i
        { b with buf := some (reversed k (b.contents.length / k) l) }) := by
  have bounded := sound.of_get get
  have size_le := bounded.size_le
  have nonneg := le_trans bounded.ptr_nonneg bounded.ptr_le
  have length := LVBlob.length_contents bounded
  cases buf : b.buf with
  | none =>
    rw [LVBlob.IsValid, buf] at valid
    cases valid
  | some l =>
    have allocated := bounded.buf.some buf
    refine ⟨l, rfl, by omega, ?_⟩
    have count : (b.size - b.size % k) / k = ((b.contents.length / k : Nat) : Int) := by
      rw [← length]
      have whole : (b.contents.length : Int) - b.contents.length % k =
          ((b.contents.length / k : Nat) : Int) * k := by
        have split := Int.emod_add_mul_ediv b.contents.length k
        rw [Int.natCast_div]
        linarith
      rw [whole, Int.mul_ediv_cancel _ (by omega)]
    have within : b.contents.length / k * k ≤ l.length :=
      le_trans (Nat.div_mul_le_self _ _) (by omega)
    rw [_blob_swap, setupBlob, setup, get]
    show (if b.IsValid = true then _ else _) = _
    rw [if_pos valid, buf, count, Buffer.swap_some small within]
    rfl

theorem put_injective {b' b'' : LVBlob} (get : s.blobs[i]? = some b) (same : s.put i b' = s.put i b'') :
    b' = b'' := by
  have first : (s.put i b').blobs[i]? = some b' := get_put get
  rw [same, get_put get] at first
  exact (Option.some.inj first).symm

theorem put_of_get (get : s.blobs[i]? = some b) : s.put i b = s := by
  obtain ⟨lt, eq⟩ := List.getElem?_eq_some_iff.mp get
  rw [put, ← eq, List.set_getElem_self lt]

/-- A method agrees with a function exactly if the blob has a buffer and the function
reverses the bytes of each of its words. -/
theorem swapAgrees_iff (sound : s.Sound) (get : s.blobs[i]? = some b) (pos : 0 < k)
    (small : k < 2 ^ 63) :
    s.SwapAgrees (fun s i => s._blob_swap k i) k g i b ↔ b.IsValid = true ∧
      ∀ n < b.contents.length / k,
        g (wordAt k b n) = Bytes.toBits 64 (word k b.contents n).reverse := by
  by_cases valid : b.IsValid = true
  · obtain ⟨l, buf, within, run⟩ := swap_runs sound get valid pos small
    have inside : b.contents.length / k * k ≤ b.contents.length := Nat.div_mul_le_self _ _
    have bounded := sound.of_get get
    have length := LVBlob.length_contents bounded
    have count : b.size.toNat = b.contents.length := by omega
    have contents_eq : b.contents = l.take b.size.toNat := by
      rw [LVBlob.contents, buf]
      rfl
    -- what the blob holds afterwards
    let b₁ : LVBlob := { b with buf := some (reversed k (b.contents.length / k) l) }
    have contents : b₁.contents = reversed k (b.contents.length / k) b.contents := by
      have taken := take_reversed (k := k) (n := b.contents.length / k) (l := l) (s := b.size.toNat)
        (by omega) within
      rw [← contents_eq] at taken
      exact taken
    have words (n : Nat) (lt : n < b.contents.length / k) :
        wordAt k b₁ n = Bytes.toBits 64 (word k b.contents n).reverse := by
      rw [wordAt, contents, word_reversed inside lt]
    constructor
    · rintro ⟨b', run', -, agrees, -, -⟩
      refine ⟨valid, fun n lt => ?_⟩
      have same : b₁ = b' :=
        put_injective get (congrArg Prod.snd (Except.ok.inj (run.symm.trans run')))
      rw [← agrees n lt, ← same, words n lt]
    · rintro ⟨-, agrees⟩
      have back : (s.put i b₁)._blob_swap k i = .ok (.nothing, s) := by
        have sound' : (s.put i b₁).Sound := by
          obtain ⟨ptr_nonneg, ptr_le, size_le, allocated_lt, holds, owns⟩ := bounded
          refine sound.put ⟨ptr_nonneg, ptr_le, size_le, allocated_lt, ⟨?_, ?_⟩, owns⟩
          · rintro bytes ⟨⟩
            rw [length_reversed (by omega)]
            exact holds.some buf
          · rintro ⟨⟩
        obtain ⟨l', buf', within', run'⟩ := swap_runs sound' (get_put get) (b := b₁) rfl pos small
        cases buf'
        have total : b₁.contents.length = b.contents.length := by
          rw [contents, length_reversed inside]
        have same : ({ b₁ with buf := some (reversed k (b.contents.length / k)
            (reversed k (b.contents.length / k) l)) } : LVBlob) = b := by
          rw [reversed_reversed (by omega), ← buf]
        rw [run', total, put_put, same, put_of_get get]
      refine ⟨b₁, run, ?_, fun n lt => ?_, ?_, back⟩
      · rw [contents, length_reversed inside]
      · rw [words n lt, agrees n lt]
      · rw [contents, drop_reversed inside]
  · constructor
    · rintro ⟨b', run, -⟩
      have raised : s._blob_swap k i = .ok (.raised "the blob is invalid", s) := by
        rw [_blob_swap, setupBlob, setup, get]
        exact if_neg valid
      dsimp only at run
      rw [raised] at run
      cases run
    · rintro ⟨holds, -⟩
      exact absurd holds valid

/-- Both pairs agree exactly if the blob has a buffer in which no word of 16 bits has
anything in its high byte. -/
theorem swaps_agree_iff (sound : s.Sound) (get : s.blobs[i]? = some b) :
    s.SwapAgrees _blob_swap2 2 _g_blob_swap2 i b ∧ s.SwapAgrees _blob_swap4 4 _g_blob_swap4 i b ↔
      b.IsValid = true ∧ ∀ n < b.contents.length / 2, (wordAt 2 b n).toNat < 256 := by
  have inside {k n : Nat} (lt : n < b.contents.length / k) : (n + 1) * k ≤ b.contents.length :=
    le_trans (Nat.mul_le_mul_right k lt) (Nat.div_mul_le_self _ _)
  have two : s.SwapAgrees _blob_swap2 2 _g_blob_swap2 i b ↔
      b.IsValid = true ∧ ∀ n < b.contents.length / 2, (wordAt 2 b n).toNat < 256 := by
    refine (swapAgrees_iff sound get (by decide) (by decide)).trans (and_congr_right fun _ => ?_)
    refine forall₂_congr fun n lt => ?_
    obtain ⟨x, y, eq⟩ := List.length_eq_two.mp (length_word (inside lt))
    rw [wordAt, eq]
    exact (swap2_bytes x y).trans (toNat_two x y).symm
  have four : s.SwapAgrees _blob_swap4 4 _g_blob_swap4 i b ↔ b.IsValid = true := by
    refine (swapAgrees_iff sound get (by decide) (by decide)).trans (and_iff_left fun n lt => ?_)
    obtain ⟨w, x, y, z, eq⟩ : ∃ w x y z, word 4 b.contents n = [w, x, y, z] := by
      match word 4 b.contents n, length_word (inside lt) with
      | [w, x, y, z], _ => exact ⟨w, x, y, z, rfl⟩
    rw [wordAt, eq]
    exact swap4_bytes w x y z
  rw [two, four]
  exact and_iff_left_of_imp And.left

theorem swaps_agree_four :
    blobOfFour.SwapAgrees _blob_swap2 2 _g_blob_swap2 0 ⟨4, 4, 0, some [0, 0, 0, 0], true⟩ ∧
      blobOfFour.SwapAgrees _blob_swap4 4 _g_blob_swap4 0 ⟨4, 4, 0, some [0, 0, 0, 0], true⟩ :=
  have run : Run Safe blobOfFour := run_blobOfFour (.inr (.inr (by decide)))
  (swaps_agree_iff run.sound rfl).mpr ⟨rfl, by decide⟩

/-- `swap2` of the integer 0x0605 is 0x060506, and that of the bytes 5 and 6 is 0x0506. -/
theorem swap2_differs :
    ¬∀ (s : Blobs) (i : Nat) (b : LVBlob), s.Sound → s.blobs[i]? = some b → b.IsValid = true →
      s.SwapAgrees _blob_swap2 2 _g_blob_swap2 i b ∧
        s.SwapAgrees _blob_swap4 4 _g_blob_swap4 i b := by
  intro agrees
  have two := (agrees twoBlobs 1 _ twoBlobs_sound rfl rfl).1
  have each := ((swapAgrees_iff twoBlobs_sound rfl (by decide) (by decide)).mp two).2
  exact absurd (each 0 (by decide)) (by decide)

end Blobs

end Lavril
