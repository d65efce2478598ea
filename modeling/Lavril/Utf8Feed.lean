import Lavril.Ucs2
import Lavril.Utf8

/-!
# Reading a source file byte by byte

`_read_byte` fills the buffer again when it comes to its end. The end of the file and a byte
that is 0 look alike, and either ends the text, inside of a code point as well.
-/

namespace Lavril.Utf8Feed

open Ucs2

def _read_byte (io : IOBuffer) : Nat × IOBuffer :=
  if io.ptr < io.size then ((io.buffer.getD io.ptr 0).toNat, { io with ptr := io.ptr + 1 })
  else if io.fread.size > 0 then ((io.fread.buffer.getD 0 0).toNat, { io.fread with ptr := 1 })
  else (0, io.fread)

def _io_file_lexfeed_PLAIN (io : IOBuffer) : Nat × IOBuffer := _read_byte io

def utf8_lengths : List Nat := [1, 1, 1, 1, 1, 1, 1, 1, 0, 0, 0, 0, 2, 2, 3, 4]

def byte_masks : List Nat := [0, 0, 0x1f, 0x0f, 0x07]

/-- The loop over the bytes behind the first. It returns at a byte that is 0. -/
def readContinued (tmp : Nat) : Nat → IOBuffer → Option Nat × IOBuffer
  | 0, io => (some tmp, io)
  | n + 1, io =>
    let (inchar, io) := _read_byte io
    if inchar = 0 then (none, io) else readContinued (tmp <<< 6 ||| inchar &&& 0x3F) n io

def _io_file_lexfeed_UTF8 (io : IOBuffer) : Nat × IOBuffer :=
  let (c, io) := _read_byte io
  if c = 0 then (0, io)
  else if c ≥ 0x80 then
    let codelen := utf8_lengths.getD (c >>> 4) 0
    if codelen = 0 then (0, io)
    else
      let (tmp, io) := readContinued (c &&& byte_masks.getD codelen 0) (codelen - 1) io
      (tmp.getD 0, io)
  else (c, io)

/-- What the calls of the lexer give up to the first 0. -/
inductive Answers (feed : IOBuffer → Nat × IOBuffer) : IOBuffer → List Nat → Prop
  | ended {io io'} (came : feed io = (0, io')) : Answers feed io []
  | another {io io' c cs} (came : feed io = (c, io')) (nonzero : c ≠ 0)
      (more : Answers feed io' cs) : Answers feed io (c :: cs)

theorem Answers.unique {feed : IOBuffer → Nat × IOBuffer} {io : IOBuffer} {cs ds : List Nat}
    (given : Answers feed io cs) (given' : Answers feed io ds) : cs = ds := by
  induction given generalizing ds with
  | ended came =>
    cases given' with
    | ended _ => rfl
    | another came' nonzero _ =>
      exact absurd (Prod.ext_iff.mp (came.symm.trans came')).1.symm nonzero
  | another came nonzero _ ih =>
    cases given' with
    | ended came' => exact absurd (Prod.ext_iff.mp (came.symm.trans came')).1 nonzero
    | another came' _ more' =>
      obtain ⟨rfl, rfl⟩ := Prod.mk.inj (came.symm.trans came')
      rw [ih more']

/-! ## The buffer -/

/-- The bytes that have not been given. -/
def pending (io : IOBuffer) : List UInt8 := io.buffer.drop io.ptr ++ io.file

/-- A byte is the next one of the file, whether or not the buffer ends before it. -/
theorem read_byte_pending (io : IOBuffer) :
    (_read_byte io).1 = ((pending io).headD 0).toNat ∧
      pending (_read_byte io).2 = (pending io).tail := by
  rw [_read_byte, pending]
  split
  · rename_i inside
    rw [List.drop_eq_getElem_cons inside, List.getD_eq_getElem _ _ inside]
    exact ⟨rfl, rfl⟩
  · rename_i ended
    have spent : io.buffer.drop io.ptr = [] := List.drop_eq_nil_of_le (Nat.le_of_not_lt ended)
    rw [spent, List.nil_append]
    cases file : io.file with
    | nil =>
      have empty : io.fread.buffer = [] := by rw [IOBuffer.fread, file]; rfl
      have none : io.fread.file = [] := by rw [IOBuffer.fread, file]; rfl
      rw [if_neg (by simp [IOBuffer.size, empty]), pending, empty, none, List.drop_nil]
      exact ⟨rfl, rfl⟩
    | cons b bytes =>
      have filled : io.fread.buffer = b :: bytes.take 2047 := by rw [IOBuffer.fread, file]; rfl
      have left : io.fread.file = bytes.drop 2047 := by rw [IOBuffer.fread, file]; rfl
      rw [if_pos (by simp [IOBuffer.size, filled]), pending, filled, left]
      exact ⟨rfl, List.take_append_drop 2047 bytes⟩

/-! ## The bytes -/

def continued (tmp : Nat) : Nat → List UInt8 → Option Nat × List UInt8
  | 0, bytes => (some tmp, bytes)
  | n + 1, bytes =>
    if bytes.headD 0 = 0 then (none, bytes.tail)
    else continued (tmp <<< 6 ||| (bytes.headD 0).toNat &&& 0x3F) n bytes.tail

/-- The code point that some bytes begin with and the bytes behind it. -/
def point (bytes : List UInt8) : Nat × List UInt8 :=
  let c := (bytes.headD 0).toNat
  if c = 0 then (0, bytes.tail)
  else if c ≥ 0x80 then
    let codelen := utf8_lengths.getD (c >>> 4) 0
    if codelen = 0 then (0, bytes.tail)
    else
      let (tmp, more) := continued (c &&& byte_masks.getD codelen 0) (codelen - 1) bytes.tail
      (tmp.getD 0, more)
  else (c, bytes.tail)

theorem readContinued_pending (tmp n : Nat) (io : IOBuffer) :
    (readContinued tmp n io).1 = (continued tmp n (pending io)).1 ∧
      pending (readContinued tmp n io).2 = (continued tmp n (pending io)).2 := by
  induction n generalizing tmp io with
  | zero => exact ⟨rfl, rfl⟩
  | succ n ih =>
    obtain ⟨byte, rest⟩ := read_byte_pending io
    rw [readContinued, continued]
    dsimp only
    rw [byte]
    by_cases zero : (pending io).headD 0 = 0
    · have none : ((pending io).headD 0).toNat = 0 := by rw [zero]; rfl
      rw [if_pos zero, none]
      exact ⟨rfl, rest⟩
    · have some : ((pending io).headD 0).toNat ≠ 0 := fun eq => zero (UInt8.toNat_inj.mp eq)
      obtain ⟨value, left⟩ := ih (tmp <<< 6 ||| ((pending io).headD 0).toNat &&& 0x3F)
        (_read_byte io).2
      rw [rest] at value left
      simp only [if_neg zero, if_neg some]
      exact ⟨value, left⟩

/-- What is given depends on the bytes of the file only, not on where the buffer ends. -/
theorem utf8_pending (io : IOBuffer) :
    (_io_file_lexfeed_UTF8 io).1 = (point (pending io)).1 ∧
      pending (_io_file_lexfeed_UTF8 io).2 = (point (pending io)).2 := by
  obtain ⟨byte, rest⟩ := read_byte_pending io
  rw [_io_file_lexfeed_UTF8, point]
  dsimp only
  rw [byte]
  split
  · exact ⟨rfl, rest⟩
  · split
    · split
      · exact ⟨rfl, rest⟩
      · obtain ⟨value, left⟩ := readContinued_pending _ _ (_read_byte io).2
        rw [rest] at value left
        exact ⟨congrArg (·.getD 0) value, left⟩
    · exact ⟨rfl, rest⟩

/-! ## Encodings -/

theorem length_of_first {c : Nat} (high : 0xc0 ≤ c) (lt : c < 256) :
    utf8_lengths.getD (c >>> 4) 0 = Utf8.width c := by
  rw [Nat.shiftRight_eq_div_pow]
  obtain eq | eq | eq | eq :
      c / 2 ^ 4 = 12 ∨ c / 2 ^ 4 = 13 ∨ c / 2 ^ 4 = 14 ∨ c / 2 ^ 4 = 15 := by omega
  all_goals
    rw [eq, Utf8.width]
    split_ifs <;> first | rfl | omega

/-- No encoding begins with what goes on another. -/
theorem no_length {c : Nat} (ge : 0x80 ≤ c) (lt : c < 0xc0) :
    utf8_lengths.getD (c >>> 4) 0 = 0 := by
  rw [Nat.shiftRight_eq_div_pow]
  obtain eq | eq | eq | eq :
      c / 2 ^ 4 = 8 ∨ c / 2 ^ 4 = 9 ∨ c / 2 ^ 4 = 10 ∨ c / 2 ^ 4 = 11 := by omega
  all_goals
    rw [eq]
    rfl

/-- The first byte of an encoding of `n + 1` bytes, with the bits `d` of the code point. -/
theorem point_first {d base n : Nat} (high : 0xc0 ≤ d + base) (lt : d + base < 256)
    (width : Utf8.width (d + base) = n + 1) (low : (d + base) &&& byte_masks.getD (n + 1) 0 = d)
    (more : List UInt8) : point (UInt8.ofNat (d + base) :: more) =
      ((continued d n more).1.getD 0, (continued d n more).2) := by
  have byte : (UInt8.ofNat (d + base)).toNat = d + base := Utf8.toNat_ofNat_of_lt lt
  rw [point]
  simp only [List.headD_cons, List.tail_cons, byte, length_of_first high lt, width, low,
    if_neg (Nat.succ_ne_zero n), Nat.add_one_sub_one]
  rw [if_neg (by omega), if_pos (by omega)]

theorem continued_byte {d : Nat} (lt : d < 64) (tmp n : Nat) (more : List UInt8) :
    continued tmp (n + 1) (UInt8.ofNat (d + 0x80) :: more) = continued (tmp * 64 + d) n more := by
  have byte : (UInt8.ofNat (d + 0x80)).toNat = d + 0x80 := Utf8.toNat_ofNat_of_lt (by omega)
  have nonzero : UInt8.ofNat (d + 0x80) ≠ 0 := by
    intro zero
    have none := congrArg UInt8.toNat zero
    rw [byte] at none
    exact absurd none (Nat.succ_ne_zero _)
  have low : (d + 0x80) &&& 0x3F = d :=
    (Nat.and_two_pow_sub_one_eq_mod (d + 0x80) 6).trans (by omega)
  have joined := Nat.shiftLeft_add_eq_or_of_lt (show d < 2 ^ 6 from lt) tmp
  rw [continued, List.headD_cons, if_neg nonzero, byte, low, ← joined, Nat.shiftLeft_eq,
    List.tail_cons]

/-- The bytes of a code point are read as the code point. -/
theorem point_encode {v : Nat} (nonzero : v ≠ 0) (lt : v < 0x200000) (more : List UInt8) :
    point (Utf8.encode v ++ more) = (v, more) := by
  unfold Utf8.encode
  split
  · rename_i le
    have byte : (UInt8.ofNat v).toNat = v := Utf8.toNat_ofNat_of_lt (by omega)
    simp only [List.singleton_append, point, List.headD_cons, List.tail_cons, byte, if_neg nonzero]
    rw [if_neg (by omega)]
  · split
    · have first := @point_first (v / 64 % 0x20) 0xc0 1 (by omega) (by omega)
        (by rw [Utf8.width, if_neg (by omega), if_pos (by omega)])
        ((Nat.and_two_pow_sub_one_eq_mod _ 5).trans (by omega))
      simp only [List.cons_append, List.nil_append]
      rw [first, continued_byte (Nat.mod_lt v (by decide)), continued]
      exact Prod.ext (show _ = v by simp only [Option.getD_some]; omega) rfl
    · split
      · have first := @point_first (v / 4096 % 0x10) 0xe0 2 (by omega) (by omega)
          (by rw [Utf8.width, if_neg (by omega), if_neg (by omega), if_pos (by omega)])
          ((Nat.and_two_pow_sub_one_eq_mod _ 4).trans (by omega))
        simp only [List.cons_append, List.nil_append]
        rw [first, continued_byte (Nat.mod_lt _ (by decide)),
          continued_byte (Nat.mod_lt v (by decide)), continued]
        exact Prod.ext (show _ = v by simp only [Option.getD_some]; omega) rfl
      · have first := @point_first (v / 262144 % 0x08) 0xf0 3 (by omega) (by omega)
          (by rw [Utf8.width, if_neg (by omega), if_neg (by omega), if_neg (by omega)])
          ((Nat.and_two_pow_sub_one_eq_mod _ 3).trans (by omega))
        simp only [List.cons_append, List.nil_append]
        rw [first, continued_byte (Nat.mod_lt _ (by decide)),
          continued_byte (Nat.mod_lt _ (by decide)), continued_byte (Nat.mod_lt v (by decide)),
          continued]
        exact Prod.ext (show _ = v by simp only [Option.getD_some]; omega) rfl

/-! ## Files -/

/-- The file ends inside of the bytes of a code point, or behind those of the one before. -/
def CutShort (front : List UInt8) : Prop :=
  ∃ v, front <+: Utf8.encode v ∧ front ≠ Utf8.encode v

theorem continued_short {tmp n : Nat} {bytes : List UInt8} (short : bytes.length < n) :
    (continued tmp n bytes).1 = none := by
  induction n generalizing tmp bytes with
  | zero => cases short
  | succ n ih =>
    rw [continued]
    split
    · rfl
    · rename_i nonzero
      cases bytes with
      | nil => exact absurd rfl nonzero
      | cons b bytes => exact ih (by simpa using short)

theorem point_cut {front : List UInt8} (cut : CutShort front) : (point front).1 = 0 := by
  obtain ⟨v, ⟨tail, whole⟩, proper⟩ := cut
  cases front with
  | nil => rfl
  | cons b bytes =>
    have length : (Utf8.encode v).length = Utf8.width b.toNat := by
      rw [Utf8.length_encode, ← whole]
      rfl
    have shorter : bytes.length + 1 < Utf8.width b.toNat := by
      rw [← length, ← whole, List.length_append, List.length_cons]
      have left : tail ≠ [] := by
        rintro rfl
        exact proper (by rw [← whole, List.append_nil])
      have := List.length_pos_iff.mpr left
      omega
    have shown : 0x80 ≤ b.toNat := by
      by_contra ascii
      rw [Utf8.width, if_pos (by omega)] at shorter
      omega
    have nonzero : b.toNat ≠ 0 := by omega
    rw [point]
    simp only [List.headD_cons, List.tail_cons, nonzero, if_false, ge_iff_le, shown, if_true]
    by_cases high : 0xc0 ≤ b.toNat
    · have long : Utf8.width b.toNat ≠ 0 := by omega
      simp only [length_of_first high b.toNat_lt, long, if_false]
      rw [continued_short (by omega)]
      rfl
    · simp only [no_length shown (Nat.lt_of_not_le high), if_true]

theorem utf8_ended {io : IOBuffer} (none : (point (pending io)).1 = 0) :
    Answers _io_file_lexfeed_UTF8 io [] :=
  .ended (Prod.ext ((utf8_pending io).1.trans none) rfl)

theorem utf8_answers {points : List Nat} {front : List UInt8} {io : IOBuffer}
    (small : ∀ v ∈ points, v < 0x200000) (cut : CutShort front)
    (bytes : pending io = points.flatMap Utf8.encode ++ front) :
    Answers _io_file_lexfeed_UTF8 io (points.takeWhile (· ≠ 0)) := by
  induction points generalizing io with
  | nil =>
    refine utf8_ended ?_
    rw [bytes]
    exact point_cut cut
  | cons v points ih =>
    rw [List.flatMap_cons, List.append_assoc] at bytes
    by_cases zero : v = 0
    · subst zero
      refine utf8_ended ?_
      rw [bytes]
      rfl
    · obtain ⟨value, left⟩ := utf8_pending io
      rw [bytes, point_encode zero (small v List.mem_cons_self)] at value left
      rw [List.takeWhile_cons_of_pos (by simpa using zero)]
      exact .another (Prod.ext value rfl) zero
        (ih (fun w mem => small w (List.mem_cons_of_mem _ mem)) left)

/-- The lexer gets the code points of a file in UTF-8 up to the first that is zero, wherever the
buffer ends and even if the last one is cut short. -/
theorem utf8_delivers {points : List Nat} {front : List UInt8}
    (small : ∀ v ∈ points, v < 0x200000) (cut : CutShort front) (cs : List Nat) :
    Answers _io_file_lexfeed_UTF8 (.opened (points.flatMap Utf8.encode ++ front)) cs ↔
      cs = points.takeWhile (· ≠ 0) := by
  have given := @utf8_answers _ _ (.opened (points.flatMap Utf8.encode ++ front)) small cut rfl
  constructor
  · exact fun answers => answers.unique given
  · rintro rfl
    exact given

/-- A file of 2047 letters, a letter of two bytes and the first byte of another. -/
theorem utf8_delivers_letters : Answers _io_file_lexfeed_UTF8
    (.opened ((List.replicate 2047 97 ++ [233]).flatMap Utf8.encode ++ [0xc3]))
    ((List.replicate 2047 97 ++ [233]).takeWhile (· ≠ 0)) := by
  refine (utf8_delivers ?small ?cut _).mpr rfl
  case small =>
    intro v mem
    rcases List.mem_append.mp mem with letter | last
    · rw [(List.mem_replicate.mp letter).2]
      decide
    · rw [List.mem_singleton.mp last]
      decide
  case cut => exact ⟨233, ⟨[0xa9], by decide⟩, by decide⟩

/-- Without `LVUNICODE` a file is given byte by byte. -/
theorem plain_answers (bytes : List UInt8) {io : IOBuffer} (left : pending io = bytes) :
    Answers _io_file_lexfeed_PLAIN io ((bytes.takeWhile (· ≠ 0)).map UInt8.toNat) := by
  induction bytes generalizing io with
  | nil =>
    obtain ⟨byte, -⟩ := read_byte_pending io
    rw [left] at byte
    exact .ended (Prod.ext byte rfl)
  | cons b bytes ih =>
    obtain ⟨byte, rest⟩ := read_byte_pending io
    rw [left] at byte rest
    by_cases zero : b = 0
    · subst zero
      exact .ended (Prod.ext byte rfl)
    · have some : b.toNat ≠ 0 := fun eq => zero (UInt8.toNat_inj.mp eq)
      rw [List.takeWhile_cons_of_pos (by simpa using zero), List.map_cons]
      exact .another (Prod.ext byte rfl) some (ih rest)

end Lavril.Utf8Feed
