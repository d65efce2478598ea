import Mathlib.Algebra.Ring.Int.Defs
import Mathlib.Data.List.Basic
import Mathlib.Data.List.TakeWhile

/-!
# Reading a source file in UCS-2

`_read_two_bytes` takes a unit through a pointer to `wchar_t`, which is an unsigned number of
two bytes on Windows and a signed one of four bytes elsewhere; the machine has its low bytes
first. The use of a byte that the last `fread` has not delivered ends the run without a
result.
-/

namespace Lavril.Ucs2

inductive Wchar where
  | two
  | four
  deriving DecidableEq

/-- The number at the start of some bytes. -/
def Wchar.load : Wchar → List UInt8 → Option Int
  | .two, a :: b :: _ => some (a.toNat + 256 * b.toNat)
  | .four, a :: b :: c :: d :: _ =>
    let v : Int := a.toNat + 256 * b.toNat + 65536 * c.toNat + 16777216 * d.toNat
    some (if v < 2 ^ 31 then v else v - 2 ^ 32)
  | _, _ => none

def IO_BUFFER_SIZE : Nat := 2048

/-- `buffer` as far as the last read has filled it, which is `size` bytes, and what is left of
the file. -/
structure IOBuffer where
  buffer : List UInt8
  ptr : Nat
  file : List UInt8
  deriving DecidableEq

namespace IOBuffer

def size (io : IOBuffer) : Nat := io.buffer.length

def fread (io : IOBuffer) : IOBuffer :=
  { io with
    buffer := io.file.take IO_BUFFER_SIZE
    file := io.file.drop IO_BUFFER_SIZE }

/-- As `lv_loadfile` hands it to the compiler, behind the mark of the byte order. -/
def opened (bytes : List UInt8) : IOBuffer := ⟨[], 0, bytes⟩

end IOBuffer

def _read_two_bytes (w : Wchar) (io : IOBuffer) : Option (Int × IOBuffer) :=
  if io.ptr < io.size then
    if io.size < 2 then some (0, io)
    else do pure (← w.load (io.buffer.drop io.ptr), { io with ptr := io.ptr + 2 })
  else
    if io.fread.size > 0 then
      if io.fread.size < 2 then some (0, io.fread)
      else do pure (← w.load io.fread.buffer, { io.fread with ptr := 2 })
    else some (0, io.fread)

def _io_file_lexfeed_UCS2_LE (w : Wchar) (io : IOBuffer) : Option (Int × IOBuffer) := do
  let (ret, io) ← _read_two_bytes w io
  if ret > 0 then pure (ret, io) else pure (0, io)

/-- The bytes that are kept by `& 0x00FF` and `& 0xFF00` change their places. -/
def _io_file_lexfeed_UCS2_BE (w : Wchar) (io : IOBuffer) : Option (Int × IOBuffer) := do
  let (c, io) ← _read_two_bytes w io
  if c > 0 then pure (c / 256 % 256 + c % 256 * 256, io) else pure (0, io)

inductive ByteOrder where
  | little
  | big
  deriving DecidableEq

/-- The function that `lv_loadfile` chooses by the first two bytes. -/
def feed : ByteOrder → Wchar → IOBuffer → Option (Int × IOBuffer)
  | .little => _io_file_lexfeed_UCS2_LE
  | .big => _io_file_lexfeed_UCS2_BE

/-- What the calls of the lexer give up to the first 0. -/
inductive Answers (order : ByteOrder) (w : Wchar) : IOBuffer → List Int → Prop
  | ended {io io'} (came : feed order w io = some (0, io')) : Answers order w io []
  | another {io io' c cs} (came : feed order w io = some (c, io')) (nonzero : c ≠ 0)
      (more : Answers order w io' cs) : Answers order w io (c :: cs)

section files

def low (u : UInt16) : UInt8 := UInt8.ofNat u.toNat

def high (u : UInt16) : UInt8 := UInt8.ofNat (u.toNat / 256)

def unitBytes : ByteOrder → UInt16 → List UInt8
  | .little, u => [low u, high u]
  | .big, u => [high u, low u]

/-- A file without the mark of its byte order. -/
def fileBytes (order : ByteOrder) (units : List UInt16) : List UInt8 :=
  units.flatMap (unitBytes order)

/-- The units before the first that is zero. -/
def expected (units : List UInt16) : List Int :=
  (units.takeWhile (· ≠ 0)).map fun u => (u.toNat : Int)

/-- The lexer gets the units of the file up to the first that is zero. -/
def Delivers (order : ByteOrder) (w : Wchar) (units : List UInt16) : Prop :=
  Answers order w (.opened (fileBytes order units)) (expected units)

end files

section feeding

variable {order : ByteOrder} {w : Wchar} {io : IOBuffer} {u v : UInt16}
  {cur rest behind units : List UInt16}

/-- What a feed function makes of the number that has been read. -/
def judged (order : ByteOrder) (c : Int) : Int :=
  if c > 0 then
    match order with
    | .little => c
    | .big => c / 256 % 256 + c % 256 * 256
  else 0

theorem feed_eq (order : ByteOrder) (w : Wchar) (io : IOBuffer) :
    feed order w io = (_read_two_bytes w io).map fun r => (judged order r.1, r.2) := by
  cases order
  all_goals
    simp only [feed, _io_file_lexfeed_UCS2_LE, _io_file_lexfeed_UCS2_BE, judged]
    cases _read_two_bytes w io with
    | none => rfl
    | some r =>
      simp only [Option.bind_eq_bind, Option.bind_some, Option.map_some]
      split <;> rfl

/-- What is given for a unit, by the unit that follows it in the buffer. -/
def answer : ByteOrder → Wchar → UInt16 → Option UInt16 → Option Int
  | _, .two, u, _ => some u.toNat
  | .little, .four, u, some v => some (if v.toNat < 32768 then u.toNat + 65536 * v.toNat else 0)
  | .big, .four, u, some v => some (if v.toNat % 256 < 128 then u.toNat else 0)
  | _, .four, _, none => none

theorem toNat_low (u : UInt16) : (low u).toNat = u.toNat % 256 := UInt8.toNat_ofNat'

theorem toNat_high (u : UInt16) : (high u).toNat = u.toNat / 256 := by
  have small : u.toNat < 65536 := u.toNat_lt
  rw [high, UInt8.toNat_ofNat']
  exact Nat.mod_eq_of_lt (by omega)

/-- The first two bytes change their places, whatever is behind them. -/
theorem swapped (a b : UInt8) (r : Int) :
    ((a.toNat : Int) + 256 * b.toNat + 65536 * r) / 256 % 256 +
      ((a.toNat : Int) + 256 * b.toNat + 65536 * r) % 256 * 256 = b.toNat + 256 * a.toNat := by
  have ha : a.toNat < 256 := a.toNat_lt
  have hb : b.toNat < 256 := b.toNat_lt
  have quotient : ((a.toNat : Int) + 256 * b.toNat + 65536 * r) / 256 = b.toNat + 256 * r := by
    omega
  have remainder : ((a.toNat : Int) + 256 * b.toNat + 65536 * r) % 256 = a.toNat := by omega
  rw [quotient, remainder]
  omega

theorem judged_big (a b : UInt8) (r : Int) (nonneg : 0 ≤ r) :
    judged .big ((a.toNat : Int) + 256 * b.toNat + 65536 * r) = b.toNat + 256 * a.toNat := by
  rw [judged]
  split
  · exact swapped a b r
  · omega

theorem judged_of_nonpos {c : Int} (order : ByteOrder) (nonpos : c ≤ 0) : judged order c = 0 :=
  if_neg (Int.not_lt.mpr nonpos)

theorem load_unit (order : ByteOrder) (w : Wchar) (u : UInt16) (behind : List UInt16) :
    (w.load (fileBytes order (u :: behind))).map (judged order) =
      answer order w u behind.head? := by
  have small : u.toNat < 65536 := u.toNat_lt
  have one := toNat_low u
  have two := toNat_high u
  cases w with
  | two =>
    cases order with
    | little =>
      simp only [fileBytes, List.flatMap_cons, unitBytes, List.cons_append, Wchar.load,
        Option.map_some, judged, answer, Option.some.injEq]
      split <;> omega
    | big =>
      have swap := judged_big (high u) (low u) 0 (Int.le_refl 0)
      simp only [fileBytes, List.flatMap_cons, unitBytes, List.cons_append, Wchar.load,
        Option.map_some, answer, Option.some.injEq]
      rw [Int.mul_zero, Int.add_zero] at swap
      omega
  | four =>
    cases behind with
    | nil => cases order <;> rfl
    | cons v behind =>
      have small' : v.toNat < 65536 := v.toNat_lt
      have three := toNat_low v
      have four := toNat_high v
      cases order with
      | little =>
        simp only [fileBytes, List.flatMap_cons, unitBytes, List.cons_append, List.nil_append,
          Wchar.load, Option.map_some, judged, answer, List.head?_cons, Option.some.injEq]
        split <;> split <;> omega
      | big =>
        have swap := judged_big (high u) (low u) ((high v).toNat + 256 * (low v).toNat) (by omega)
        have same : ((high u).toNat : Int) + 256 * (low u).toNat +
            65536 * ((high v).toNat + 256 * (low v).toNat) =
            (high u).toNat + 256 * (low u).toNat + 65536 * (high v).toNat +
              16777216 * (low v).toNat := by omega
        rw [same] at swap
        simp only [fileBytes, List.flatMap_cons, unitBytes, List.cons_append, List.nil_append,
          Wchar.load, Option.map_some, answer, List.head?_cons, Option.some.injEq]
        by_cases positive : v.toNat % 256 < 128
        · rw [if_pos (by omega), if_pos positive, swap]
          omega
        · rw [if_neg (by omega), if_neg positive, judged_of_nonpos]
          omega

theorem length_unitBytes (order : ByteOrder) (u : UInt16) : (unitBytes order u).length = 2 := by
  cases order <;> rfl

theorem length_fileBytes (order : ByteOrder) (units : List UInt16) :
    (fileBytes order units).length = 2 * units.length := by
  induction units with
  | nil => rfl
  | cons u units ih =>
    rw [fileBytes, List.flatMap_cons, List.length_append, length_unitBytes, List.length_cons]
    rw [fileBytes] at ih
    omega

theorem fileBytes_append (order : ByteOrder) (xs ys : List UInt16) :
    fileBytes order (xs ++ ys) = fileBytes order xs ++ fileBytes order ys := List.flatMap_append

/-- A whole buffer is 1024 units. -/
theorem cut (order : ByteOrder) (units : List UInt16) :
    (fileBytes order units).take IO_BUFFER_SIZE = fileBytes order (units.take 1024) ∧
      (fileBytes order units).drop IO_BUFFER_SIZE = fileBytes order (units.drop 1024) := by
  have parts := fileBytes_append order (units.take 1024) (units.drop 1024)
  rw [List.take_append_drop] at parts
  have front := length_fileBytes order (units.take 1024)
  rw [List.length_take] at front
  rw [parts]
  rcases Nat.le_total 1024 units.length with long | short
  · have size : IO_BUFFER_SIZE = (fileBytes order (units.take 1024)).length := by
      rw [front, Nat.min_eq_left long, IO_BUFFER_SIZE]
    rw [size]
    exact ⟨List.take_left, List.drop_left⟩
  · have all : (fileBytes order (units.take 1024)).length ≤ IO_BUFFER_SIZE := by
      rw [front, Nat.min_eq_right short, IO_BUFFER_SIZE]
      omega
    have nothing : fileBytes order (units.drop 1024) = [] := by
      rw [List.drop_eq_nil_of_le short]
      rfl
    rw [nothing, List.append_nil]
    exact ⟨List.take_of_length_le all, List.drop_eq_nil_of_le all⟩

/-- `cur` is what is left in the buffer, and `rest` in the file. -/
structure Rests (order : ByteOrder) (io : IOBuffer) (cur rest : List UInt16) : Prop where
  unread : io.buffer.drop io.ptr = fileBytes order cur
  placed : io.ptr + 2 * cur.length = io.size
  file : io.file = fileBytes order rest

namespace Rests

theorem opened (order : ByteOrder) (units : List UInt16) :
    Rests order (.opened (fileBytes order units)) [] units := ⟨rfl, rfl, rfl⟩

/-- The buffer behind a unit. -/
def behindUnit (io : IOBuffer) : IOBuffer := { io with ptr := io.ptr + 2 }

theorem feed_cons (rests : Rests order io (u :: behind) rest) :
    feed order w io =
      (answer order w u behind.head?).map fun c => (c, behindUnit io) := by
  have placed := rests.placed
  rw [List.length_cons] at placed
  rw [feed_eq, _read_two_bytes, if_pos (by omega), if_neg (by omega), rests.unread,
    ← load_unit order]
  cases w.load (fileBytes order (u :: behind)) <;> rfl

theorem step (rests : Rests order io (u :: behind) rest) :
    Rests order (behindUnit io) behind rest := by
  obtain ⟨unread, placed, file⟩ := rests
  refine ⟨?_, ?_, file⟩
  · have shorter := congrArg (List.drop 2) unread
    rw [List.drop_drop, fileBytes, List.flatMap_cons] at shorter
    exact shorter.trans (List.drop_left' (length_unitBytes order u))
  · rw [List.length_cons] at placed
    change io.ptr + 2 + 2 * behind.length = io.size
    omega

/-- The buffer once the next part of the file has been read. -/
def refilled (io : IOBuffer) : IOBuffer := { io.fread with ptr := 0 }

theorem refill (rests : Rests order io [] rest) :
    Rests order (refilled io) (rest.take 1024) (rest.drop 1024) := by
  obtain ⟨front, back⟩ := cut order rest
  rw [← rests.file] at front back
  refine ⟨front, ?_, back⟩
  change 0 + 2 * (rest.take 1024).length = (io.file.take IO_BUFFER_SIZE).length
  rw [front, length_fileBytes, Nat.zero_add]

theorem feed_nil (rests : Rests order io [] rest) (some : rest ≠ []) :
    feed order w io = feed order w (refilled io) := by
  have full := rests.refill.placed
  have positive : 0 < (rest.take 1024).length := by
    have := List.length_pos_iff.mpr some
    rw [List.length_take]
    omega
  have placed := rests.placed
  change 0 + 2 * (rest.take 1024).length = io.fread.size at full
  rw [List.length_nil] at placed
  rw [feed_eq, feed_eq, _read_two_bytes, _read_two_bytes, if_neg (by omega), if_pos (by omega),
    if_neg (by omega), if_pos (by show 0 < io.fread.size; omega),
    if_neg (by show ¬ io.fread.size < 2; omega)]
  rfl

theorem feed_end (rests : Rests order io [] []) : feed order w io = some (0, io.fread) := by
  have placed := rests.placed
  have empty : io.fread.size = 0 := by
    rw [IOBuffer.size, IOBuffer.fread, rests.file]
    rfl
  rw [List.length_nil] at placed
  rw [feed_eq, _read_two_bytes, if_neg (by omega), if_neg (by omega)]
  rfl

end Rests

theorem expected_zero (units : List UInt16) : expected (0 :: units) = [] := rfl

theorem expected_cons (nonzero : u ≠ 0) :
    expected (u :: units) = (u.toNat : Int) :: expected units := by
  rw [expected, List.takeWhile_cons_of_pos (by simpa using nonzero)]
  rfl

theorem toNat_ne_zero (nonzero : u ≠ 0) : (u.toNat : Int) ≠ 0 := by
  intro zero
  exact nonzero (UInt16.toNat_inj.mp (Int.ofNat_inj.mp zero))

namespace Answers

variable {io' : IOBuffer} {c : Int} {cs : List Int}

theorem of_feed (same : feed order w io = feed order w io') (answers : Answers order w io' cs) :
    Answers order w io cs := by
  cases answers with
  | ended came => exact .ended (same.trans came)
  | another came nonzero more => exact .another (same.trans came) nonzero more

theorem feed_ne_none (answers : Answers order w io cs) : feed order w io ≠ none := by
  cases answers with
  | ended came => simp [came]
  | another came _ _ => simp [came]

theorem nil_iff : Answers order w io [] ↔ ∃ io', feed order w io = some (0, io') := by
  constructor
  · rintro ⟨came⟩
    exact ⟨_, came⟩
  · rintro ⟨io', came⟩
    exact .ended came

theorem cons_iff (nonzero : c ≠ 0) :
    Answers order w io (c :: cs) ↔
      ∃ io', feed order w io = some (c, io') ∧ Answers order w io' cs := by
  constructor
  · intro answers
    cases answers with
    | another came _ more => exact ⟨_, came, more⟩
  · rintro ⟨io', came, more⟩
    exact .another came nonzero more

end Answers

section two

theorem answers_two_cons (rests : Rests order io (u :: behind) rest)
    (more : Answers order .two (Rests.behindUnit io) (expected (behind ++ rest))) :
    Answers order .two io (expected (u :: behind ++ rest)) := by
  have came := rests.feed_cons (w := .two)
  by_cases zero : u = 0
  · subst zero
    exact .ended came
  · rw [List.cons_append, expected_cons zero]
    exact .another came (toNat_ne_zero zero) more

/-- With a `wchar_t` of two bytes every unit comes through. -/
theorem answers_two (n : Nat) :
    ∀ {io cur rest}, (cur ++ rest).length ≤ n → Rests order io cur rest →
      Answers order .two io (expected (cur ++ rest)) := by
  induction n with
  | zero =>
    intro io cur rest bound rests
    obtain ⟨rfl, rfl⟩ := List.append_eq_nil_iff.mp (List.eq_nil_of_length_eq_zero
      (Nat.le_zero.mp bound))
    exact .ended rests.feed_end
  | succ n ih =>
    intro io cur rest bound rests
    cases cur with
    | cons u behind =>
      refine answers_two_cons rests (ih ?_ rests.step)
      rw [List.cons_append, List.length_cons] at bound
      exact Nat.le_of_succ_le_succ bound
    | nil =>
      cases whole : rest with
      | nil =>
        subst whole
        exact .ended rests.feed_end
      | cons u units =>
        rw [← whole]
        have some : rest ≠ [] := by simp [whole]
        have again := rests.refill
        have parts := List.take_append_drop 1024 rest
        have first : rest.take 1024 = u :: units.take 1023 := by rw [whole, List.take_succ_cons]
        rw [first] at again parts
        refine Answers.of_feed (rests.feed_nil some) ?_
        rw [List.nil_append]
        conv => arg 4; rw [← parts]
        refine answers_two_cons again (ih ?_ again.step)
        have length := congrArg List.length parts
        rw [List.nil_append] at bound
        rw [List.cons_append, List.length_cons] at length
        omega

end two

section four

/-- What a unit that is not zero needs of the next one. -/
def Passes : ByteOrder → UInt16 → Prop
  | .little, v => v = 0
  | .big, v => v.toNat % 256 < 128

/-- What a zero unit needs of the next one. -/
def Halts : ByteOrder → UInt16 → Prop
  | .little, v => v = 0 ∨ 32768 ≤ v.toNat
  | .big, _ => True

theorem answer_zero : answer order .four 0 (some v) = some 0 ↔ Halts order v := by
  cases order with
  | big => simp [answer, Halts]
  | little =>
    have zero : v = 0 ↔ v.toNat = 0 := UInt16.toNat_inj.symm
    simp only [answer, Halts, Option.some.injEq, zero, UInt16.toNat_zero]
    split <;> omega

theorem answer_nonzero (nonzero : u ≠ 0) :
    answer order .four u (some v) = some (u.toNat : Int) ↔ Passes order v := by
  have different := toNat_ne_zero nonzero
  cases order with
  | big =>
    simp only [answer, Passes, Option.some.injEq]
    split <;> omega
  | little =>
    have zero : v = 0 ↔ v.toNat = 0 := UInt16.toNat_inj.symm
    simp only [answer, Passes, Option.some.injEq, zero]
    split <;> omega

/-- There is a zero unit with one behind it, and the units before it come through. -/
def Readable (order : ByteOrder) (cur : List UInt16) : Prop :=
  ∃ before v behind, cur = before ++ 0 :: v :: behind ∧ 0 ∉ before ∧ Halts order v ∧
    ∀ p ∈ (before ++ [0]).tail, Passes order p

theorem not_readable_one : ¬ Readable order [u] := by
  rintro ⟨before, v, behind, whole, _⟩
  have length := congrArg List.length whole
  simp only [List.length_append, List.length_cons, List.length_nil] at length
  omega

theorem readable_zero : Readable order (0 :: v :: behind) ↔ Halts order v := by
  constructor
  · rintro ⟨before, v', behind', whole, free, halts, _⟩
    cases before with
    | nil =>
      cases whole
      exact halts
    | cons u before =>
      obtain ⟨rfl, _⟩ := List.cons.inj whole
      exact absurd List.mem_cons_self free
  · intro halts
    exact ⟨[], v, behind, rfl, by simp, halts, by simp⟩

theorem readable_cons (nonzero : u ≠ 0) :
    Readable order (u :: v :: behind) ↔ Passes order v ∧ Readable order (v :: behind) := by
  constructor
  · rintro ⟨before, v', behind', whole, free, halts, passes⟩
    cases before with
    | nil =>
      cases whole
      exact absurd rfl nonzero
    | cons u' before =>
      obtain ⟨_, rest⟩ := List.cons.inj whole
      change ∀ p ∈ before ++ [0], Passes order p at passes
      refine ⟨?_, before, v', behind', rest, fun mem => free (List.mem_cons_of_mem _ mem), halts,
        fun p mem => passes p (List.mem_of_mem_tail mem)⟩
      cases before with
      | nil =>
        cases rest
        exact passes 0 (by simp)
      | cons first before =>
        cases rest
        exact passes v (by simp)
  · rintro ⟨pass, before, v', behind', rest, free, halts, passes⟩
    refine ⟨u :: before, v', behind', by rw [rest]; rfl, ?_, halts, ?_⟩
    · rw [List.mem_cons, not_or]
      exact ⟨Ne.symm nonzero, free⟩
    · change ∀ p ∈ before ++ [0], Passes order p
      cases before with
      | nil =>
        cases rest
        simpa using pass
      | cons first before =>
        cases rest
        intro p mem
        rcases List.mem_cons.mp mem with rfl | mem
        · exact pass
        · exact passes p mem

theorem answers_four (cur : List UInt16) :
    ∀ {io}, cur ≠ [] → Rests order io cur rest →
      (Answers order .four io (expected (cur ++ rest)) ↔ Readable order cur) := by
  induction cur with
  | nil => exact fun some => absurd rfl some
  | cons u behind ih =>
    intro io _ rests
    have came := rests.feed_cons (w := .four)
    cases behind with
    | nil =>
      have fault : feed order .four io = none := by
        rw [came]
        cases order <;> rfl
      constructor
      · exact fun answers => absurd fault answers.feed_ne_none
      · exact fun readable => absurd readable not_readable_one
    | cons v behind =>
      rw [List.head?_cons] at came
      by_cases zero : u = 0
      · subst zero
        rw [readable_zero, ← answer_zero, List.cons_append, expected_zero, Answers.nil_iff, came]
        cases answer order .four 0 (some v) <;> simp
      · rw [readable_cons zero, ← answer_nonzero zero, List.cons_append, expected_cons zero,
          Answers.cons_iff (toNat_ne_zero zero), came, ← ih (by simp) rests.step]
        cases answer order .four u (some v) <;> simp

end four

/-- Every part of a file comes through where `wchar_t` has two bytes. Where it has four, the
first buffer must be readable. -/
theorem delivers_units_iff (order : ByteOrder) (w : Wchar) (units : List UInt16) :
    Delivers order w units ↔ w = .two ∨ units = [] ∨ Readable order (units.take 1024) := by
  have rests := Rests.opened order units
  rw [Delivers]
  cases w with
  | two => exact ⟨fun _ => .inl rfl, fun _ => answers_two _ (Nat.le_refl _) rests⟩
  | four =>
    by_cases empty : units = []
    · subst empty
      exact ⟨fun _ => .inr (.inl rfl), fun _ => .ended rests.feed_end⟩
    · have some : units.take 1024 ≠ [] := by
        rw [Ne, List.take_eq_nil_iff]
        simp [empty]
      have four : Answers order .four _ _ ↔ _ :=
        answers_four (units.take 1024) some rests.refill
      rw [List.take_append_drop] at four
      have same := rests.feed_nil (w := .four) empty
      constructor
      · intro answers
        exact .inr (.inr (four.mp (Answers.of_feed same.symm answers)))
      · rintro (impossible | none | readable)
        · cases impossible
        · exact absurd none empty
        · exact Answers.of_feed same (four.mpr readable)

end feeding

/-- The text `AB`. -/
theorem two_letters_lost : ¬ Delivers .little .four [65, 66] := by
  intro delivers
  cases delivers with
  | another came _ _ =>
    have wrong : feed .little .four (.opened (fileBytes .little [65, 66])) =
        some (4325441, ⟨[65, 0, 66, 0], 2, []⟩) := by decide
    rw [wrong] at came
    cases came

end Lavril.Ucs2
