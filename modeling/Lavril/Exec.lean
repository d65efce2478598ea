import Lavril.Cells
import Lavril.Strings
import Mathlib.Algebra.Order.Ring.Nat

/-!
# The output of a command

`_system_exec` appends what `fgets` delivers to one block, which it doubles when the text
would be longer than the block. The terminator is not counted. A store outside of the block
ends the run without a result.
-/

namespace Lavril.System

/-- What `fgets` delivers; it is given the size 127. -/
structure Chunk extends CString where
  short : chars.length ≤ 126

/-- `line` and `bufsz`. -/
structure Line where
  block : Cells LVChar
  bufsz : Nat

namespace Line

/-- What `malloc` gives, with a terminator as its first character. -/
def start : Option Line := do
  pure ⟨← Cells.store (Cells.alloc LVChar 128) 0 0, 128⟩

/-- The string that starts with the block. -/
def string (line : Line) : Option (List LVChar) := Cells.upTo 0 line.block

def strlen (line : Line) : Option Nat := line.string.map List.length

/-- Up to the `strcat`: the block is doubled when the test says so. -/
def grow (line : Line) (out : Chunk) : Option Line := do
  if (← line.strlen) + out.strlen > line.bufsz then
    pure ⟨Cells.resize line.block (line.bufsz * 2), line.bufsz * 2⟩
  else pure line

def strcat (line : Line) (out : Chunk) : Option Line := do
  pure { line with block := ← Cells.storeAll line.block (← line.strlen) out.memory }

def turn (line : Line) (out : Chunk) : Option Line := do
  strcat (← line.grow out) out

def loop (line : Line) : List Chunk → Option Line
  | [] => some line
  | out :: rest => do loop (← line.turn out) rest

/-- `strcat` finds room for the text, the chunk and a terminator. -/
def Fits (line : Line) (out : Chunk) : Prop :=
  ∃ grown len, line.grow out = some grown ∧ grown.strlen = some len ∧
    len + out.strlen + 1 ≤ grown.bufsz

end Line

/-- The loop of `_system_exec` over what has been delivered. -/
def execLoop (output : List Chunk) : Option Line := do
  (← Line.start).loop output

def _system_exec (output : List Chunk) : Option (List LVChar) := do
  (← execLoop output).string

/-- The output as one text. -/
def text (output : List Chunk) : List LVChar := output.flatMap fun out => out.chars

/-- Everything is delivered in order, and before each `strcat` there is room. -/
def Delivers (output : List Chunk) : Prop :=
  _system_exec output = some (text output) ∧
    ∀ before out behind, output = before ++ out :: behind →
      ∃ line, execLoop before = some line ∧ line.Fits out

section sizes

variable {len n b : Nat}

/-- The size of the block is the first of the doubled sizes that is more than the length. -/
def Sized (len b : Nat) : Prop :=
  ∃ k, b = 128 * 2 ^ k ∧ len < b ∧ (0 < k → b < 2 * len)

/-- The lengths at which the terminator is outside of the block. -/
def Critical (len : Nat) : Prop := ∃ k, len = 128 * 2 ^ k

theorem Sized.ge (sized : Sized len b) : 128 ≤ b := by
  obtain ⟨k, rfl, _⟩ := sized
  have one : 1 ≤ 2 ^ k := Nat.one_le_two_pow
  omega

theorem Sized.not_critical (sized : Sized len b) : ¬ Critical len := by
  obtain ⟨k, rfl, less, more⟩ := sized
  rintro ⟨j, rfl⟩
  rcases Nat.lt_or_ge j k with below | above
  · have half : 2 * (128 * 2 ^ j) ≤ 128 * 2 ^ k := by
      have := Nat.pow_le_pow_right (show 0 < 2 by decide) below
      rw [Nat.pow_succ] at this
      omega
    exact absurd (more (Nat.zero_lt_of_lt below)) (Nat.not_lt_of_ge half)
  · have := Nat.pow_le_pow_right (show 0 < 2 by decide) above
    omega

theorem Sized.same (sized : Sized len b) (less : len + n < b) : Sized (len + n) b := by
  obtain ⟨k, rfl, _, more⟩ := sized
  exact ⟨k, rfl, less, fun doubled => by have := more doubled; omega⟩

theorem Sized.doubled (sized : Sized len b) (short : n ≤ 126) (more : b < len + n) :
    Sized (len + n) (b * 2) := by
  have large := sized.ge
  obtain ⟨k, rfl, less, _⟩ := sized
  exact ⟨k + 1, by rw [Nat.pow_succ, Nat.mul_assoc], by omega, fun _ => by omega⟩

/-- The block is filled to its end exactly at the critical lengths. -/
theorem Sized.full_iff (sized : Sized len b) (short : n ≤ 126) :
    len + n = b ↔ Critical (len + n) := by
  constructor
  · intro full
    obtain ⟨k, same, _⟩ := sized
    exact ⟨k, full.trans same⟩
  · intro critical
    rcases Nat.lt_trichotomy (len + n) b with less | full | more
    · exact absurd critical (sized.same less).not_critical
    · exact full
    · exact absurd critical (sized.doubled short more).not_critical

end sizes

section runs

variable {ts : List LVChar} {b : Nat} {out : Chunk} {before behind output : List Chunk}
  {line : Line}

/-- A block of the size `b` with a text in front. -/
def holding (b : Nat) (ts : List LVChar) : Line := ⟨Cells.filled b (ts ++ [0]), b⟩

theorem start_eq : Line.start = some (holding 128 []) := by
  have stored : Cells.store (Cells.filled 128 []) 0 (0 : LVChar) =
      some (Cells.filled 128 [0]) :=
    Cells.store_filled (show ([] : List LVChar).length < 128 by decide)
  rw [Line.start, Cells.alloc_eq, stored]
  rfl

theorem strlen_holding (free : 0 ∉ ts) : (holding b ts).strlen = some ts.length := by
  rw [Line.strlen, Line.string, holding, Cells.upTo_filled free]
  rfl

theorem grow_holding (free : 0 ∉ ts) (sized : Sized ts.length b) (out : Chunk) :
    (holding b ts).grow out =
      some (holding (if ts.length + out.strlen > b then b * 2 else b) ts) := by
  have used : (ts ++ [0]).length ≤ b := by
    obtain ⟨_, _, less, _⟩ := sized
    rw [List.length_append]
    exact less
  rw [Line.grow, strlen_holding free]
  simp only [Option.bind_eq_bind, Option.bind_some]
  split
  · rw [if_pos (by assumption), holding,
      Cells.resize_filled used (Nat.le_mul_of_pos_right b (by decide))]
    rfl
  · rw [if_neg (by assumption)]
    rfl

theorem strcat_holding (free : 0 ∉ ts) (out : Chunk) (room : ts.length + out.strlen + 1 ≤ b) :
    (holding b ts).strcat out = some (holding b (ts ++ out.chars)) := by
  have within : ts.length + out.memory.length ≤ b := by
    rw [CString.memory, List.length_append]
    exact room
  have nonempty : out.memory ≠ [] := List.append_ne_nil_of_right_ne_nil _ (List.cons_ne_nil 0 [])
  have stored := Cells.storeAll_last (y := (0 : LVChar)) nonempty within
  rw [CString.memory, ← List.append_assoc] at stored
  rw [Line.strcat, strlen_holding free]
  simp only [Option.bind_eq_bind, Option.bind_some, holding, CString.memory]
  rw [stored]
  rfl

theorem turn_holding (free : 0 ∉ ts) (sized : Sized ts.length b) (out : Chunk)
    (clear : ¬ Critical (ts.length + out.strlen)) :
    ∃ b', (holding b ts).turn out = some (holding b' (ts ++ out.chars)) ∧
      Sized (ts ++ out.chars).length b' := by
  have differs : ts.length + out.strlen ≠ b :=
    fun full => clear ((sized.full_iff out.short).mp full)
  rw [List.length_append, Line.turn, grow_holding free sized]
  split
  · next more =>
    have resized := sized.doubled out.short more
    have room : ts.length + out.strlen < b * 2 := by
      obtain ⟨_, _, less, _⟩ := resized
      exact less
    exact ⟨b * 2, strcat_holding free out room, resized⟩
  · next less =>
    have room : ts.length + out.strlen < b := by omega
    exact ⟨b, strcat_holding free out room, sized.same room⟩

theorem fits_holding (free : 0 ∉ ts) (sized : Sized ts.length b) (out : Chunk) :
    (holding b ts).Fits out ↔ ¬ Critical (ts.length + out.strlen) := by
  have full := sized.full_iff (n := out.strlen) out.short
  constructor
  · rintro ⟨grown, len, grew, length, room⟩ critical
    have same := full.mpr critical
    rw [grow_holding free sized, if_neg (by show ¬ ts.length + out.strlen > b; omega)] at grew
    cases grew
    rw [strlen_holding free] at length
    cases length
    change ts.length + out.strlen + 1 ≤ b at room
    omega
  · intro clear
    have differs : ts.length + out.strlen ≠ b := fun same => clear (full.mp same)
    refine ⟨_, _, grow_holding free sized out, strlen_holding free, ?_⟩
    change ts.length + out.strlen + 1 ≤ if ts.length + out.strlen > b then b * 2 else b
    split
    · next more =>
      obtain ⟨_, _, less, _⟩ := sized.doubled out.short more
      exact less
    · omega

end runs

section output

theorem loop_append (line : Line) (before : List Chunk) (out : Chunk) :
    line.loop (before ++ [out]) = (line.loop before).bind fun l => l.turn out := by
  induction before generalizing line with
  | nil =>
    change (line.turn out).bind some = line.turn out
    exact Option.bind_fun_some _
  | cons first before ih =>
    simp only [List.cons_append, Line.loop, Option.bind_eq_bind]
    rw [Option.bind_assoc]
    exact congrArg _ (funext fun l => ih l)

theorem text_append (before : List Chunk) (out : Chunk) :
    text (before ++ [out]) = text before ++ out.chars := by
  simp [text]

theorem text_free (output : List Chunk) : 0 ∉ text output := by
  intro mem
  obtain ⟨out, _, zero⟩ := List.mem_flatMap.mp mem
  exact out.terminated zero

/-- The loop has come to a block that holds the text so far. -/
def Reached (before : List Chunk) : Prop :=
  ∃ b, execLoop before = some (holding b (text before)) ∧ Sized (text before).length b

theorem reached_nil : Reached [] := by
  refine ⟨128, ?_, 0, rfl, by decide, fun doubled => absurd doubled (by decide)⟩
  rw [execLoop, start_eq]
  rfl

theorem Reached.snoc (reached : Reached before)
    (clear : ¬ Critical (text (before ++ [out])).length) : Reached (before ++ [out]) := by
  obtain ⟨b, came, sized⟩ := reached
  rw [text_append, List.length_append] at clear
  obtain ⟨b', turned, sized'⟩ := turn_holding (text_free before) sized out clear
  refine ⟨b', ?_, by rwa [text_append]⟩
  rw [execLoop, start_eq] at came ⊢
  simp only [Option.bind_eq_bind, Option.bind_some] at came ⊢
  rw [loop_append, came, text_append]
  exact turned

theorem Reached.fits_iff (reached : Reached before) :
    (∃ line, execLoop before = some line ∧ line.Fits out) ↔
      ¬ Critical (text (before ++ [out])).length := by
  obtain ⟨b, came, sized⟩ := reached
  rw [came, text_append, List.length_append]
  constructor
  · rintro ⟨_, ⟨⟩, fits⟩
    exact (fits_holding (text_free before) sized out).mp fits
  · intro clear
    exact ⟨_, rfl, (fits_holding (text_free before) sized out).mpr clear⟩

/-- No part of the output from its start on has a critical length. -/
def Clear (output : List Chunk) : Prop :=
  ∀ before, before <+: output → ¬ Critical (text before).length

theorem Clear.reached (clear : Clear output) : Reached output := by
  induction output using List.reverseRecOn with
  | nil => exact reached_nil
  | append_singleton before out ih =>
    have earlier : Clear before := fun part pre =>
      clear part (pre.trans (List.prefix_append before [out]))
    exact (ih earlier).snoc (clear _ (List.prefix_refl _))

theorem Clear.delivers (clear : Clear output) : Delivers output := by
  constructor
  · obtain ⟨b, came, sized⟩ := clear.reached
    rw [_system_exec, came]
    exact Cells.upTo_filled (text_free output)
  · rintro before out behind rfl
    have part : before ++ [out] <+: before ++ out :: behind := ⟨behind, by simp⟩
    have earlier : Clear before := fun p pre =>
      clear p (pre.trans (List.prefix_append before _))
    exact earlier.reached.fits_iff.mpr (clear _ part)

theorem Delivers.clear (delivers : Delivers output) : Clear output := by
  have each : ∀ before, before <+: output →
      Reached before ∧ ¬ Critical (text before).length := by
    intro before
    induction before using List.reverseRecOn with
    | nil =>
      rintro -
      obtain ⟨_, _, sized⟩ := reached_nil
      exact ⟨reached_nil, sized.not_critical⟩
    | append_singleton before out ih =>
      rintro ⟨behind, rfl⟩
      obtain ⟨reached, _⟩ := ih ⟨out :: behind, by simp⟩
      have fits := delivers.2 before out behind (by simp)
      have clear := reached.fits_iff.mp fits
      exact ⟨reached.snoc clear, clear⟩
  exact fun before pre => (each before pre).2

/-- The output comes through if and only if no part of it from its start on, at which `fgets`
stops, has 128 characters, or twice or four times as many, and so on. -/
theorem delivers_iff_clear (output : List Chunk) : Delivers output ↔ Clear output :=
  ⟨Delivers.clear, Clear.delivers⟩

/-- As many characters as `fgets` takes, and the rest of the line. -/
def longLine : List Chunk :=
  [⟨⟨List.replicate 126 97, by simp⟩, by rw [List.length_replicate]⟩,
    ⟨⟨[97, 10], by decide⟩, by decide⟩]

theorem longLine_outside : ¬ Delivers longLine := by
  intro delivers
  exact delivers.clear longLine (List.prefix_refl _) ⟨0, by simp [text, longLine]⟩

end output

end Lavril.System
