import Lavril.Split
import Mathlib.Algebra.Ring.Nat

/-!
# Escaping a string

`escape` writes into the scratch pad, of which it asks for four characters a character. The
hexadecimal form is printed by `snprintf`, with the size of the whole request as its limit
and with a terminator behind; the character is a `char` and is extended to an `int` by its
sign.
-/

namespace Lavril

/-- `isprint` in the C locale. -/
def scisprint (c : LVChar) : Bool := 32 ≤ c && c ≤ 126

/-- The memory from the scratch pad on, the variables of `escape`, and how far stores have
come. -/
structure Escaping where
  mem : Nat → LVChar
  dest : Nat
  escaped : Nat
  reach : Nat

namespace Escaping

/-- A store at the offset `i`. -/
def store (st : Escaping) (i : Nat) (c : LVChar) : Escaping :=
  { st with mem := fun j => if j = i then c else st.mem j, reach := max st.reach (i + 1) }

/-- `*dest++ = c` -/
def put (st : Escaping) (c : LVChar) : Escaping :=
  { st.store st.dest c with dest := st.dest + 1 }

/-- Characters stored from the offset `i` on. -/
def storeAll (st : Escaping) (i : Nat) : List LVChar → Escaping
  | [] => st
  | c :: text => (st.store i c).storeAll (i + 1) text

/-- `snprintf` of a text at `dest`. -/
def scsprintf (st : Escaping) (size : Nat) (text : List LVChar) : Escaping :=
  match size with
  | 0 => st
  | size + 1 => st.storeAll st.dest (text.take size ++ [0])

end Escaping

/-- `\x%02x`, with the character as an `int`. -/
def escpat (c : LVChar) : List LVChar :=
  let digits := Nat.toDigits 16 (c.toBitVec.signExtend 32).toNat
  [92, 120] ++ (List.replicate (2 - digits.length) '0' ++ digits).map Char.toUInt8

/-- `escch`, which stays 0 for a character that stands for itself. -/
def escch (c : LVChar) : LVChar :=
  match c.toNat with
  | 7 => 97
  | 8 => 98
  | 9 => 116
  | 10 => 110
  | 11 => 118
  | 12 => 102
  | 13 => 114
  | 92 => 92
  | 34 => 34
  | 39 => 39
  | 0 => 48
  | _ => 0

/-- One turn of the loop; `destcharsize` is the limit given to `snprintf`. -/
def Escaping.step (destcharsize : Nat) (st : Escaping) (c : LVChar) : Escaping :=
  if scisprint c ∨ c = 0 then
    if escch c ≠ 0 then
      let st := (st.put 92).put (escch c)
      { st with escaped := st.escaped + 1 }
    else st.put c
  else
    let st := st.scsprintf destcharsize (escpat c)
    { st with dest := st.dest + (escpat c).length, escaped := st.escaped + 1 }

/-- The loop over the string. -/
def escapeLoop (mem : Nat → LVChar) (s : List LVChar) : Escaping :=
  s.foldl (Escaping.step (s.length * 4)) ⟨mem, 0, 0, 0⟩

/-- `mem` is what the scratch pad and what follows it hold before. -/
def _string_escape (mem : Nat → LVChar) (s : List LVChar) : List LVChar :=
  if s.length = 0 then s
  else
    let st := escapeLoop mem s
    if st.escaped ≠ 0 then (List.range st.dest).map st.mem else s

namespace Escaping

variable {st : Escaping} {c : LVChar} {i size : Nat} {t : List LVChar}

/-- What is written so far. -/
def text (st : Escaping) : List LVChar := (List.range st.dest).map st.mem

theorem text_eq_of_mem {st' : Escaping} (dest : st'.dest = st.dest)
    (mem : ∀ j < st.dest, st'.mem j = st.mem j) : st'.text = st.text := by
  rw [text, text, dest]
  exact List.map_congr_left fun j at_ => mem j (List.mem_range.mp at_)

@[simp] theorem dest_storeAll : (st.storeAll i t).dest = st.dest := by
  induction t generalizing st i with
  | nil => rfl
  | cons c t ih => exact ih

@[simp] theorem escaped_storeAll : (st.storeAll i t).escaped = st.escaped := by
  induction t generalizing st i with
  | nil => rfl
  | cons c t ih => exact ih

theorem mem_storeAll_below {j : Nat} (lt : j < i) : (st.storeAll i t).mem j = st.mem j := by
  induction t generalizing st i with
  | nil => rfl
  | cons c t ih =>
    rw [storeAll, ih (by omega)]
    simp [store, Nat.ne_of_lt lt]

theorem mem_storeAll (st : Escaping) (i : Nat) {j : Nat} (lt : j < t.length) : (st.storeAll i t).mem (i + j) = t[j] := by
  induction t generalizing st i j with
  | nil => exact absurd lt (Nat.not_lt_zero j)
  | cons c t ih =>
    rw [storeAll]
    cases j with
    | zero =>
      change ((st.store i c).storeAll (i + 1) t).mem i = c
      rw [mem_storeAll_below (Nat.lt_succ_self i)]
      simp [store]
    | succ j =>
      have moved : i + (j + 1) = i + 1 + j := by omega
      rw [moved, ih _ _ (by simpa using lt)]
      rfl

theorem reach_storeAll (some : t ≠ []) :
    (st.storeAll i t).reach = max st.reach (i + t.length) := by
  induction t generalizing st i with
  | nil => exact absurd rfl some
  | cons c t ih =>
    rw [storeAll]
    by_cases last : t = []
    · subst last
      rfl
    · rw [ih last]
      simp only [store, List.length_cons]
      omega

/-- Characters stored at `dest`, which is then moved behind them. -/
theorem text_storeAll (st : Escaping) (t more : List LVChar) :
    { st.storeAll st.dest (t ++ more) with dest := st.dest + t.length }.text = st.text ++ t := by
  simp only [text, List.range_add, List.map_append, List.map_map]
  congr 1
  · exact List.map_congr_left fun j at_ => mem_storeAll_below (List.mem_range.mp at_)
  · refine List.ext_getElem (by simp) fun j lt lt' => ?_
    have inside : j < (t ++ more).length := by
      rw [List.length_append]
      omega
    simp only [List.getElem_map, List.getElem_range, Function.comp_apply]
    rw [mem_storeAll st st.dest inside, List.getElem_append_left lt']

theorem text_put : (st.put c).text = st.text ++ [c] := text_storeAll st [c] []

end Escaping

/-- What `escape` writes for a character, where there is room for it. -/
def escapedText (c : LVChar) : List LVChar :=
  if scisprint c ∨ c = 0 then if escch c ≠ 0 then [92, escch c] else [c] else escpat c

/-- A character that is written in hexadecimal. -/
def Hexed (c : LVChar) : Prop := ¬ (scisprint c = true ∨ c = 0)

instance (c : LVChar) : Decidable (Hexed c) := inferInstanceAs (Decidable (¬ _))

/-- `snprintf` is given less than the text and its terminator take. -/
def Truncated (size : Nat) (c : LVChar) : Prop := Hexed c ∧ size ≤ (escpat c).length

namespace Escaping

variable {st : Escaping} {c : LVChar} {size : Nat} {s : List LVChar}

theorem dest_step (st : Escaping) (c : LVChar) (size : Nat) :
    (step size st c).dest = st.dest + (escapedText c).length := by
  unfold step escapedText
  split
  · split
    · rfl
    · rfl
  · cases size with
    | zero => rfl
    | succ size => exact congrArg (· + (escpat c).length) dest_storeAll

theorem scsprintf_eq (fits : (escpat c).length < size) :
    st.scsprintf size (escpat c) = st.storeAll st.dest (escpat c ++ [0]) := by
  obtain ⟨size, rfl⟩ : ∃ n, size = n + 1 := ⟨size - 1, by omega⟩
  rw [scsprintf, List.take_of_length_le (by omega)]

theorem text_step (whole : ¬ Truncated size c) :
    (step size st c).text = st.text ++ escapedText c := by
  unfold step escapedText
  split
  · split
    · have both : ((st.put 92).put (escch c)).text = (st.text ++ [92]) ++ [escch c] :=
        text_put.trans (congrArg (· ++ [escch c]) text_put)
      exact both.trans (List.append_assoc st.text [92] [escch c])
    · exact text_put
  · rename_i hexed
    have fits : (escpat c).length < size := by
      by_contra not
      exact whole ⟨hexed, by omega⟩
    have stored := text_storeAll st (escpat c) [0]
    rw [scsprintf_eq fits]
    simp only [dest_storeAll]
    exact stored

theorem mem_step_below {j : Nat} (lt : j < st.dest) : (step size st c).mem j = st.mem j := by
  have put_below : ∀ (st : Escaping) (d : LVChar), j < st.dest → (st.put d).mem j = st.mem j :=
    fun st d lt => by simp [put, store, Nat.ne_of_lt lt]
  unfold step
  split
  · split
    · have moved : j < (st.put 92).dest := Nat.lt_succ_of_lt lt
      exact (put_below _ _ moved).trans (put_below _ _ lt)
    · exact put_below _ _ lt
  · cases size with
    | zero => rfl
    | succ size => exact mem_storeAll_below lt

/-- A truncated text leaves its terminator among what is taken as written. -/
theorem step_truncated (cut : Truncated size c) (positive : 0 < size) :
    ∃ j < (step size st c).dest, (step size st c).mem j = 0 := by
  obtain ⟨hexed, le⟩ := cut
  obtain ⟨size, rfl⟩ : ∃ n, size = n + 1 := ⟨size - 1, by omega⟩
  have taken : ((escpat c).take size).length = size := List.length_take_of_le (by omega)
  have inside : size < ((escpat c).take size ++ [0]).length := by simp [taken]
  refine ⟨st.dest + size, ?_, ?_⟩
  · rw [dest_step, escapedText, if_neg hexed]
    omega
  · have last := mem_storeAll st st.dest inside
    rw [List.getElem_append_right (by omega)] at last
    simp only [step, if_neg hexed, scsprintf]
    rw [last]
    simp

theorem escaped_step (st : Escaping) (c : LVChar) (size : Nat) :
    (step size st c).escaped = st.escaped + if escapedText c = [c] then 0 else 1 := by
  unfold step escapedText
  split
  · split
    · simp [put, store]
    · simp [put, store]
  · have long : escpat c ≠ [c] := by
      intro eq
      have := congrArg List.length eq
      simp only [escpat, List.length_append, List.length_cons, List.length_nil] at this
      omega
    cases size with
    | zero => simp [scsprintf, long]
    | succ size => simp [scsprintf, long]

theorem reach_step (whole : ¬ Truncated size c) :
    (step size st c).reach =
      max st.reach ((step size st c).dest + if Hexed c then 1 else 0) := by
  rw [dest_step]
  unfold step escapedText
  by_cases print : scisprint c ∨ c = 0
  · have plain : ¬ Hexed c := not_not.mpr print
    rw [if_pos print, if_pos print, if_neg plain]
    split
    · simp only [put, store, List.length_cons, List.length_nil]
      omega
    · rfl
  · have fits : (escpat c).length < size := by
      by_contra not
      exact whole ⟨print, by omega⟩
    have hexed : Hexed c := print
    rw [if_neg print, if_neg print, if_pos hexed, scsprintf_eq fits]
    simp only [reach_storeAll (List.append_ne_nil_of_right_ne_nil _ (List.cons_ne_nil 0 [])),
      List.length_append, List.length_cons, List.length_nil]
    omega

/-! ## Runs of the loop -/

theorem text_foldl (st : Escaping) (whole : ∀ c ∈ s, ¬ Truncated size c) :
    (s.foldl (step size) st).text = st.text ++ s.flatMap escapedText := by
  induction s generalizing st with
  | nil => simp
  | cons c s ih =>
    rw [List.foldl_cons, ih _ fun d mem => whole d (List.mem_cons_of_mem c mem),
      text_step (whole c List.mem_cons_self), List.flatMap_cons, List.append_assoc]

theorem escaped_foldl (st : Escaping) (s : List LVChar) (size : Nat) :
    (s.foldl (step size) st).escaped =
      st.escaped + (s.map fun c => if escapedText c = [c] then 0 else 1).sum := by
  induction s generalizing st with
  | nil => simp
  | cons c s ih =>
    rw [List.foldl_cons, ih, escaped_step, List.map_cons, List.sum_cons, Nat.add_assoc]

theorem zero_foldl (s : List LVChar) (zero : ∃ j < st.dest, st.mem j = 0) :
    ∃ j < (s.foldl (step size) st).dest, (s.foldl (step size) st).mem j = 0 := by
  induction s generalizing st with
  | nil => exact zero
  | cons c s ih =>
    obtain ⟨j, lt, at_⟩ := zero
    refine ih ⟨j, ?_, (mem_step_below lt).trans at_⟩
    rw [dest_step]
    omega

theorem zero_of_truncated (st : Escaping) (cut : ∃ c ∈ s, Truncated size c) (positive : 0 < size) :
    ∃ j < (s.foldl (step size) st).dest, (s.foldl (step size) st).mem j = 0 := by
  induction s generalizing st with
  | nil => simp at cut
  | cons c s ih =>
    obtain ⟨d, mem, cut⟩ := cut
    rcases List.mem_cons.mp mem with eq | mem
    · rw [eq] at cut
      exact zero_foldl s (step_truncated cut positive)
    · exact ih _ ⟨d, mem, cut⟩

end Escaping

end Lavril
