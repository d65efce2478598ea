import Lavril.Pieces
import Mathlib.Algebra.Ring.Nat

/-!
# Trimming strings

The storage of a string is its characters and a terminator. `strip` and `rstrip` use the
length that is kept with a string; what trims on the left reads up to the terminator, and
`lstrip` also takes the length of its result from there.
-/

namespace Lavril

open Pieces

/-- `char`, by its bits. -/
abbrev LVChar := UInt8

/-- The value of a `char`. -/
def signed (c : LVChar) : Int := if c.toNat < 128 then c.toNat else c.toNat - 256

def INT_MAX : Nat := 2 ^ 31 - 1

/-- The characters of a string of C, before its terminator. -/
structure CString where
  chars : List LVChar
  terminated : 0 ∉ chars

namespace CString

def memory (s : CString) : List LVChar := s.chars ++ [0]

def strlen (s : CString) : Nat := s.chars.length

end CString

/-- How a function of the string library ends early: with an access outside the storage it
works on, or by raising an error. -/
inductive StringFault where
  | outside
  | throwerror (err : String)
  deriving DecidableEq

/-- `isspace` in the C locale. -/
def scisspace (c : LVChar) : Bool := c == 32 || 9 ≤ c && c ≤ 13

/-- What is stored of a string. -/
def stringval (s : List LVChar) : List LVChar := s ++ [0]

section storage

variable (mem : List LVChar)

def charAt (i : Nat) : Except StringFault LVChar :=
  match mem[i]? with
  | none => .error .outside
  | some c => .ok c

def scstrlen (start : Nat) : Except StringFault Nat :=
  match (mem.drop start).findIdx? (· == 0) with
  | none => .error .outside
  | some len => .ok len

/-- The string that `lv_pushstring` makes of what is stored from `start` on. -/
def lv_pushstring (start : Nat) (len : Int) : Except StringFault (List LVChar) := do
  let len ← if len < 0 then scstrlen mem start else .ok len.toNat
  if start + len ≤ mem.length then .ok ((mem.drop start).take len) else .error .outside

/-- `strip_l`, from the position `t` on. -/
def strip_l (t : Nat) : Except StringFault Nat :=
  match _stored : mem[t]? with
  | none => .error .outside
  | some c => if c ≠ 0 ∧ scisspace c then strip_l (t + 1) else .ok t
termination_by mem.length - t
decreasing_by
  have := (List.getElem?_eq_some_iff.mp _stored).1
  omega

/-- `strip_r`; `k` is `t + 1`, so that no position is before the string. -/
def strip_r : Nat → Except StringFault Nat
  | 0 => .ok 0
  | k + 1 => do
    let c ← charAt mem k
    if scisspace c then strip_r k else .ok (k + 1)

end storage

def _string_strip (s : List LVChar) : Except StringFault (List LVChar) := do
  let start ← strip_l (stringval s) 0
  let last ← strip_r (stringval s) s.length
  lv_pushstring (stringval s) start (last - start)

def _string_lstrip (s : List LVChar) : Except StringFault (List LVChar) := do
  let start ← strip_l (stringval s) 0
  lv_pushstring (stringval s) start (-1)

def _string_rstrip (s : List LVChar) : Except StringFault (List LVChar) := do
  let last ← strip_r (stringval s) s.length
  lv_pushstring (stringval s) 0 last

section results

variable {s before rest : List LVChar}

/-- The string up to its first NUL. -/
def cstr (s : List LVChar) : List LVChar := s.takeWhile (· ≠ 0)

theorem cstr_eq_self_iff : cstr s = s ↔ 0 ∉ s := by
  simp only [cstr, List.takeWhile_eq_self_iff, decide_eq_true_eq]
  exact ⟨fun all mem => all 0 mem rfl, fun no c mem zero => no (zero ▸ mem)⟩

theorem zero_notMem_cstr (s : List LVChar) : 0 ∉ cstr s := by
  intro mem
  simpa using List.mem_takeWhile_imp mem

theorem findIdx?_terminator (s after : List LVChar) :
    (s ++ 0 :: after).findIdx? (· == 0) = some (cstr s).length := by
  induction s with
  | nil => simp [cstr, List.findIdx?_cons]
  | cons c s ih =>
    by_cases zero : c = 0
    · simp [zero, cstr, List.findIdx?_cons]
    · have further : cstr (c :: s) = c :: cstr s := by simp [cstr, zero]
      simp [List.findIdx?_cons, zero, ih, further]

theorem lv_pushstring_part (before s after : List LVChar) :
    lv_pushstring (before ++ s ++ after) before.length s.length = .ok s := by
  have nonneg : ¬ (s.length : Int) < 0 := by omega
  simp [lv_pushstring, nonneg, bind, Except.bind]

theorem lv_pushstring_cstr (before s after : List LVChar) {len : Int} (neg : len < 0) :
    lv_pushstring (before ++ s ++ 0 :: after) before.length len = .ok (cstr s) := by
  have rest : (before ++ s ++ 0 :: after).drop before.length = s ++ 0 :: after := by simp
  obtain ⟨dropped, split⟩ : cstr s <+: s := List.takeWhile_prefix _
  have measured : scstrlen (before ++ s ++ 0 :: after) before.length = .ok (cstr s).length := by
    rw [scstrlen, rest, findIdx?_terminator]
  have whole := lv_pushstring_part before (cstr s) (dropped ++ 0 :: after)
  have same : before ++ cstr s ++ (dropped ++ 0 :: after) = before ++ s ++ 0 :: after := by
    simp only [List.append_assoc, ← List.append_assoc (cstr s) dropped, split]
  rw [same, lv_pushstring, if_neg (by omega)] at whole
  rw [lv_pushstring, if_pos neg, measured]
  exact whole

theorem strip_l_eq (before s : List LVChar) :
    strip_l (stringval (before ++ s)) before.length =
      .ok (before.length + (s.takeWhile scisspace).length) := by
  induction s generalizing before with
  | nil =>
    have get : (stringval (before ++ []))[before.length]? = some 0 := by simp [stringval]
    rw [strip_l]
    split
    · simp_all
    · rename_i c stored
      obtain rfl : 0 = c := Option.some.inj (get.symm.trans stored)
      simp
  | cons c s ih =>
    have get : (stringval (before ++ c :: s))[before.length]? = some c := by simp [stringval]
    rw [strip_l]
    split
    · simp_all
    · rename_i c' stored
      obtain rfl : c = c' := Option.some.inj (get.symm.trans stored)
      by_cases space : scisspace c
      · have nonzero : c ≠ 0 := by rintro rfl; exact absurd space (by decide)
        have next := ih (before ++ [c])
        rw [List.append_assoc, List.singleton_append, List.length_append] at next
        rw [if_pos ⟨nonzero, space⟩, List.takeWhile_cons_of_pos space]
        refine next.trans ?_
        simp only [List.length_cons, List.length_nil]
        congr 1
        omega
      · rw [if_neg (fun both => space both.2), List.takeWhile_cons_of_neg space]
        rfl

theorem strip_r_eq (k : Nat) (le : k ≤ s.length) :
    strip_r (stringval s) k = .ok ((s.take k).rdropWhile scisspace).length := by
  induction k with
  | zero => simp [strip_r]
  | succ k ih =>
    have lt : k < s.length := by omega
    have get : charAt (stringval s) k = .ok s[k] := by
      simp [charAt, stringval, List.getElem?_append_left lt, lt]
    rw [strip_r, get, List.take_succ_eq_append_getElem lt, List.rdropWhile_concat]
    simp only [bind, Except.bind]
    split
    · exact ih (by omega)
    · simp [Nat.min_eq_left le]

theorem _string_rstrip_eq (s : List LVChar) :
    _string_rstrip s = .ok (s.rdropWhile scisspace) := by
  obtain ⟨after, split⟩ := List.rdropWhile_prefix scisspace s
  have last := strip_r_eq s.length (Nat.le_refl s.length)
  rw [List.take_length] at last
  have part := lv_pushstring_part [] (s.rdropWhile scisspace) (after ++ [0])
  rw [List.nil_append, ← List.append_assoc, split] at part
  rw [_string_rstrip, last]
  exact part

theorem _string_lstrip_eq (s : List LVChar) :
    _string_lstrip s = .ok (cstr (s.dropWhile scisspace)) := by
  have start := strip_l_eq [] s
  have part := lv_pushstring_cstr (s.takeWhile scisspace) (s.dropWhile scisspace) []
    (show (-1 : Int) < 0 by decide)
  rw [List.takeWhile_append_dropWhile] at part
  simp only [List.nil_append, List.length_nil, Nat.zero_add] at start
  rw [_string_lstrip, start]
  exact part

/-- The pointers cross where there is nothing but whitespace; the length that is measured
instead is that of the terminator. -/
theorem _string_strip_eq (s : List LVChar) : _string_strip s = .ok (trim scisspace s) := by
  have start := strip_l_eq [] s
  have last := strip_r_eq s.length (Nat.le_refl s.length)
  simp only [List.nil_append, List.length_nil, Nat.zero_add, List.take_length] at start last
  rw [_string_strip, start, last]
  simp only [bind, Except.bind]
  rcases dropWhile_cases scisspace s with ⟨all, nothing⟩ | ⟨c, rest, found, neg, split⟩
  · have whole : s.takeWhile scisspace = s := List.takeWhile_eq_self_iff.mpr all
    rw [trim, nothing, List.rdropWhile_eq_nil_iff.mpr all, whole]
    by_cases empty : s = []
    · subst empty
      rfl
    · have negative : ((([] : List LVChar).length : Nat) : Int) - s.length < 0 := by
        have := List.length_pos_iff.mpr empty
        simp only [List.length_nil]
        omega
      have crossed := lv_pushstring_cstr s [] [] negative
      rw [List.append_nil] at crossed
      exact crossed
  · obtain ⟨t, kept⟩ := rdropWhile_cons_of_neg (l := rest) neg
    have both : s.rdropWhile scisspace = s.takeWhile scisspace ++ trim scisspace s := by
      rw [trim, found]
      conv_lhs => rw [split]
      exact rdropWhile_append_of_ne_nil (by simp [kept])
    obtain ⟨after, whole⟩ := List.rdropWhile_prefix scisspace s
    have part := lv_pushstring_part (s.takeWhile scisspace) (trim scisspace s) (after ++ [0])
    rw [← both, ← List.append_assoc, whole] at part
    have length : (((s.rdropWhile scisspace).length : Nat) : Int) -
        (s.takeWhile scisspace).length = (trim scisspace s).length := by
      rw [both, List.length_append]
      omega
    rw [length]
    exact part

/-- Trimming both ends is trimming one after the other, and takes whitespace from the ends. -/
def Trims (s : List LVChar) : Prop :=
  ∃ stripped left right, _string_strip s = .ok stripped ∧ _string_lstrip s = .ok left ∧
    _string_rstrip s = .ok right ∧ _string_lstrip right = .ok stripped ∧
    _string_rstrip left = .ok stripped ∧
    ∃ before after, s = before ++ stripped ++ after ∧ (∀ c ∈ before, scisspace c) ∧
      ∀ c ∈ after, scisspace c

theorem mem_trim_of_not_space {c : LVChar} (mem : c ∈ s) (not : ¬ scisspace c) :
    c ∈ trim scisspace s := by
  obtain ⟨before, after, split, left, right⟩ := trim_split scisspace s
  rw [split] at mem
  rcases List.mem_append.mp mem with mem | mem
  · rcases List.mem_append.mp mem with mem | mem
    · exact absurd (left c mem) not
    · exact mem
  · exact absurd (right c mem) not

theorem trims_iff (s : List LVChar) : Trims s ↔ 0 ∉ s := by
  constructor
  · rintro ⟨stripped, left, right, strip, lstrip, rstrip, lstripRight, -⟩ nul
    rw [_string_strip_eq] at strip
    rw [_string_lstrip_eq] at lstripRight
    have kept := mem_trim_of_not_space nul (by decide)
    rw [Except.ok.inj strip, ← Except.ok.inj lstripRight] at kept
    exact zero_notMem_cstr _ kept
  · intro no
    have inDrop : ∀ l : List LVChar, 0 ∉ l → cstr (l.dropWhile scisspace) = l.dropWhile scisspace :=
      fun l no => cstr_eq_self_iff.mpr fun mem => no ((List.dropWhile_sublist _).mem mem)
    have noRight : 0 ∉ s.rdropWhile scisspace :=
      fun mem => no ((List.rdropWhile_prefix scisspace s).mem mem)
    refine ⟨_, _, _, _string_strip_eq s, _string_lstrip_eq s, _string_rstrip_eq s, ?_, ?_,
      trim_split scisspace s⟩
    · rw [_string_lstrip_eq, inDrop _ noRight, dropWhile_rdropWhile]
    · rw [_string_rstrip_eq, inDrop s no, trim]

/-- `"a\0b"`: `strip` keeps the NUL and what follows it, `lstrip` does not. -/
theorem not_trims_nul : ¬ Trims [97, 0, 98] := by
  rintro ⟨stripped, left, right, strip, -, rstrip, lstripRight, -⟩
  have first : _string_strip [97, 0, 98] = .ok [97, 0, 98] := by decide +kernel
  have second : _string_rstrip [97, 0, 98] = .ok [97, 0, 98] := by decide +kernel
  have third : _string_lstrip [97, 0, 98] = .ok [97] := by decide +kernel
  obtain rfl := Except.ok.inj (first.symm.trans strip)
  obtain rfl := Except.ok.inj (second.symm.trans rstrip)
  exact absurd (third.symm.trans lstripRight) (by decide)

end results

end Lavril
