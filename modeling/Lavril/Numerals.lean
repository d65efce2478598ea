import Lavril.Lexer
import Lavril.Rounding
import Mathlib.Data.List.TakeWhile

/-!
# Numerals

What a numeric literal denotes, and what `strtod` reads of a text that starts with a digit: a
`double`, of the longest part of the text that is a floating literal.
-/

namespace Lavril

/-- The number that digits denote. -/
def digitsValue (base : Nat) (ds : List LexChar) : Nat :=
  ds.foldl (fun value c => base * value + hexValue c) 0

/-! ## Floating literals -/

/-- An exponent has its letter, its sign and its digits. -/
structure Floating where
  whole : List LexChar
  fraction : Option (List LexChar)
  exponent : Option (LexChar × List LexChar × List LexChar)

namespace Floating

def fractionText : Option (List LexChar) → List LexChar
  | none => []
  | some ds => _LC '.' :: ds

def exponentText : Option (LexChar × List LexChar × List LexChar) → List LexChar
  | none => []
  | some (e, sign, ds) => e :: (sign ++ ds)

def text (lit : Floating) : List LexChar :=
  lit.whole ++ (fractionText lit.fraction ++ exponentText lit.exponent)

def fractionValue (ds : List LexChar) : ℚ := digitsValue 10 ds / 10 ^ ds.length

def scale : Option (LexChar × List LexChar × List LexChar) → ℤ
  | none => 0
  | some (_, sign, ds) => if sign = [_LC '-'] then -digitsValue 10 ds else digitsValue 10 ds

def value (lit : Floating) : ℚ :=
  (digitsValue 10 lit.whole + fractionValue (lit.fraction.getD [])) * 10 ^ scale lit.exponent

theorem value_nonneg (lit : Floating) : 0 ≤ lit.value := by
  unfold value fractionValue
  positivity

def Digits (ds : List LexChar) : Prop := ∀ c ∈ ds, scisdigit c

/-- What may be between the letter of an exponent and its digits. -/
def Sign (sign : List LexChar) : Prop := sign = [] ∨ sign = [_LC '+'] ∨ sign = [_LC '-']

structure WellFormed (lit : Floating) : Prop where
  some : lit.whole ≠ []
  whole : Digits lit.whole
  fraction : ∀ ds ∈ lit.fraction, Digits ds
  exponent : ∀ e sign ds, (e, sign, ds) ∈ lit.exponent →
    isexponent e ∧ Sign sign ∧ ds ≠ [] ∧ Digits ds
  floats : lit.fraction ≠ none ∨ lit.exponent ≠ none

end Floating

/-- The sign at the start of a text. -/
def signOf (s : List LexChar) : List LexChar :=
  if s.headD 0 = _LC '+' ∨ s.headD 0 = _LC '-' then [s.headD 0] else []

/-- The exponent at the start of a text, if it has digits. -/
def exponentOf (s : List LexChar) : Option (LexChar × List LexChar × List LexChar) :=
  let sign := signOf s.tail
  let ds := (s.tail.drop sign.length).takeWhile scisdigit
  if isexponent (s.headD 0) ∧ ds ≠ [] then some (s.headD 0, sign, ds) else none

/-- What follows the first digits. -/
def afterWhole (whole s : List LexChar) : Floating :=
  if s.headD 0 = _LC '.' then
    ⟨whole, some (s.tail.takeWhile scisdigit), exponentOf (s.tail.dropWhile scisdigit)⟩
  else ⟨whole, none, exponentOf s⟩

/-- The longest part at the start of a text that is a floating literal. -/
def subject (s : List LexChar) : Floating :=
  afterWhole (s.takeWhile scisdigit) (s.dropWhile scisdigit)

/-- `(LVFloat)scstrtod(s, &sTemp)` -/
def strtod (lvfloat : Rounding.Format) (s : List LexChar) : WithTop ℚ :=
  lvfloat.convert (Rounding.binary64.round (subject s).value)

/-! ## Points and exponents -/

/-- A point is marked 1, the letter of an exponent 2. -/
def mark (c : LexChar) : Nat := if c = _LC '.' then 1 else if isexponent c then 2 else 0

/-- `b` may be anywhere behind `a`: what is marked before it is marked lower. -/
def Follows (a b : LexChar) : Prop := mark b ≠ 0 → mark a < mark b

namespace Floating

variable {lit : Floating} {c : LexChar} {ds rest : List LexChar}

theorem takeWhile_stop {p : LexChar → Bool} (each : ∀ c ∈ ds, p c) (stop : p (rest.headD 0) = false) :
    (ds ++ rest).takeWhile p = ds := by
  rw [List.takeWhile_append_of_pos each]
  cases rest with
  | nil => simp
  | cons c rest =>
    have first : ¬ p c = true := by simpa using stop
    rw [List.takeWhile_cons_of_neg first, List.append_nil]

theorem dropWhile_stop {p : LexChar → Bool} (each : ∀ c ∈ ds, p c) (stop : p (rest.headD 0) = false) :
    (ds ++ rest).dropWhile p = rest := by
  rw [List.dropWhile_append_of_pos each]
  cases rest with
  | nil => rfl
  | cons c rest =>
    have first : ¬ p c = true := by simpa using stop
    exact List.dropWhile_cons_of_neg first

theorem not_digit_of_exponent (e : isexponent c = true) : scisdigit c = false ∧ c ≠ _LC '.' := by
  rcases Bool.or_eq_true_iff.mp e with e | e
  · obtain rfl : c = _LC 'e' := by simpa using e
    decide
  · obtain rfl : c = _LC 'E' := by simpa using e
    decide

theorem head_exponentText (wellFormed : lit.WellFormed) :
    scisdigit ((exponentText lit.exponent).headD 0) = false ∧
      (exponentText lit.exponent).headD 0 ≠ _LC '.' := by
  cases exponent : lit.exponent with
  | none => exact ⟨by decide, by decide⟩
  | some exponent' =>
    obtain ⟨e, sign, ds⟩ := exponent'
    exact not_digit_of_exponent (wellFormed.exponent e sign ds exponent).1

theorem exponentOf_text (wellFormed : lit.WellFormed) :
    exponentOf (exponentText lit.exponent) = lit.exponent := by
  cases exponent : lit.exponent with
  | none => rfl
  | some exponent' =>
    obtain ⟨e, sign, ds⟩ := exponent'
    obtain ⟨letter, signed, some, digits⟩ := wellFormed.exponent e sign ds exponent
    have taken : ds.takeWhile scisdigit = ds := List.takeWhile_eq_self_iff.mpr digits
    have sign_eq : signOf (sign ++ ds) = sign := by
      rcases signed with rfl | rfl | rfl
      · cases ds with
        | nil => exact absurd rfl some
        | cons d ds =>
          have digit := digits d List.mem_cons_self
          have plain : ¬ (d = _LC '+' ∨ d = _LC '-') := by
            rintro (rfl | rfl) <;> exact absurd digit (by decide)
          exact if_neg plain
      · rfl
      · rfl
    simp only [exponentText, exponentOf, List.tail_cons, sign_eq, List.drop_left, taken,
      List.headD_cons, if_pos (And.intro letter some)]

/-- A floating literal is read as a whole. -/
theorem subject_text (wellFormed : lit.WellFormed) : subject lit.text = lit := by
  obtain ⟨stop, point⟩ := head_exponentText wellFormed
  have read := exponentOf_text wellFormed
  obtain ⟨whole, fraction, exponent⟩ := lit
  cases fraction with
  | none =>
    have taken := takeWhile_stop wellFormed.whole stop
    have left := dropWhile_stop wellFormed.whole stop
    simp only at taken left read point
    simp only [text, fractionText, List.nil_append]
    rw [subject, taken, left, afterWhole, if_neg point, read]
  | some ds =>
    have digits := wellFormed.fraction ds rfl
    have dot : scisdigit ((_LC '.' :: (ds ++ exponentText exponent)).headD 0) = false := by
      have : scisdigit (_LC '.') = false := by decide
      exact this
    have taken := takeWhile_stop wellFormed.whole dot
    have left := dropWhile_stop wellFormed.whole dot
    have taken' := takeWhile_stop digits stop
    have left' := dropWhile_stop digits stop
    simp only at taken left taken' left' read
    simp only [text, fractionText, List.cons_append]
    rw [subject, taken, left, afterWhole, List.headD_cons, if_pos rfl, List.tail_cons, taken', left',
      read]

theorem mark_digit (digit : scisdigit c = true) : mark c = 0 := by
  revert digit
  exact forall_char (by decide +kernel) c

theorem mark_exponent (e : isexponent c = true) : mark c = 2 := by
  revert e
  exact forall_char (by decide +kernel) c

theorem mark_sign {sign : List LexChar} (signed : Sign sign) (mem : c ∈ sign) : mark c = 0 := by
  rcases signed with rfl | rfl | rfl
  · cases mem
  · rw [List.mem_singleton.mp mem]
    decide
  · rw [List.mem_singleton.mp mem]
    decide

theorem mark_ne_zero_iff : mark c ≠ 0 ↔ c = _LC '.' ∨ isexponent c = true := by
  unfold mark
  split
  · simp_all
  · split <;> simp_all

theorem pairwise_of_mark_zero {s : List LexChar} (zero : ∀ c ∈ s, mark c = 0) : s.Pairwise Follows :=
  List.pairwise_of_forall_mem_list fun _ _ b mem marked => absurd (zero b mem) marked

theorem mark_fractionText (wellFormed : lit.WellFormed) :
    (fractionText lit.fraction).Pairwise Follows ∧ ∀ c ∈ fractionText lit.fraction, mark c ≤ 1 := by
  cases fraction : lit.fraction with
  | none => simp [fractionText]
  | some ds =>
    have digits := wellFormed.fraction ds fraction
    have zero : ∀ c ∈ ds, mark c = 0 := fun c mem => mark_digit (digits c mem)
    constructor
    · exact List.pairwise_cons.mpr
        ⟨fun b mem marked => absurd (zero b mem) marked, pairwise_of_mark_zero zero⟩
    · intro c mem
      rcases List.mem_cons.mp mem with rfl | mem
      · decide
      · rw [zero c mem]
        exact Nat.zero_le 1

theorem mark_exponentText (wellFormed : lit.WellFormed) :
    (exponentText lit.exponent).Pairwise Follows ∧
      ∀ c ∈ exponentText lit.exponent, mark c ≠ 0 → mark c = 2 := by
  cases exponent : lit.exponent with
  | none => simp [exponentText]
  | some exponent' =>
    obtain ⟨e, sign, ds⟩ := exponent'
    obtain ⟨letter, signed, -, digits⟩ := wellFormed.exponent e sign ds exponent
    have zero : ∀ c ∈ sign ++ ds, mark c = 0 := by
      intro c mem
      rcases List.mem_append.mp mem with mem | mem
      · exact mark_sign signed mem
      · exact mark_digit (digits c mem)
    constructor
    · exact List.pairwise_cons.mpr
        ⟨fun b mem marked => absurd (zero b mem) marked, pairwise_of_mark_zero zero⟩
    · intro c mem marked
      rcases List.mem_cons.mp mem with rfl | mem
      · exact mark_exponent letter
      · exact absurd (zero c mem) marked

/-- A floating literal has one point at most, and behind it one exponent. -/
theorem pairwise_text (wellFormed : lit.WellFormed) : lit.text.Pairwise Follows := by
  obtain ⟨fraction, low⟩ := mark_fractionText wellFormed
  obtain ⟨exponent, high⟩ := mark_exponentText wellFormed
  have zero : ∀ c ∈ lit.whole, mark c = 0 := fun c mem => mark_digit (wellFormed.whole c mem)
  refine List.pairwise_append.mpr ⟨pairwise_of_mark_zero zero,
    List.pairwise_append.mpr ⟨fraction, exponent, ?_⟩, ?_⟩
  · intro a before b behind marked
    have := low a before
    have := high b behind marked
    omega
  · intro a before b _ marked
    rw [zero a before]
    omega

theorem marked_text (wellFormed : lit.WellFormed) : ∃ c ∈ lit.text, mark c ≠ 0 := by
  rcases wellFormed.floats with some | some
  · obtain ⟨ds, fraction⟩ := Option.ne_none_iff_exists'.mp some
    refine ⟨_LC '.', ?_, by decide⟩
    simp [text, fraction, fractionText]
  · obtain ⟨⟨e, sign, ds⟩, exponent⟩ := Option.ne_none_iff_exists'.mp some
    refine ⟨e, ?_, ?_⟩
    · simp [text, exponent, exponentText]
    · rw [mark_exponent (wellFormed.exponent e sign ds exponent).1]
      decide

theorem char_text (wellFormed : lit.WellFormed) (mem : c ∈ lit.text) :
    scisdigit c = true ∨ mark c ≠ 0 ∨ c = _LC '+' ∨ c = _LC '-' := by
  rcases List.mem_append.mp mem with mem | mem
  · exact .inl (wellFormed.whole c mem)
  rcases List.mem_append.mp mem with mem | mem
  · cases fraction : lit.fraction with
    | none => simp [fraction, fractionText] at mem
    | some ds =>
      rw [fraction] at mem
      rcases List.mem_cons.mp mem with rfl | mem
      · exact .inr (.inl (by decide))
      · exact .inl (wellFormed.fraction ds fraction c mem)
  · cases exponent : lit.exponent with
    | none => simp [exponent, exponentText] at mem
    | some exponent' =>
      obtain ⟨e, sign, ds⟩ := exponent'
      obtain ⟨letter, signed, -, digits⟩ := wellFormed.exponent e sign ds exponent
      rw [exponent] at mem
      rcases List.mem_cons.mp mem with rfl | mem
      · exact .inr (.inl (by rw [mark_exponent letter]; decide))
      rcases List.mem_append.mp mem with mem | mem
      · rcases signed with rfl | rfl | rfl
        · cases mem
        · exact .inr (.inr (.inl (List.mem_singleton.mp mem)))
        · exact .inr (.inr (.inr (List.mem_singleton.mp mem)))
      · exact .inl (digits c mem)

end Floating

/-! ## Numerals of each kind -/

/-- The digits of an octal numeral are behind its `0`, those of a hexadecimal one behind its
`0` and `x`. -/
inductive NumberLiteral where
  | decimal (ds : List LexChar)
  | octal (ds : List LexChar)
  | hexadecimal (x : LexChar) (ds : List LexChar)
  | floating (lit : Floating)

/-- The text starts as an octal numeral does. -/
def StartsOctal (s : List LexChar) : Prop := s.headD 0 = _LC '0' ∧ scisodigit (s.tail.headD 0)

instance (s : List LexChar) : Decidable (StartsOctal s) := inferInstanceAs (Decidable (_ ∧ _))

namespace NumberLiteral

open Floating

variable {n n' : NumberLiteral}

def text : NumberLiteral → List LexChar
  | decimal ds => ds
  | octal ds => _LC '0' :: ds
  | hexadecimal x ds => _LC '0' :: x :: ds
  | floating lit => lit.text

def WellFormed : NumberLiteral → Prop
  | decimal ds => ds ≠ [] ∧ Digits ds ∧ ¬ StartsOctal ds
  | octal ds => ds ≠ [] ∧ ∀ c ∈ ds, scisodigit c
  | hexadecimal x ds => toupper x = _LC 'X' ∧ ds ≠ [] ∧ ∀ c ∈ ds, isxdigit c
  | floating lit => lit.WellFormed ∧ ¬ StartsOctal lit.text

/-- What an integer numeral denotes. -/
def integer : NumberLiteral → Option Nat
  | decimal ds => digitsValue 10 ds
  | octal ds => digitsValue 8 ds
  | hexadecimal _ ds => digitsValue 16 ds
  | floating _ => none

/-- The numeral that a text is, if it is one. -/
def classify (s : List LexChar) : NumberLiteral :=
  if StartsOctal s then octal s.tail
  else if toupper (s.tail.headD 0) = _LC 'X' then hexadecimal (s.tail.headD 0) (s.drop 2)
  else if s.all scisdigit then decimal s
  else floating (subject s)

theorem not_x_of_digit {c : LexChar} (digit : scisdigit c = true) :
    toupper c ≠ _LC 'X' := by
  revert digit
  exact forall_char (by decide +kernel) c

theorem not_x_of_floating {c : LexChar} :
    scisdigit c = true ∨ mark c ≠ 0 ∨ c = _LC '+' ∨ c = _LC '-' → toupper c ≠ _LC 'X' :=
  forall_char (by decide +kernel) c

/-- The second character of a text whose characters are no `x`. -/
theorem second_ne_x {s : List LexChar} (each : ∀ c ∈ s, toupper c ≠ _LC 'X') :
    toupper (s.tail.headD 0) ≠ _LC 'X' := by
  match s with
  | [] => decide
  | [_] =>
    have zero : toupper 0 ≠ _LC 'X' := by decide
    exact zero
  | _ :: c :: s => exact each c (by simp)

theorem classify_text (wellFormed : n.WellFormed) : classify n.text = n := by
  cases n with
  | decimal ds =>
    obtain ⟨-, digits, start⟩ := wellFormed
    have second := second_ne_x fun c mem => not_x_of_digit (digits c mem)
    have all : ds.all scisdigit = true := List.all_eq_true.mpr digits
    rw [classify, text, if_neg start, if_neg second, if_pos all]
  | octal ds =>
    obtain ⟨some, digits⟩ := wellFormed
    have start : StartsOctal (_LC '0' :: ds) := by
      cases ds with
      | nil => exact absurd rfl some
      | cons d ds => exact ⟨rfl, digits d List.mem_cons_self⟩
    rw [classify, text, if_pos start, List.tail_cons]
  | hexadecimal x ds =>
    obtain ⟨letter, -, -⟩ := wellFormed
    have start : ¬ StartsOctal (_LC '0' :: x :: ds) := by
      rintro ⟨-, octal⟩
      have noDigit : ∀ x : LexChar, toupper x = _LC 'X' → ¬ scisodigit x = true :=
        fun x => forall_char (by decide +kernel) x
      exact noDigit x letter octal
    rw [classify, text, if_neg start]
    exact if_pos letter
  | floating lit =>
    obtain ⟨wellFormed, start⟩ := wellFormed
    have second := second_ne_x fun c mem => not_x_of_floating (char_text wellFormed mem)
    have all : ¬ lit.text.all scisdigit = true := by
      intro all
      obtain ⟨c, mem, marked⟩ := marked_text wellFormed
      exact marked (mark_digit (List.all_eq_true.mp all c mem))
    rw [classify, text, if_neg start, if_neg second, if_neg all, subject_text wellFormed]

/-- A text is one literal at most. -/
theorem eq_of_text (wellFormed : n.WellFormed) (wellFormed' : n'.WellFormed)
    (same : n.text = n'.text) : n = n' := by
  rw [← classify_text wellFormed, same, classify_text wellFormed']

end NumberLiteral

end Lavril
