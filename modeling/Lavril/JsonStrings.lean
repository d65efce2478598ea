import Lavril.JsonReading
import Lavril.Utf8

/-!
# The strings of JSON

A string in a text is a list of spelled characters between quotes. A string that stands
there as it is may be read in no other way than as itself: a spelling that is longer than
what it is for would take the quotes along with it.
-/

namespace Lavril.Json

/-- What follows a backslash, with its character. -/
def shortEscapes : List (Char × Char) :=
  [('"', '"'), ('\\', '\\'), ('/', '/'), ('b', '\x08'), ('f', '\x0c'), ('n', '\n'), ('r', '\r'),
    ('t', '\t')]

def hexDigit (c : Char) : Nat :=
  if c.isDigit then c.toNat - '0'.toNat else c.toLower.toNat - 'a'.toNat + 10

/-- A code unit in four hexadecimal digits. -/
structure CodeUnit where
  digits : List Char
  four : digits.length = 4
  hex : ∀ c ∈ digits, isHex c

namespace CodeUnit

def value (u : CodeUnit) : Nat := u.digits.foldl (fun n c => 16 * n + hexDigit c) 0

def text (u : CodeUnit) : List Char := '\\' :: 'u' :: u.digits

def IsHigh (u : CodeUnit) : Prop := 0xd800 ≤ u.value ∧ u.value < 0xdc00

def IsLow (u : CodeUnit) : Prop := 0xdc00 ≤ u.value ∧ u.value < 0xe000

end CodeUnit

/-- The bytes of a code point, each as a character. -/
def utf8 (n : Nat) : List Char := (Utf8.encode n).map fun b => Char.ofNat b.toNat

/-- A part of a string and how it may be spelled. -/
inductive Spelled : List Char → List Char → Prop
  | plain {c : Char} (printable : 0x20 ≤ c.toNat) (quote : c ≠ '"') (backslash : c ≠ '\\') :
    Spelled [c] [c]
  | short {e c : Char} (mem : (e, c) ∈ shortEscapes) : Spelled [c] ['\\', e]
  | unicode (u : CodeUnit) (high : ¬u.IsHigh) (low : ¬u.IsLow) : Spelled (utf8 u.value) u.text
  | pair (u u' : CodeUnit) (high : u.IsHigh) (low : u'.IsLow) :
    Spelled (utf8 (0x10000 + (u.value - 0xd800) * 0x400 + (u'.value - 0xdc00))) (u.text ++ u'.text)

/-- A string and what may stand between the quotes for it. -/
inductive Spells : List Char → List Char → Prop
  | nil : Spells [] []
  | cons {part text s body : List Char} (first : Spelled part text) (rest : Spells s body) :
    Spells (part ++ s) (text ++ body)

/-- A text for a string. -/
def Quotes (s t : List Char) : Prop := ∃ body, Spells s body ∧ t = '"' :: (body ++ ['"'])

/-- No character has to be escaped. -/
def Clean (s : List Char) : Prop := ∀ c ∈ s, 0x20 ≤ c.toNat ∧ c ≠ '"' ∧ c ≠ '\\'

variable {s part text body r r' : List Char}

theorem Clean.spells (clean : Clean s) : Spells s s := by
  induction s with
  | nil => exact .nil
  | cons c s ih =>
    obtain ⟨printable, quote, backslash⟩ := clean c List.mem_cons_self
    exact .cons (.plain printable quote backslash) (ih fun c mem => clean c (List.mem_cons_of_mem _ mem))

/-! ## Up to the first quote -/

/-- How many characters there are before the first quote. -/
def quoteless (s : List Char) : Nat := (s.takeWhile (· ≠ '"')).length

theorem quoteless_cons (c : Char) (s : List Char) :
    quoteless (c :: s) = if c = '"' then 0 else quoteless s + 1 := by
  by_cases quote : c = '"' <;> simp [quoteless, quote]

theorem quoteless_append_le (part s : List Char) :
    quoteless (part ++ s) ≤ part.length + quoteless s := by
  induction part with
  | nil => simp
  | cons c part ih =>
    rw [List.cons_append, quoteless_cons, List.length_cons]
    split <;> omega

theorem quoteless_append (none : '"' ∉ part) (s : List Char) :
    quoteless (part ++ s) = part.length + quoteless s := by
  induction part with
  | nil => simp
  | cons c part ih =>
    have first : c ≠ '"' := fun eq => none (eq ▸ List.mem_cons_self)
    have rest := ih fun mem => none (List.mem_cons_of_mem c mem)
    rw [List.cons_append, quoteless_cons, if_neg first, rest, List.length_cons]
    omega

/-- A text that ends with a quote, up to which a string is cut. -/
theorem quoteless_cut (s r : List Char) : quoteless (cstring s ++ '"' :: r) ≤ quoteless s := by
  induction s with
  | nil => simp [cstring, quoteless]
  | cons c s ih =>
    by_cases null : c = '\x00'
    · simp [cstring, null, quoteless]
    · have kept : cstring (c :: s) = c :: cstring s := by simp [cstring, null]
      rw [kept, List.cons_append, quoteless_cons, quoteless_cons]
      split <;> omega

theorem CodeUnit.quote_not_mem (u : CodeUnit) : '"' ∉ u.text := by
  intro mem
  simp only [CodeUnit.text, List.mem_cons] at mem
  rcases mem with eq | eq | mem
  · cases eq
  · cases eq
  · exact absurd (u.hex _ mem) (by decide)

theorem CodeUnit.length_text (u : CodeUnit) : u.text.length = 6 := by
  simp [CodeUnit.text, u.four]

theorem length_utf8 (n : Nat) : (utf8 n).length ≤ 4 := by
  rw [utf8, List.length_map, Utf8.length_encode, Utf8.width]
  split
  · omega
  · split
    · omega
    · split <;> omega

/-- A part that is not spelled by itself comes later to its end in the text. -/
theorem Spelled.later (spelled : Spelled part text) {s rest : List Char}
    (le : quoteless s ≤ quoteless rest) :
    (∃ c, part = [c] ∧ text = [c] ∧ Clean [c]) ∨
      quoteless (part ++ s) < quoteless (text ++ rest) := by
  have longer (n : Nat) (t : List Char) (none : '"' ∉ t) (more : 4 < t.length) :
      quoteless (utf8 n ++ s) < quoteless (t ++ rest) := by
    have upper := quoteless_append_le (utf8 n) s
    have short := length_utf8 n
    rw [quoteless_append none]
    omega
  cases spelled with
  | @plain c printable quote backslash =>
    exact .inl ⟨c, rfl, rfl, by simpa [Clean] using ⟨printable, quote, backslash⟩⟩
  | @short e c mem =>
    right
    by_cases quote : e = '"'
    · have same : c = '"' := by
        simp only [shortEscapes, List.mem_cons, Prod.mk.injEq, List.not_mem_nil, or_false] at mem
        grind
      simp [quoteless_cons, same]
    · have upper := quoteless_append_le [c] s
      have none : '"' ∉ ['\\', e] := by simpa using Ne.symm quote
      rw [quoteless_append none]
      simp only [List.length_cons, List.length_nil] at upper ⊢
      omega
  | unicode u high low =>
    have length := u.length_text
    exact .inr (longer _ _ u.quote_not_mem (by omega))
  | pair u u' high low =>
    have none : '"' ∉ u.text ++ u'.text := by
      rw [List.mem_append, not_or]
      exact ⟨u.quote_not_mem, u'.quote_not_mem⟩
    have length : (u.text ++ u'.text).length = 12 := by
      rw [List.length_append, u.length_text, u'.length_text]
    exact .inr (longer _ _ none (by omega))

theorem Spells.quoteless_le (spells : Spells s body) (r : List Char) :
    quoteless s ≤ quoteless (body ++ '"' :: r) := by
  induction spells with
  | nil => exact Nat.zero_le _
  | cons first rest ih =>
    rw [List.append_assoc]
    rcases first.later ih with ⟨c, rfl, rfl, clean⟩ | lt
    · obtain ⟨-, quote, -⟩ := clean c List.mem_cons_self
      rw [List.singleton_append, List.singleton_append, quoteless_cons, quoteless_cons, if_neg quote,
        if_neg quote]
      omega
    · exact le_of_lt lt

/-- Where a string stands as it is up to a null character, nothing but itself can be read
there for it, and this only if nothing had to be escaped. -/
theorem Spells.eq_of_cut (spells : Spells s body)
    (eq : body ++ '"' :: r = cstring s ++ '"' :: r') : body = s ∧ Clean s := by
  induction spells with
  | nil => exact ⟨rfl, by simp [Clean]⟩
  | @cons part text s body first rest ih =>
    rcases first.later (rest.quoteless_le r) with ⟨c, rfl, rfl, clean⟩ | lt
    · have printable := (clean c List.mem_cons_self).1
      have null : c ≠ '\x00' := by
        rintro rfl
        exact absurd printable (by decide)
      have kept : cstring ([c] ++ s) = c :: cstring s := by simp [cstring, null]
      rw [kept] at eq
      obtain ⟨rfl, all⟩ := ih (List.cons.inj eq).2
      refine ⟨rfl, fun d mem => ?_⟩
      rcases List.mem_cons.mp mem with rfl | mem
      · exact clean d List.mem_cons_self
      · exact all d mem
    · -- the text would reach its first quote too late
      have upper := quoteless_cut (part ++ s) r'
      rw [← eq, List.append_assoc] at upper
      omega

theorem Clean.cstring (clean : Clean s) : cstring s = s := by
  refine cstring_of_not_mem fun mem => ?_
  exact absurd (clean _ mem).1 (by decide)

theorem Clean.quotes (clean : Clean s) : Quotes s ('"' :: (s ++ ['"'])) := ⟨s, clean.spells, rfl⟩

end Lavril.Json
