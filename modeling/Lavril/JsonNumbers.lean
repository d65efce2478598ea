import Lavril.JsonReading

/-!
# Numbers

The numbers of JSON as they are written. The decoder looks for a dot from the start of a
token on, to the end of the whole text, and knows no exponent.
-/

namespace Lavril.Json

/-- Digits, of which there is one at least. -/
abbrev Digits := { digits : List Char // digits ≠ [] ∧ ∀ c ∈ digits, c.isDigit = true }

structure Exponent where
  upper : Bool
  /-- `true` for a minus. -/
  sign : Option Bool
  digits : Digits

/-- A number; its whole part has no zero in front. -/
structure Numeral where
  negative : Bool
  whole : Nat
  fraction : Option Digits
  exponent : Option Exponent

def Exponent.text (e : Exponent) : List Char :=
  (if e.upper then 'E' else 'e') ::
    ((match e.sign with
      | none => []
      | some minus => [if minus then '-' else '+']) ++ e.digits.val)

namespace Numeral

/-- What follows the whole part. -/
def tail (n : Numeral) : List Char :=
  (match n.fraction with
    | none => []
    | some digits => '.' :: digits.val) ++
  (match n.exponent with
    | none => []
    | some e => e.text)

def text (n : Numeral) : List Char := signed n.negative n.whole ++ n.tail

/-- Neither a fraction nor an exponent. -/
def IsInteger (n : Numeral) : Prop := n.fraction = none ∧ n.exponent = none

/-- The integer of a numeral without a fraction and an exponent. -/
def int (n : Numeral) : Int := if n.negative then -n.whole else n.whole

/-- The value is the number that the numeral is for: `atof` of its characters alone, if it
is no integer. -/
def Denotes (p : Platform) (n : Numeral) : Value → Prop
  | .integer i => n.IsInteger ∧ i.toInt = n.int
  | .float bits => ¬n.IsInteger ∧ bits = p.atof n.text
  | _ => False

end Numeral

/-- What may come behind a primitive. -/
def Delimited (after : List Char) : Prop :=
  ∀ c ∈ after.head?, c ∈ [':', '\t', '\r', '\n', ' ', ',', ']', '}']

/-- The tokenizer ends a primitive at the end of the text or before a delimiter. -/
def Platform.Delimits (p : Platform) : Prop :=
  ∀ js tokens, p.jsmn js = some tokens → ∀ t ∈ tokens, t.type = .primitive →
    t.start ≤ t.stop ∧ Delimited (js.drop t.stop)

/-- `atof` reads no further than the number. -/
def Platform.AtofStops (p : Platform) : Prop :=
  ∀ (n : Numeral) (after : List Char), Delimited after → p.atof (n.text ++ after) = p.atof n.text

/-- What becomes of a number token: the value that its characters denote, whatever else
there is. -/
def DecodesNumber (p : Platform) (js : List Char) (t : JsmnToken) (n : Numeral) : Prop :=
  ∀ fuel room rest, ∃ value,
    parse_level p js (fuel + 1) (room + 1) (t :: rest) = .ok (1, value) ∧ n.Denotes p value

variable {p : Platform} {js : List Char} {t : JsmnToken} {n : Numeral} {after : List Char}

theorem Delimited.stops (delimited : Delimited after) : Stops after := by
  intro c mem
  have delimiter := delimited c mem
  simp only [List.mem_cons, List.not_mem_nil, or_false] at delimiter
  rcases delimiter with rfl | rfl | rfl | rfl | rfl | rfl | rfl | rfl <;> rfl

theorem mem_signed {negative : Bool} {whole : Nat} {c : Char} (mem : c ∈ signed negative whole) :
    c = '-' ∨ c.isDigit = true := by
  cases negative with
  | false => exact .inr (isDigit_of_mem_digits mem)
  | true =>
    rcases List.mem_cons.mp mem with rfl | mem
    · exact .inl rfl
    · exact .inr (isDigit_of_mem_digits mem)

theorem digit_mem_signed (negative : Bool) (whole : Nat) :
    ∃ d ∈ signed negative whole, d.isDigit = true := by
  obtain ⟨d, ds, eq, digit⟩ := digits_cons whole
  refine ⟨d, ?_, digit⟩
  cases negative <;> simp [signed, eq]

theorem ne_dot_of_isDigit {c : Char} (digit : c.isDigit = true) : c ≠ '.' := by
  rintro rfl
  cases digit

theorem not_mem_exponent (e : Exponent) : '.' ∉ e.text := by
  have digits : '.' ∉ e.digits.val := fun mem => ne_dot_of_isDigit (e.digits.property.2 _ mem) rfl
  obtain ⟨upper, sign, ds⟩ := e
  cases upper <;> cases sign <;> simp [Exponent.text] <;> grind

/-- A dot is in the fraction. -/
theorem dot_mem_text (n : Numeral) : '.' ∈ n.text ↔ n.fraction ≠ none := by
  have whole : '.' ∉ signed n.negative n.whole := by
    intro mem
    rcases mem_signed mem with eq | digit
    · cases eq
    · cases digit
  rw [Numeral.text, Numeral.tail]
  cases n.fraction with
  | some digits => simp
  | none =>
    cases n.exponent with
    | none => simpa using whole
    | some e => simpa [whole] using not_mem_exponent e

/-- No number is taken for a word. -/
theorem text_ne_word {word : List Char} (letters : ∀ c ∈ word, c.isDigit = false) :
    n.text.map Char.toLower ≠ word := by
  rintro rfl
  obtain ⟨d, mem, digit⟩ := digit_mem_signed n.negative n.whole
  have lower := letters d.toLower
    (List.mem_map_of_mem (List.mem_append_left n.tail mem))
  rw [toLower_of_isDigit digit, digit] at lower
  cases lower

theorem primitive_number (at_ : js.drop t.start = n.text ++ after) (text : t.slice js = n.text) :
    primitive p js t =
      if '.' ∈ n.text ++ after then .float (p.atof (n.text ++ after))
      else .integer (atol (n.text ++ after)) := by
  simp only [primitive, text, at_]
  rw [if_neg (text_ne_word (by simp)), if_neg (text_ne_word (by simp)),
    if_neg (text_ne_word (by simp))]

theorem toInt_clamp (x : Int) : (BitVec.ofInt 64 (clamp x)).toInt = clamp x := by
  rw [BitVec.toInt_ofInt, clamp]
  exact Int.bmod_eq_of_le (by omega) (by omega)

/-- A number token is decoded as what it denotes exactly if it has a fraction, or it has an
exponent and there is a dot somewhere behind it, or it is an integer of 64 bits and there is
no dot behind it. -/
theorem number_decoded_iff (delimits : p.Delimits) (reads : p.AtofStops)
    {tokens : List JsmnToken} (accepted : p.jsmn js = some tokens) (mem : t ∈ tokens)
    (type : t.type = .primitive) (text : t.slice js = n.text) :
    DecodesNumber p js t n ↔
      n.fraction ≠ none ∨ n.exponent ≠ none ∧ '.' ∈ js.drop t.stop ∨
        n.IsInteger ∧ '.' ∉ js.drop t.stop ∧ -2 ^ 63 ≤ n.int ∧ n.int < 2 ^ 63 := by
  obtain ⟨le, delimited⟩ := delimits js tokens accepted t mem type
  have at_ : js.drop t.start = n.text ++ js.drop t.stop := by
    have stop : t.start + (t.stop - t.start) = t.stop := by omega
    rw [← text, JsmnToken.slice, ← stop, ← List.drop_drop, Nat.add_sub_cancel_left,
      List.take_append_drop]
  have run (fuel room : Nat) (rest : List JsmnToken) :
      parse_level p js (fuel + 1) (room + 1) (t :: rest) = .ok (1, primitive p js t) := by
    rw [parse_level, type]
    rfl
  have decodes : DecodesNumber p js t n ↔ n.Denotes p (primitive p js t) := by
    constructor
    · intro decodes
      obtain ⟨value, run', denotes⟩ := decodes 0 0 []
      rw [run] at run'
      cases run'
      exact denotes
    · exact fun denotes fuel room rest => ⟨_, run fuel room rest, denotes⟩
  have dots : '.' ∈ n.text ++ js.drop t.stop ↔ n.fraction ≠ none ∨ '.' ∈ js.drop t.stop := by
    rw [List.mem_append, dot_mem_text]
  rw [decodes, primitive_number at_ text]
  by_cases dot : n.fraction ≠ none ∨ '.' ∈ js.drop t.stop
  · rw [if_pos (dots.mpr dot), Numeral.Denotes, reads n _ delimited, and_iff_left rfl]
    constructor
    · intro float
      rcases dot with fraction | dot
      · exact .inl fraction
      · by_cases exponent : n.exponent = none
        · exact .inl fun whole => float ⟨whole, exponent⟩
        · exact .inr (.inl ⟨exponent, dot⟩)
    · rintro (fraction | ⟨exponent, -⟩ | ⟨-, none, -⟩) integer
      · exact fraction integer.1
      · exact exponent integer.2
      · exact dot.elim (fun fraction => fraction integer.1) none
  · rw [if_neg fun mem => dot (dots.mp mem), Numeral.Denotes]
    obtain ⟨whole, none⟩ := not_or.mp dot
    have value (integer : n.IsInteger) :
        (atol (n.text ++ js.drop t.stop)).toInt = n.int ↔ -2 ^ 63 ≤ n.int ∧ n.int < 2 ^ 63 := by
      have tail : n.text = signed n.negative n.whole := by
        rw [Numeral.text, Numeral.tail, integer.1, integer.2, List.append_nil, List.append_nil]
      rw [tail, atol_signed _ _ delimited.stops, toInt_clamp]
      show clamp n.int = n.int ↔ _
      rw [clamp]
      omega
    constructor
    · rintro ⟨integer, same⟩
      exact .inr (.inr ⟨integer, none, (value integer).mp same⟩)
    · rintro (fraction | ⟨-, dot⟩ | ⟨integer, -, range⟩)
      · exact absurd fraction whole
      · exact absurd dot none
      · exact ⟨integer, (value integer).mpr range⟩

/-- The text `[1,2.5]`. -/
def oneAndMore : List Char := ['[', '1', ',', '2', '.', '5', ']']

def numbers : List JsmnToken := [⟨.array, 0, 7, 2⟩, ⟨.primitive, 1, 2, 0⟩, ⟨.primitive, 3, 6, 0⟩]

/-- What is made of that text. -/
def numbersPlatform : Platform where
  jsmn js := if js = oneAndMore then some numbers else none
  printFloat _ := []
  atof text := if text.head? = some '1' then 0x3FF0000000000000 else 0x4004000000000000
  unset := []

theorem numbersPlatform_delimits : numbersPlatform.Delimits := by
  intro js tokens accepted t mem type
  by_cases same : js = oneAndMore
  · subst same
    cases accepted
    simp only [numbers, List.mem_cons, List.not_mem_nil, or_false] at mem
    rcases mem with rfl | rfl | rfl
    · cases type
    · exact ⟨by decide, by rintro _ ⟨⟩; decide⟩
    · exact ⟨by decide, by rintro _ ⟨⟩; decide⟩
  · have refused : numbersPlatform.jsmn js = none := if_neg same
    rw [refused] at accepted
    cases accepted

theorem text_ne_nil (n : Numeral) : n.text ≠ [] := by
  obtain ⟨d, mem, -⟩ := digit_mem_signed n.negative n.whole
  exact List.ne_nil_of_mem (List.mem_append_left n.tail mem)

theorem numbersPlatform_atofStops : numbersPlatform.AtofStops := by
  intro n after _
  have same : (n.text ++ after).head? = n.text.head? := List.head?_append_of_ne_nil _ (text_ne_nil n)
  show (if (n.text ++ after).head? = some '1' then _ else _) = _
  rw [same]
  rfl

theorem number_decoded_half :
    DecodesNumber numbersPlatform oneAndMore ⟨.primitive, 3, 6, 0⟩
      ⟨false, 2, some ⟨['5'], by simp⟩, none⟩ :=
  (number_decoded_iff numbersPlatform_delimits numbersPlatform_atofStops
    (rfl : numbersPlatform.jsmn oneAndMore = some numbers) (by decide) rfl (by decide)).mpr
    (.inl (by decide))

/-- The 1 becomes a float, as a dot comes later. -/
theorem integer_becomes_float :
    ¬∀ (p : Platform) (js : List Char) (tokens : List JsmnToken) (t : JsmnToken) (n : Numeral),
      p.Delimits → p.AtofStops → p.jsmn js = some tokens → t ∈ tokens → t.type = .primitive →
        t.slice js = n.text → DecodesNumber p js t n := by
  intro decodes
  obtain ⟨value, run, denotes⟩ := decodes numbersPlatform oneAndMore numbers ⟨.primitive, 1, 2, 0⟩
    ⟨false, 1, none, none⟩ numbersPlatform_delimits numbersPlatform_atofStops rfl (by decide) rfl
    (by decide) 0 0 []
  have float : parse_level numbersPlatform oneAndMore 1 1 [⟨.primitive, 1, 2, 0⟩] =
      .ok (1, .float 0x3FF0000000000000) := rfl
  rw [float] at run
  cases run
  exact denotes.1 ⟨rfl, rfl⟩

end Lavril.Json
