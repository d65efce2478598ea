import Lavril.JsonStrings
import Lavril.JsonCapacity
import Lavril.JsonNumbers
import Lavril.JsonRoundTrip
import Mathlib.Algebra.Field.Rat
import Mathlib.Data.Rat.Cast.Defs

/-!
# What the encoder returns as JSON

The texts that JSON has for a value, with the members of a table in the order of the table.
The encoder looks at no error on its way down: it returns a text whatever it finds, and that
text is JSON for the value only if there was nothing to fail on.
-/

namespace Lavril.Json

def Exponent.value (e : Exponent) : ℤ :=
  let n : ℕ := Nat.ofDigitChars 10 e.digits.val 0
  if e.sign = some true then -(n : ℤ) else n

/-- The number of the digits behind a dot. -/
def fractionValue (digits : Digits) : ℚ :=
  ((Nat.ofDigitChars 10 digits.val 0 : ℕ) : ℚ) / 10 ^ digits.val.length

/-- The number that a numeral is for. -/
def Numeral.value (n : Numeral) : ℚ :=
  (if n.negative then -1 else 1) * (n.whole + n.fraction.elim 0 fractionValue) *
    (10 : ℚ) ^ n.exponent.elim 0 Exponent.value

/-- Characters that may stand between tokens. -/
def Blank (s : List Char) : Prop := ∀ c ∈ s, c ∈ [' ', '\t', '\n', '\r']

/-- A text of some kind with blanks around it. -/
def Padded (IsText : List Char → Prop) (t : List Char) : Prop :=
  ∃ before text after, Blank before ∧ Blank after ∧ IsText text ∧ t = before ++ (text ++ after)

mutual

/-- The texts that JSON has for a value. A float is the number that its numeral is read as. -/
def Denotes (p : Platform) : Value → List Char → Prop
  | .null => fun t => t = "null".toList
  | .bool b => fun t => t = (if b then "true" else "false").toList
  | .integer i => fun t => ∃ n : Numeral, t = n.text ∧ n.value = i.toInt
  | .float bits => fun t => ∃ n : Numeral, t = n.text ∧ p.atof t = bits
  | .string s => Quotes s
  | .array values => fun t => ∃ inside, t = '[' :: (inside ++ [']']) ∧ DenotesElements p values inside
  | .table members => fun t =>
    ∃ inside, t = '{' :: (inside ++ ['}']) ∧ DenotesMembers p members inside
  | .other _ => fun _ => False

/-- What stands between the braces. -/
def DenotesMembers (p : Platform) : List (Value × Value) → List Char → Prop
  | [] => Blank
  | (k, value) :: members => fun t =>
    ∃ s key text rest, k = .string s ∧ Padded (Quotes s) key ∧ Padded (Denotes p value) text ∧
      t = key ++ ':' :: (text ++ rest) ∧
        (if members = [] then rest = []
          else ∃ more, rest = ',' :: more ∧ DenotesMembers p members more)

/-- What stands between the brackets. -/
def DenotesElements (p : Platform) : List Value → List Char → Prop
  | [] => Blank
  | value :: values => fun t =>
    ∃ text rest, Padded (Denotes p value) text ∧ t = text ++ rest ∧
      (if values = [] then rest = [] else ∃ more, rest = ',' :: more ∧ DenotesElements p values more)

end

mutual

/-- A value all of which can be converted as the encoder does it. -/
def Value.Convertible (p : Platform) : Value → Prop
  | .null | .bool _ | .integer _ => True
  | .float bits =>
    ∃ n : Numeral, cstring (p.printFloat bits) = n.text ∧ p.atof (cstring (p.printFloat bits)) = bits
  | .string s => Clean s
  | .array values => ConvertibleElements p values
  | .table members => ConvertibleMembers p members
  | .other _ => False

def ConvertibleMembers (p : Platform) : List (Value × Value) → Prop
  | [] => True
  | (k, value) :: members =>
    (∃ s, k = .string s ∧ Clean s) ∧ value.Convertible p ∧ ConvertibleMembers p members

def ConvertibleElements (p : Platform) : List Value → Prop
  | [] => True
  | value :: values => value.Convertible p ∧ ConvertibleElements p values

end

/-- `snprintf` with `%g` makes no character that would end a number. -/
def Platform.PrintsWords (p : Platform) : Prop :=
  ∀ bits, ∀ c ∈ p.printFloat bits, ¬Delimited [c]

/-- The call raises an error or returns a text for the value, and it does the same whatever
the unset pointer `key` leads to. -/
def EncodesOrFails (p : Platform) (room : Nat) (value : Value) : Prop :=
  ((∃ message, json_encode p room value = .error (.raised message)) ∨
    ∃ out, json_encode p room value = .ok out ∧ out.overrun = false ∧
      Padded (Denotes p value) (cstring out.dest)) ∧
  ∀ unset, json_encode { p with unset := unset } room value = json_encode p room value

variable {p : Platform} {s t r r' : List Char} {n : Numeral} {value : Value} {values : List Value}
  {members : List (Value × Value)}

/-! ## No null character -/

theorem null_not_mem_cstring (s : List Char) : '\x00' ∉ cstring s := by
  intro mem
  simpa using List.mem_takeWhile_imp mem

theorem cstring_cstring (s : List Char) : cstring (cstring s) = cstring s :=
  cstring_of_not_mem (null_not_mem_cstring s)

theorem null_not_mem_quoted (s : List Char) : '\x00' ∉ textOf (quoted s) := by
  simpa [quoted] using null_not_mem_cstring s

theorem null_not_mem_separator {α : Type} (rest : List α) : '\x00' ∉ textOf (separator rest) := by
  cases rest <;> simp [separator]

mutual

theorem null_not_mem_pieces (p : Platform) : ∀ value : Value, '\x00' ∉ textOf (value.pieces p)
  | .null => by simp [Value.pieces]
  | .other _ => by simp [Value.pieces]
  | .bool b => by cases b <;> simp [Value.pieces, plain]
  | .integer i => by
    simpa [Value.pieces, plain] using not_mem_printInteger (i := i) (by decide) (by decide)
  | .float bits => by simpa [Value.pieces, plain] using null_not_mem_cstring (p.printFloat bits)
  | .string s => null_not_mem_quoted s
  | .array values => by simpa [Value.pieces] using null_not_mem_elements p values
  | .table members => by simpa [Value.pieces] using null_not_mem_members p members p.unset

theorem null_not_mem_members (p : Platform) :
    ∀ (members : List (Value × Value)) (key : List Char), '\x00' ∉ textOf (memberPieces p members key)
  | [], _ => by simp [memberPieces]
  | (k, value) :: members, key => by
    simpa [memberPieces] using ⟨null_not_mem_quoted (getstring k key), null_not_mem_pieces p value,
      null_not_mem_separator members, null_not_mem_members p members (getstring k key)⟩

theorem null_not_mem_elements (p : Platform) :
    ∀ values : List Value, '\x00' ∉ textOf (elementPieces p values)
  | [] => by simp [elementPieces]
  | value :: values => by
    simpa [elementPieces] using ⟨null_not_mem_pieces p value, null_not_mem_separator values,
      null_not_mem_elements p values⟩

end

/-! ## Words -/

/-- What comes behind a value that is encoded. -/
def Closed (after : List Char) : Prop := ∀ c ∈ after.head?, c ∈ [':', ',', ']', '}']

theorem Closed.delimited (closed : Closed r) : Delimited r := by
  intro c mem
  have := closed c mem
  simp only [List.mem_cons, List.not_mem_nil, or_false] at this ⊢
  tauto

theorem delimited_cons {c : Char} : Delimited (c :: r) ↔ Delimited [c] := by simp [Delimited]

/-- Two words before delimiters are the same. -/
theorem word_eq {w w' : List Char} (word : ∀ c ∈ w, ¬Delimited [c])
    (word' : ∀ c ∈ w', ¬Delimited [c]) (ends : Delimited r) (ends' : Delimited r')
    (eq : w ++ r = w' ++ r') : w = w' := by
  induction w generalizing w' with
  | nil =>
    cases w' with
    | nil => rfl
    | cons c w' =>
      rw [List.nil_append] at eq
      rw [eq, List.cons_append, delimited_cons] at ends
      exact absurd ends (word' c List.mem_cons_self)
  | cons c w ih =>
    cases w' with
    | nil =>
      rw [List.nil_append] at eq
      rw [← eq, List.cons_append, delimited_cons] at ends'
      exact absurd ends' (word c List.mem_cons_self)
    | cons c' w' =>
      obtain ⟨rfl, rest⟩ := List.cons.inj eq
      rw [ih (fun c mem => word c (List.mem_cons_of_mem _ mem))
        (fun c mem => word' c (List.mem_cons_of_mem _ mem)) rest]

theorem word_of_isDigit {c : Char} (digit : c.isDigit = true) : ¬Delimited [c] := by
  intro delimited
  have stops := delimited.stops c rfl
  rw [digit] at stops
  cases stops

theorem word_signed {negative : Bool} {whole : Nat} {c : Char} (mem : c ∈ signed negative whole) :
    ¬Delimited [c] := by
  rcases mem_signed mem with rfl | digit
  · simp [Delimited]
  · exact word_of_isDigit digit

theorem Exponent.word (e : Exponent) {c : Char} (mem : c ∈ e.text) : ¬Delimited [c] := by
  obtain ⟨upper, sign, digits⟩ := e
  rw [Exponent.text, List.mem_cons, List.mem_append] at mem
  rcases mem with rfl | mem | mem
  · cases upper <;> simp [Delimited]
  · rcases sign with none | _ | _
    · cases mem
    · obtain rfl := List.mem_singleton.mp mem
      simp [Delimited]
    · obtain rfl := List.mem_singleton.mp mem
      simp [Delimited]
  · exact word_of_isDigit (digits.property.2 c mem)

theorem Numeral.word (n : Numeral) {c : Char} (mem : c ∈ n.text) : ¬Delimited [c] := by
  obtain ⟨negative, whole, fraction, exponent⟩ := n
  rw [Numeral.text, Numeral.tail, List.mem_append, List.mem_append] at mem
  rcases mem with mem | mem | mem
  · exact word_signed mem
  · cases fraction with
    | none => cases mem
    | some digits =>
      rcases List.mem_cons.mp mem with rfl | mem
      · simp [Delimited]
      · exact word_of_isDigit (digits.property.2 c mem)
  · cases exponent with
    | none => cases mem
    | some e => exact e.word mem

/-- The numeral of an integer. -/
def integerNumeral (i : BitVec 64) : Numeral := ⟨decide (i.toInt < 0), i.toInt.natAbs, none, none⟩

theorem text_integerNumeral (i : BitVec 64) : (integerNumeral i).text = printInteger i := by
  rw [printInteger_eq, Numeral.text, integerNumeral, Numeral.tail]
  simp

theorem value_integerNumeral (i : BitVec 64) : (integerNumeral i).value = i.toInt := by
  have value : (integerNumeral i).value =
      (if i.toInt < 0 then -1 else 1) * ((i.toInt.natAbs : ℤ) : ℚ) := by
    simp [Numeral.value, integerNumeral]
  rw [value]
  split
  · rename_i neg
    have abs : (i.toInt.natAbs : ℤ) = -i.toInt := by omega
    rw [abs, Int.cast_neg, neg_mul_neg, one_mul]
  · rename_i nonneg
    have abs : (i.toInt.natAbs : ℤ) = i.toInt := by omega
    rw [abs, one_mul]

/-! ## The text of a value that can be converted -/

theorem Padded.of_text {IsText : List Char → Prop} (text : IsText t) : Padded IsText t :=
  ⟨[], t, [], by simp [Blank], by simp [Blank], text, by simp⟩

theorem Clean.padded (clean : Clean s) : Padded (Quotes s) (textOf (quoted (getstring (.string s) t))) := by
  refine Padded.of_text ?_
  simpa [quoted, getstring, cstring_cstring, clean.cstring] using clean.quotes

theorem text_float (bits : BitVec 64) : (Value.float bits).text p = cstring (p.printFloat bits) := by
  simp [Value.text, Value.pieces, plain]

theorem text_quoted (s : List Char) : (Value.string s).text p = '"' :: (cstring s ++ ['"']) := by
  simp [Value.text, Value.pieces, quoted]

mutual

theorem Value.Convertible.denotes (p : Platform) :
    ∀ value : Value, value.Convertible p → Denotes p value (value.text p)
  | .null, _ => by simp [Denotes, Value.text, Value.pieces]
  | .bool b, _ => by simp [Denotes, Value.text, Value.pieces, plain]
  | .integer i, _ => by
    refine ⟨integerNumeral i, ?_, value_integerNumeral i⟩
    rw [text_integer, text_integerNumeral]
  | .float bits, convertible => by
    rw [text_float]
    exact convertible
  | .string s, convertible => by
    have clean : Clean s := convertible
    simpa [Denotes, Value.text, Value.pieces, quoted, clean.cstring] using clean.quotes
  | .array values, convertible =>
    ⟨elementText p values, text_array values, convertibleElements_denotes p values convertible⟩
  | .table members, convertible =>
    ⟨memberText p members, text_table members,
      convertibleMembers_denotes p members convertible p.unset⟩

theorem convertibleMembers_denotes (p : Platform) :
    ∀ members : List (Value × Value), ConvertibleMembers p members → ∀ key,
      DenotesMembers p members (textOf (memberPieces p members key))
  | [], _, _ => by simp [DenotesMembers, memberPieces, Blank]
  | (k, value) :: members, convertible, key => by
    obtain ⟨⟨s, rfl, clean⟩, first, rest⟩ := convertible
    have text := Padded.of_text (Value.Convertible.denotes p value first)
    have more := convertibleMembers_denotes p members rest (cstring s)
    refine ⟨s, _, _, textOf (separator members ++ memberPieces p members (cstring s)), rfl,
      clean.padded (t := key), text, ?_, ?_⟩
    · simp [memberPieces, Value.text, getstring]
    · cases members with
      | nil => simp [separator, memberPieces]
      | cons m members =>
        refine ⟨_, ?_, more⟩
        simp [separator]

theorem convertibleElements_denotes (p : Platform) :
    ∀ values : List Value, ConvertibleElements p values →
      DenotesElements p values (elementText p values)
  | [], _ => by simp [DenotesElements, elementText, elementPieces, Blank]
  | value :: values, convertible => by
    have text := Padded.of_text (Value.Convertible.denotes p value convertible.1)
    have more := convertibleElements_denotes p values convertible.2
    refine ⟨_, textOf (separator values) ++ elementText p values, text, elementText_cons value values, ?_⟩
    cases values with
    | nil => simp [separator, elementText, elementPieces]
    | cons v values =>
      refine ⟨_, ?_, more⟩
      simp [separator]

end

/-! ## The unset key -/

mutual

theorem Value.Convertible.pieces (p : Platform) (unset : List Char) :
    ∀ value : Value, value.Convertible p → value.pieces { p with unset := unset } = value.pieces p
  | .null, _ | .bool _, _ | .integer _, _ | .float _, _ | .string _, _ => rfl
  | .array values, convertible => by
    rw [Value.pieces, Value.pieces, convertibleElements_pieces p unset values convertible]
  | .table members, convertible => by
    rw [Value.pieces, Value.pieces, convertibleMembers_pieces p unset members convertible unset p.unset]

theorem convertibleMembers_pieces (p : Platform) (unset : List Char) :
    ∀ members : List (Value × Value), ConvertibleMembers p members → ∀ key key',
      memberPieces { p with unset := unset } members key = memberPieces p members key'
  | [], _, _, _ => rfl
  | (k, value) :: members, convertible, key, key' => by
    obtain ⟨⟨s, rfl, -⟩, first, rest⟩ := convertible
    rw [memberPieces, memberPieces, Value.Convertible.pieces p unset value first]
    simp only [getstring, convertibleMembers_pieces p unset members rest (cstring s) (cstring s)]

theorem convertibleElements_pieces (p : Platform) (unset : List Char) :
    ∀ values : List Value, ConvertibleElements p values →
      elementPieces { p with unset := unset } values = elementPieces p values
  | [], _ => rfl
  | value :: values, convertible => by
    rw [elementPieces, elementPieces, Value.Convertible.pieces p unset value convertible.1,
      convertibleElements_pieces p unset values convertible.2]

end

/-! ## No other text -/

/-- No blank comes first. -/
def Starts (t : List Char) : Prop := ∀ c ∈ t.head?, c ∉ [' ', '\t', '\n', '\r']

theorem starts_word {w : List Char} (word : ∀ c ∈ w, ¬Delimited [c]) (closed : Closed r) :
    Starts (w ++ r) := by
  cases w with
  | nil =>
    intro c mem blank
    have closes := closed c mem
    simp only [List.mem_cons, List.not_mem_nil, or_false] at closes blank
    grind
  | cons c w =>
    intro d mem blank
    obtain rfl : c = d := by simpa using mem
    refine word c List.mem_cons_self ?_
    simp only [List.mem_cons, List.not_mem_nil, or_false] at blank
    rcases blank with rfl | rfl | rfl | rfl <;> simp [Delimited]

theorem Numeral.starts (n : Numeral) (closed : Closed r) : Starts (n.text ++ r) :=
  starts_word (fun _ mem => n.word mem) closed

theorem word_printFloat (words : p.PrintsWords) (bits : BitVec 64) :
    ∀ c ∈ cstring (p.printFloat bits), ¬Delimited [c] :=
  fun c mem => words bits c ((List.takeWhile_prefix _).subset mem)

theorem starts_text (words : p.PrintsWords) (value : Value) (closed : Closed r) :
    Starts (value.text p ++ r) := by
  cases value with
  | null => simp [Starts, Value.text, Value.pieces]
  | bool b => cases b <;> simp [Starts, Value.text, Value.pieces, plain]
  | integer i =>
    rw [text_integer, ← text_integerNumeral]
    exact (integerNumeral i).starts closed
  | float bits =>
    rw [text_float]
    exact starts_word (word_printFloat words bits) closed
  | string s => simp [Starts, text_quoted]
  | array values => simp [Starts, text_array]
  | table members => simp [Starts, text_table]
  | other address => exact starts_word (fun _ mem => absurd mem (by simp [Value.text, Value.pieces])) closed

/-- Where a text comes first and is followed as it is in the output, there is no blank around
what is read for it. -/
theorem Padded.eq_text {IsText : List Char → Prop} {e : List Char} {Q : Prop} (padded : Padded IsText t)
    (eq : t ++ r = e ++ r') (starts : Starts (e ++ r')) (closed : Closed r) (closed' : Closed r')
    (same : ∀ text after, IsText text → Delimited after → text ++ after = e ++ r' →
      text = e ∧ Q) :
    t = e ∧ Q := by
  obtain ⟨before, text, after, blank, blank', isText, rfl⟩ := padded
  have first : before = [] := by
    cases before with
    | nil => rfl
    | cons c before =>
      rw [← eq] at starts
      exact absurd (blank c List.mem_cons_self) (starts c rfl)
  subst first
  have ends : Delimited (after ++ r) := by
    cases after with
    | nil => exact closed.delimited
    | cons c after =>
      rw [List.cons_append, delimited_cons]
      have blank := blank' c List.mem_cons_self
      simp only [List.mem_cons, List.not_mem_nil, or_false] at blank
      rcases blank with rfl | rfl | rfl | rfl <;> simp [Delimited]
  rw [List.nil_append, List.append_assoc] at eq
  obtain ⟨rfl, q⟩ := same text (after ++ r) isText ends eq
  have rest := List.append_cancel_left eq
  have last : after = [] := by
    cases after with
    | nil => rfl
    | cons c after =>
      have blank := blank' c List.mem_cons_self
      have closes := closed' c (by rw [← rest]; rfl)
      simp only [List.mem_cons, List.not_mem_nil, or_false] at blank closes
      grind
  subst last
  exact ⟨by simp, q⟩

theorem Quotes.eq_text (quotes : Quotes s t)
    (eq : t ++ r = '"' :: (cstring s ++ ['"']) ++ r') :
    t = '"' :: (cstring s ++ ['"']) ∧ Clean s := by
  obtain ⟨body, spells, rfl⟩ := quotes
  have inside : body ++ '"' :: r = cstring s ++ '"' :: r' := by simpa using eq
  obtain ⟨rfl, clean⟩ := spells.eq_of_cut inside
  exact ⟨by rw [clean.cstring], clean⟩

theorem closed_cons {c : Char} (mem : c ∈ [':', ',', ']', '}']) : Closed (c :: r) := by
  rintro d ⟨⟩
  exact mem

/-- Where the output for a value comes first, only that is read there for the value, and the
value can be converted. -/
def Determined (p : Platform) (value : Value) : Prop :=
  ∀ t r r' : List Char, Denotes p value t → t ++ r = value.text p ++ r' → Delimited r →
    Closed r' → t = value.text p ∧ value.Convertible p

theorem Determined.padded (determined : Determined p value) (words : p.PrintsWords)
    (denotes : Padded (Denotes p value) t) (eq : t ++ r = value.text p ++ r') (closed : Closed r)
    (closed' : Closed r') : t = value.text p ∧ value.Convertible p :=
  denotes.eq_text eq (starts_text words value closed') closed closed' fun text after isText ends eq =>
    determined text after r' isText eq ends closed'

/-- The same for a key that is a string. -/
theorem Padded.quotes_eq (key : Padded (Quotes s) t)
    (eq : t ++ ':' :: r = '"' :: (cstring s ++ ['"']) ++ ':' :: r') :
    t = '"' :: (cstring s ++ ['"']) ∧ Clean s := by
  refine key.eq_text eq ?_ (closed_cons (by simp)) (closed_cons (by simp)) ?_
  · simp [Starts]
  · exact fun text after quotes _ eq => Quotes.eq_text quotes eq

theorem textOf_member (s key : List Char) (value : Value) (members : List (Value × Value)) :
    textOf (memberPieces p ((.string s, value) :: members) key) =
      '"' :: (cstring s ++ ['"']) ++ ':' ::
        (value.text p ++ (textOf (separator members) ++ textOf (memberPieces p members (cstring s)))) := by
  simp [memberPieces, getstring, quoted, cstring_cstring, Value.text]

mutual

theorem determined (words : p.PrintsWords) : ∀ value : Value, Determined p value
  | .null, t, _, _, denotes, _, _, _ => by
    have null : t = "null".toList := denotes
    exact ⟨by simp [null, Value.text, Value.pieces], trivial⟩
  | .bool b, t, _, _, denotes, _, _, _ => by
    have word : t = (if b then "true" else "false").toList := denotes
    exact ⟨by simp [word, Value.text, Value.pieces, plain], trivial⟩
  | .integer i, _, _, _, ⟨n, text, _⟩, eq, ends, closed => by
    subst text
    rw [text_integer, ← text_integerNumeral] at eq ⊢
    have word := fun c mem => (integerNumeral i).word (c := c) mem
    exact ⟨word_eq (fun _ mem => n.word mem) word ends closed.delimited eq, trivial⟩
  | .float bits, _, _, _, ⟨n, text, reads⟩, eq, ends, closed => by
    subst text
    rw [text_float] at eq ⊢
    have same := word_eq (fun _ mem => n.word mem) (word_printFloat words bits) ends closed.delimited eq
    rw [same] at reads
    exact ⟨same, n, same.symm, reads⟩
  | .string s, _, _, _, denotes, eq, _, _ => by
    rw [text_quoted] at eq ⊢
    exact Quotes.eq_text denotes eq
  | .array values, _, r, r', ⟨inside, text, denotes⟩, eq, _, _ => by
    subst text
    have rest : inside ++ ']' :: r = elementText p values ++ ']' :: r' := by
      simpa [text_array] using eq
    obtain ⟨rfl, convertible⟩ := determined_elements words values denotes rest
    exact ⟨(text_array values).symm, convertible⟩
  | .table members, _, r, r', ⟨inside, text, denotes⟩, eq, _, _ => by
    subst text
    have rest : inside ++ '}' :: r = memberText p members ++ '}' :: r' := by
      simpa [text_table] using eq
    obtain ⟨rfl, convertible⟩ := determined_members words members p.unset denotes rest
    exact ⟨(text_table members).symm, convertible⟩

theorem determined_members (words : p.PrintsWords) :
    ∀ (members : List (Value × Value)) (key : List Char) {t r r' : List Char},
      DenotesMembers p members t →
      t ++ '}' :: r = textOf (memberPieces p members key) ++ '}' :: r' →
        t = textOf (memberPieces p members key) ∧ ConvertibleMembers p members
  | [], _, t, _, _, blank, eq => by
    cases t with
    | nil => exact ⟨rfl, trivial⟩
    | cons c t =>
      obtain ⟨rfl, -⟩ := List.cons.inj eq
      exact absurd (blank _ List.mem_cons_self) (by decide)
  | (k, value) :: members, key, t, r, r',
      ⟨s, keyText, text, rest, string, quotes, denotes, split, more⟩, eq => by
    subst string split
    rw [textOf_member] at eq ⊢
    have whole : keyText ++ ':' :: (text ++ (rest ++ '}' :: r)) =
        '"' :: (cstring s ++ ['"']) ++ ':' :: (value.text p ++ (textOf (separator members) ++
          (textOf (memberPieces p members (cstring s)) ++ '}' :: r'))) := by
      simpa using eq
    obtain ⟨rfl, clean⟩ := quotes.quotes_eq whole
    have inside := (List.cons.inj (List.append_cancel_left whole)).2
    cases members with
    | nil =>
      obtain rfl := more
      have last : text ++ '}' :: r = value.text p ++ '}' :: r' := by
        simpa [separator, memberPieces] using inside
      obtain ⟨rfl, convertible⟩ := Determined.padded (determined words value) words denotes last
        (closed_cons (by simp)) (closed_cons (by simp))
      exact ⟨by simp [separator, memberPieces], ⟨s, rfl, clean⟩, convertible, trivial⟩
    | cons m members =>
      obtain ⟨more, rfl, denotesMore⟩ := more
      have first : text ++ ',' :: (more ++ '}' :: r) =
          value.text p ++ ',' :: (textOf (memberPieces p (m :: members) (cstring s)) ++ '}' :: r') := by
        simpa [separator] using inside
      obtain ⟨rfl, convertible⟩ := Determined.padded (determined words value) words denotes first
        (closed_cons (by simp)) (closed_cons (by simp))
      have others := (List.cons.inj (List.append_cancel_left first)).2
      obtain ⟨rfl, all⟩ := determined_members words (m :: members) (cstring s) denotesMore others
      exact ⟨by simp [separator], ⟨s, rfl, clean⟩, convertible, all⟩

theorem determined_elements (words : p.PrintsWords) :
    ∀ (values : List Value) {t r r' : List Char}, DenotesElements p values t →
      t ++ ']' :: r = elementText p values ++ ']' :: r' →
        t = elementText p values ∧ ConvertibleElements p values
  | [], t, _, _, blank, eq => by
    cases t with
    | nil => exact ⟨rfl, trivial⟩
    | cons c t =>
      obtain ⟨rfl, -⟩ := List.cons.inj eq
      exact absurd (blank _ List.mem_cons_self) (by decide)
  | value :: values, t, r, r', ⟨text, rest, denotes, split, more⟩, eq => by
    subst split
    cases values with
    | nil =>
      obtain rfl := more
      have last : text ++ ']' :: r = value.text p ++ ']' :: r' := by
        simpa [elementText, elementPieces, separator, Value.text] using eq
      obtain ⟨rfl, convertible⟩ := Determined.padded (determined words value) words denotes last
        (closed_cons (by simp)) (closed_cons (by simp))
      exact ⟨by simp [elementText, elementPieces, separator, Value.text], convertible, trivial⟩
    | cons v values =>
      obtain ⟨more, rfl, denotesMore⟩ := more
      have first : text ++ ',' :: (more ++ ']' :: r) =
          value.text p ++ ',' :: (elementText p (v :: values) ++ ']' :: r') := by
        simpa [elementText_cons value, separator] using eq
      obtain ⟨rfl, convertible⟩ := Determined.padded (determined words value) words denotes first
        (closed_cons (by simp)) (closed_cons (by simp))
      have inside := (List.cons.inj (List.append_cancel_left first)).2
      obtain ⟨rfl, all⟩ := determined_elements words (v :: values) denotesMore inside
      exact ⟨by simp [elementText_cons value, separator], convertible, all⟩

end

/-! ## The call -/

theorem encoded_inBounds : (value.encoded p).overrun = false ↔ InBounds (value.pieces p) := by
  rw [← writesInside_iff]
  constructor
  · intro inside room out run
    obtain ⟨-, rfl⟩ := json_encode_needs.ok_iff.mp run
    exact inside
  · intro inside
    exact inside (max value.slots 1) _ (json_encode_needs.ok_iff.mpr ⟨le_refl _, rfl⟩)

theorem json_encode_not_raised {room : Nat} {message : String} :
    json_encode p room value ≠ .error (.raised message) := by
  have need : Needs room (max value.slots 1) (json_encode p room value) (value.encoded p) :=
    json_encode_needs
  rw [need]
  split <;> simp

/-- The text that is returned is JSON for the value only if all of it could be converted. -/
theorem denotes_encoded_iff (words : p.PrintsWords) :
    Padded (Denotes p value) (cstring (value.encoded p).dest) ↔ value.Convertible p := by
  have whole : cstring (value.encoded p).dest = value.text p := by
    rw [encoded_dest]
    exact cstring_of_not_mem (null_not_mem_pieces p value)
  rw [whole]
  constructor
  · intro denotes
    have last : Closed [] := by
      rintro _ ⟨⟩
    exact ((determined words value).padded words denotes rfl last last).2
  · intro convertible
    exact Padded.of_text (Value.Convertible.denotes p value convertible)

/-- The encoder keeps its promise exactly for the values all of which can be converted, where
the stack and the buffer have the room for them. It raises no error in any other case. -/
theorem encodesOrFails_iff (words : p.PrintsWords) {room : Nat} :
    EncodesOrFails p room value ↔
      value.Convertible p ∧ max value.slots 1 ≤ room ∧ InBounds (value.pieces p) := by
  constructor
  · rintro ⟨⟨message, raised⟩ | ⟨out, run, inside, denotes⟩, -⟩
    · exact absurd raised json_encode_not_raised
    · obtain ⟨fits, rfl⟩ := json_encode_needs.ok_iff.mp run
      exact ⟨(denotes_encoded_iff words).mp denotes, fits, encoded_inBounds.mp inside⟩
  · rintro ⟨convertible, fits, inside⟩
    have run : json_encode p room value = .ok (value.encoded p) :=
      json_encode_needs.ok_iff.mpr ⟨fits, rfl⟩
    refine ⟨.inr ⟨_, run, encoded_inBounds.mpr inside, (denotes_encoded_iff words).mpr convertible⟩, ?_⟩
    intro unset
    have same : value.encoded { p with unset := unset } = value.encoded p := by
      rw [Value.encoded, Value.encoded, convertible.pieces]
    rw [run, ← same]
    exact json_encode_needs.ok_iff.mpr ⟨fits, rfl⟩

/-- What `snprintf` and `atof` do with the number 1.5. -/
def oneAndHalf : Platform where
  jsmn _ := none
  printFloat _ := ['1', '.', '5']
  atof _ := 0x3ff8000000000000
  unset := ['?']

theorem oneAndHalf_printsWords : oneAndHalf.PrintsWords := by
  intro bits c mem
  simp only [oneAndHalf, List.mem_cons, List.not_mem_nil, or_false] at mem
  rcases mem with rfl | rfl | rfl <;> simp [Delimited]

theorem encodesOrFails_oneAndHalf :
    EncodesOrFails oneAndHalf 15
      (.table [(.string ['a'], .array [.float 0x3ff8000000000000, .integer 7])]) := by
  have number : (Value.float 0x3ff8000000000000).Convertible oneAndHalf :=
    ⟨⟨false, 1, some ⟨['5'], by simp⟩, none⟩, by decide, rfl⟩
  have key : Clean ['a'] := by
    rintro c mem
    obtain rfl := List.mem_singleton.mp mem
    decide
  exact (encodesOrFails_iff oneAndHalf_printsWords).mpr
    ⟨⟨⟨_, rfl, key⟩, ⟨number, trivial, trivial⟩, trivial⟩, by decide, encoded_inBounds.mp rfl⟩

/-- A function in a table leaves nothing behind its colon. -/
theorem function_not_encoded :
    ¬∀ (p : Platform) (room : Nat) (value : Value), p.PrintsWords → max value.slots 1 ≤ room →
      InBounds (value.pieces p) → EncodesOrFails p room value := by
  intro promise
  obtain ⟨⟨message, raised⟩ | ⟨out, run, -, denotes⟩, -⟩ :=
    promise oneAndHalf 15 (.table [(.string ['a'], .other 0)]) oneAndHalf_printsWords (by decide)
      (encoded_inBounds.mp rfl)
  · cases raised
  · obtain ⟨-, -, -, -, -, ⟨inside, -, members⟩, -⟩ := denotes
    obtain ⟨s, key, text, rest, -, -, ⟨before, text', after, -, -, none, -⟩, -⟩ := members
    exact none

end Lavril.Json
