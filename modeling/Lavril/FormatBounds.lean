import Lavril.Strformat

/-!
# Stores of formatting

The text of a specification is limited to the size of `fmt`, in which a `%`, the letter and a
terminator have a place too, and before the letter of an integer the two characters of its
length modifier. The output has room for all that `snprintf` prints.
-/

namespace Lavril

open Floating

variable {src flags swidth : List LVChar} {precision : Option (List LVChar)} {spec : Specification}
  {l : LVChar}

/-- A letter of a conversion. -/
def IsFormatLetter (l : LVChar) : Prop := l = _LC 's' ∨ isIntegerLetter l ∨ l = _LC 'c' ∨ isFloatLetter l

theorem IsFormatLetter.plain : IsFormatLetter l → isfmtchr l = false ∧ scisdigit l = false ∧ l ≠ _LC '.' ∧
    l ≠ _LC 'l' ∧ l ≠ 0 := by
  unfold IsFormatLetter
  exact forall_char (by decide +kernel) l

/-! ## What `snprintf` reads -/

theorem conversion_eq (parts : Parts src spec flags swidth precision) (letter : IsFormatLetter l)
    (modifier : List LVChar) (long : ∀ c ∈ modifier, c = _LC 'l') :
    conversion (_LC '%' :: (spec.text ++ (modifier ++ [l]))) =
      ⟨flags, digitsValue 10 swidth, precision.map (digitsValue 10), l⟩ := by
  obtain ⟨notFlag, notDigit, notPoint, notL, -⟩ := letter.plain
  have first : ∀ p : LVChar → Bool, p l = false → p (_LC 'l') = false →
      p ((modifier ++ [l]).headD 0) = false := by
    intro p stop stop'
    cases modifier with
    | nil => exact stop
    | cons c _ =>
      rw [List.cons_append, List.headD_cons, long c List.mem_cons_self]
      exact stop'
  have last : ((modifier ++ [l]).dropWhile (· == _LC 'l')).headD 0 = l := by
    rw [dropWhile_stop (fun c mem => by simpa using long c mem) (by simpa using notL)]
    rfl
  have flagsStop : isfmtchr ((swidth ++ (fractionText precision ++ (modifier ++ [l]))).headD 0) =
      false := by
    cases swidth with
    | nil =>
      cases precision with
      | none => exact first isfmtchr notFlag (by decide)
      | some ds =>
        have point : isfmtchr (_LC '.') = false := by decide
        exact point
    | cons d _ => exact parts.leading d rfl
  have fmt : spec.text ++ (modifier ++ [l]) =
      flags ++ (swidth ++ (fractionText precision ++ (modifier ++ [l]))) := by
    rw [parts.text]
    simp only [List.append_assoc]
  rw [conversion, List.tail_cons, fmt, takeWhile_stop parts.flags flagsStop,
    dropWhile_stop parts.flags flagsStop]
  cases precision with
  | none =>
    have digitsStop := first scisdigit notDigit (by decide)
    have noPoint : (modifier ++ [l]).headD 0 ≠ _LC '.' := by
      have := first (· == _LC '.') (by simpa using notPoint) (by decide)
      simpa using this
    simp only [fractionText, List.nil_append]
    rw [takeWhile_stop parts.digits digitsStop, dropWhile_stop parts.digits digitsStop, afterWidth,
      if_neg noPoint, last]
    rfl
  | some ds =>
    have point : scisdigit ((_LC '.' :: (ds ++ (modifier ++ [l]))).headD 0) = false := by
      have dot : scisdigit (_LC '.') = false := by decide
      exact dot
    have digits := parts.precisionDigits ds rfl
    have digitsStop := first scisdigit notDigit (by decide)
    simp only [fractionText, List.cons_append]
    rw [takeWhile_stop parts.digits point, dropWhile_stop parts.digits point, afterWidth,
      List.headD_cons, if_pos rfl, List.tail_cons, takeWhile_stop digits digitsStop, dropWhile_stop digits digitsStop,
      last]
    rfl

/-! ## The buffer of the specification -/

/-- The run ends at a store that does not fit. -/
def Outside {α : Type} (result : Except FormatFault α) : Prop := ∃ at_, result = .error (.outside at_)

theorem writeAt_ok {size : Nat} {buffer text : List LVChar} {at_ : Int} (nonneg : 0 ≤ at_)
    (le : at_ + text.length ≤ size) : writeAt size buffer at_ text =
      .ok (buffer.take at_.toNat ++ (text ++ buffer.drop (at_.toNat + text.length))) :=
  if_pos ⟨nonneg, le⟩

theorem writeAt_outside {size : Nat} {buffer text : List LVChar} {at_ : Int}
    (lt : size < at_ + text.length) : Outside (writeAt size buffer at_ text) :=
  ⟨at_, if_neg fun fits => by omega⟩

theorem writeAt_cases (size : Nat) (buffer text : List LVChar) (at_ : Int) :
    (∃ buffer', writeAt size buffer at_ text = .ok buffer') ∨ Outside (writeAt size buffer at_ text) := by
  unfold writeAt
  split
  · exact .inl ⟨_, rfl⟩
  · exact .inr ⟨at_, rfl⟩

theorem length_writeAt {size : Nat} {buffer text buffer' : List LVChar} {at_ : Int}
    (whole : buffer.length = size) (ok : writeAt size buffer at_ text = .ok buffer') :
    buffer'.length = size := by
  unfold writeAt at ok
  split at ok
  · obtain rfl := Except.ok.inj ok
    simp only [List.length_append, List.length_take, List.length_drop]
    omega
  · cases ok

/-- Characters stored behind `before`. -/
theorem writeAt_append (size at_ : Nat) (before old text after : List LVChar)
    (at_before : at_ = before.length) (same : text.length = old.length)
    (le : before.length + text.length ≤ size) :
    writeAt size (before ++ (old ++ after)) at_ text = .ok (before ++ (text ++ after)) := by
  subst at_before
  have below : (before.length : Int) + text.length ≤ size := by omega
  rw [writeAt_ok (Int.natCast_nonneg _) below, Int.toNat_natCast, List.take_left, List.drop_append,
    List.drop_of_length_le (by omega)]
  simp [same]

/-- `fmt` holds a text and its terminator. -/
def HoldsText (fmt text : List LVChar) : Prop :=
  fmt.length = MAX_FORMAT_LEN ∧ 0 ∉ text ∧ ∃ after, fmt = text ++ 0 :: after

theorem HoldsText.cstr_eq {fmt text : List LVChar} (holds : HoldsText fmt text) : cstr fmt = text := by
  obtain ⟨-, no, after, rfl⟩ := holds
  have each : ∀ c ∈ text, (decide (c ≠ 0)) = true := by
    intro c mem
    have nonzero : c ≠ 0 := fun zero => no (zero ▸ mem)
    simpa using nonzero
  rw [cstr, List.takeWhile_append_of_pos each]
  simp

theorem Parts.noNul (parts : Parts src spec flags swidth precision) : 0 ∉ spec.text := by
  rw [parts.text]
  intro mem
  rcases List.mem_append.mp mem with mem | mem
  · exact absurd (parts.flags 0 mem) (by decide)
  rcases List.mem_append.mp mem with mem | mem
  · exact absurd (parts.digits 0 mem) (by decide)
  · cases precision with
    | none => cases mem
    | some ds =>
      rcases List.mem_cons.mp mem with zero | mem
      · exact absurd zero (by decide)
      · exact absurd (parts.precisionDigits ds rfl 0 mem) (by decide)

theorem validate_format_ok {fmt : List LVChar} (size : fmt.length = MAX_FORMAT_LEN)
    (short : spec.text.length + 3 ≤ MAX_FORMAT_LEN) :
    ∃ after, validate_format fmt spec =
        .ok (_LC '%' :: (spec.text ++ [spec.rest.headD 0]) ++ 0 :: after) ∧
      (_LC '%' :: (spec.text ++ [spec.rest.headD 0]) ++ 0 :: after).length = MAX_FORMAT_LEN := by
  have large : MAX_FORMAT_LEN = 20 := rfl
  match fmt with
  | [] => cases size
  | first :: fmt =>
    rw [List.length_cons] at size
    set text := spec.text ++ [spec.rest.headD 0] with text_eq
    have length : text.length = spec.text.length + 1 := by simp [text_eq]
    have percent : writeAt MAX_FORMAT_LEN (first :: fmt) 0 [_LC '%'] = .ok (_LC '%' :: fmt) :=
      writeAt_append MAX_FORMAT_LEN 0 [] [first] [_LC '%'] fmt rfl rfl (by decide)
    have whole : fmt = fmt.take text.length ++ fmt.drop text.length := (List.take_append_drop _ _).symm
    cases behind : fmt.drop text.length with
    | nil =>
      have := congrArg List.length behind
      rw [List.length_drop, List.length_nil] at this
      omega
    | cons old after =>
      rw [behind] at whole
      have taken : text.length = (fmt.take text.length).length := by
        rw [List.length_take]
        omega
      have copied : writeAt MAX_FORMAT_LEN (_LC '%' :: fmt) 1 text =
          .ok (_LC '%' :: (text ++ old :: after)) := by
        have stored := writeAt_append MAX_FORMAT_LEN 1 [_LC '%'] (fmt.take text.length) text
          (old :: after) rfl taken (by simp only [List.length_singleton]; omega)
        rw [← whole] at stored
        exact stored
      have ended : writeAt MAX_FORMAT_LEN (_LC '%' :: (text ++ old :: after)) (spec.text.length + 2)
          [0] = .ok (_LC '%' :: (text ++ 0 :: after)) :=
        writeAt_append MAX_FORMAT_LEN (spec.text.length + 2) (_LC '%' :: text) [old] [0] after
          (by rw [List.length_cons, length]) rfl (by rw [List.length_cons, List.length_singleton]; omega)
      refine ⟨after, ?_, ?_⟩
      · simp only [validate_format, percent, bind, Except.bind]
        rw [← text_eq, copied]
        exact ended
      · have total := congrArg List.length whole
        simp only [List.length_append, List.length_cons] at total ⊢
        omega

theorem validate_format_outside (fmt : List LVChar)
    (long : MAX_FORMAT_LEN < spec.text.length + 3) :
    Outside (validate_format fmt spec) := by
  have zero : (0 : Int) + [_LC '%'].length ≤ MAX_FORMAT_LEN := by decide
  simp only [validate_format, writeAt_ok (Int.le_refl 0) zero, bind, Except.bind]
  rcases writeAt_cases MAX_FORMAT_LEN (fmt.take (0 : Int).toNat ++ ([_LC '%'] ++
    fmt.drop ((0 : Int).toNat + [_LC '%'].length))) (spec.text ++ [spec.rest.headD 0]) 1 with
    ⟨copied, ok⟩ | ⟨at_, outside⟩
  · simp only [ok]
    refine writeAt_outside ?_
    rw [List.length_singleton]
    omega
  · exact ⟨at_, by simp only [outside]⟩

/-- The room for the text of a specification, before its letter. -/
def room (letter : LVChar) : Nat := if isIntegerLetter letter then 15 else 17

theorem insertPrecision_ok {fmt text : List LVChar}
    (holds : HoldsText fmt (_LC '%' :: (text ++ [l]))) (short : text.length ≤ 15) :
    ∃ fmt', insertPrecision fmt = .ok fmt' ∧
      HoldsText fmt' (_LC '%' :: (text ++ ([_LC 'l', _LC 'l'] ++ [l]))) := by
  have cstr_eq := holds.cstr_eq
  obtain ⟨size, no, after, fmt_eq⟩ := holds
  have large : MAX_FORMAT_LEN = 20 := rfl
  have total := congrArg List.length fmt_eq
  simp only [List.length_append, List.length_cons, List.length_nil] at total
  obtain ⟨a, b, after', rfl⟩ : ∃ a b after', after = a :: b :: after' := by
    match after with
    | [] => simp only [List.length_nil] at total; omega
    | [_] => simp only [List.length_singleton] at total; omega
    | a :: b :: after' => exact ⟨a, b, after', rfl⟩
  have parts : fmt = (_LC '%' :: text) ++ ([l, 0, a, b] ++ after') := by
    rw [fmt_eq]
    simp
  have fpos : (_LC '%' :: (text ++ [l])).length - 1 = (_LC '%' :: text).length := by
    simp
  have last : fmt.getD (_LC '%' :: text).length 0 = l := by
    rw [parts, List.getD_eq_getElem?_getD, List.getElem?_append_right (Nat.le_refl _), Nat.sub_self]
    rfl
  have stored := writeAt_append MAX_FORMAT_LEN (_LC '%' :: text).length (_LC '%' :: text)
    [l, 0, a, b] [_LC 'l', _LC 'l', l, 0] after' rfl rfl
    (by simp only [List.length_cons, List.length_nil]; omega)
  refine ⟨(_LC '%' :: text) ++ ([_LC 'l', _LC 'l', l, 0] ++ after'), ?_, ?_, ?_, after', by simp⟩
  · simp only [insertPrecision, cstr_eq, fpos, last]
    rw [← parts] at stored
    exact stored
  · rw [parts] at size
    simpa using size
  · intro mem
    have : (0 : LVChar) ≠ _LC 'l' := by decide
    simp_all

theorem insertPrecision_outside {fmt text : List LVChar} (holds : HoldsText fmt (_LC '%' :: (text ++ [l])))
    (long : 15 < text.length) : Outside (insertPrecision fmt) := by
  rw [insertPrecision, holds.cstr_eq]
  refine writeAt_outside ?_
  simp only [List.length_cons, List.length_append, List.length_nil, MAX_FORMAT_LEN]
  omega

/-! ## The output -/

namespace Formatting

variable {st : Formatting} {n : Nat} {fresh : Nat → LVChar}

/-- There is room for `n` more characters and a terminator. -/
structure Fits (st : Formatting) (n : Nat) : Prop where
  nonneg : 0 ≤ st.i
  below : st.i + n + 2 ≤ st.allocated
  fmt : st.fmt.length = MAX_FORMAT_LEN

theorem put_eq {c : LVChar} {dest : List LVChar}
    (stored : writeAt st.allocated st.dest st.i [c] = .ok dest) :
    st.put c = .ok { st with dest := dest, i := st.i + 1 } := by
  rw [put, stored]
  rfl

theorem scsprintf_eq {text dest : List LVChar}
    (stored : writeAt st.allocated st.dest st.i (text.take (st.allocated - 1) ++ [0]) = .ok dest) :
    st.scsprintf text = .ok { st with
      dest := dest, i := st.i + if text.length ≤ INT_MAX then (text.length : Int) else -1 } := by
  rw [scsprintf, stored]
  rfl

theorem Fits.put (fits : st.Fits (n + 1)) (c : LVChar) : ∃ st', st.put c = .ok st' ∧ st'.Fits n := by
  obtain ⟨nonneg, below, fmt⟩ := fits
  push_cast at below
  have room : st.i + [c].length ≤ st.allocated := by
    rw [List.length_singleton]
    omega
  refine ⟨_, put_eq (writeAt_ok nonneg room), ?_, ?_, fmt⟩
  · simp only
    omega
  · simp only
    omega

theorem put_cases (st : Formatting) (c : LVChar) :
    (∃ st', st.put c = .ok st' ∧ st'.fmt = st.fmt) ∨ Outside (st.put c) := by
  rcases writeAt_cases st.allocated st.dest [c] st.i with ⟨dest, ok⟩ | ⟨at_, outside⟩
  · exact .inl ⟨_, put_eq ok, rfl⟩
  · exact .inr ⟨at_, by rw [Formatting.put, outside]; rfl⟩

/-- A text that is no longer than what is asked for it. -/
theorem Fits.scsprintf {addlen : Nat} {text : List LVChar} (fits : st.Fits n)
    (short : text.length ≤ addlen) (int : text.length ≤ INT_MAX) :
    ∃ st', (st.grow fresh addlen).scsprintf text = .ok st' ∧ st'.Fits n := by
  obtain ⟨nonneg, below, fmt⟩ := fits
  have room : (st.grow fresh addlen).i + (text.take ((st.grow fresh addlen).allocated - 1) ++ [0]).length ≤
      (st.grow fresh addlen).allocated := by
    simp only [grow, List.length_append, List.length_take, List.length_singleton]
    omega
  refine ⟨_, scsprintf_eq (writeAt_ok nonneg room), ?_, ?_, fmt⟩
  · simp only [grow, if_pos int]
    omega
  · simp only [grow, if_pos int]
    omega

theorem scsprintf_cases (st : Formatting) (text : List LVChar) :
    (∃ st', st.scsprintf text = .ok st' ∧ st'.fmt = st.fmt) ∨ Outside (st.scsprintf text) := by
  rcases writeAt_cases st.allocated st.dest (text.take (st.allocated - 1) ++ [0]) st.i with
    ⟨dest, ok⟩ | ⟨at_, outside⟩
  · exact .inl ⟨_, scsprintf_eq ok, rfl⟩
  · exact .inr ⟨at_, by rw [Formatting.scsprintf, outside]; rfl⟩

end Formatting

/-! ## One specification -/

theorem digitsValue_lt {ds : List LVChar} (digits : Digits ds) :
    digitsValue 10 ds < 10 ^ ds.length := by
  induction ds using List.reverseRecOn with
  | nil => decide
  | append_singleton ds d ih =>
    have before := ih fun c mem => digits c (List.mem_append_left _ mem)
    have digit : hexValue d < 10 := by
      have := digits d (by simp)
      revert this
      exact forall_char (by decide +kernel) d
    simp only [digitsValue, List.foldl_append, List.foldl_cons, List.foldl_nil, List.length_append,
      List.length_singleton, Nat.pow_succ] at before ⊢
    omega

theorem Parts.width_lt (parts : Parts src spec flags swidth precision) : spec.width < 200 := by
  have hundred : ∀ ds : List LVChar, Digits ds → ds.length < MAX_WFORMAT_LEN →
      digitsValue 10 ds < 100 := fun ds digits short =>
    (digitsValue_lt digits).trans_le (Nat.pow_le_pow_right (by decide) (Nat.le_of_lt_succ short))
  have first := hundred swidth parts.digits parts.swidth_lt
  rw [parts.width]
  cases precision with
  | none => exact Nat.lt_add_right 100 first
  | some ds =>
    have second := hundred ds (parts.precisionDigits ds rfl) (parts.precision_lt ds rfl)
    simp only [Option.map_some, Option.getD_some]
    omega

/-- What `lv_getstring`, `lv_getinteger` and `lv_getfloat` take. -/
def Accepts (letter : LVChar) : FormatArg → Prop
  | .string _ => letter = _LC 's'
  | .numeric _ _ => isIntegerLetter letter ∨ letter = _LC 'c' ∨ isFloatLetter letter
  | .other => False

/-- A string that `snprintf` can count. -/
def Countable : FormatArg → Prop
  | .string ts => ts.length ≤ INT_MAX
  | _ => True

namespace Formatting

variable {st : Formatting} {n : Nat} {fresh : Nat → LVChar} {arg : FormatArg}

/-- What is printed is shorter than what is asked for it, and `snprintf` can count it. -/
structure Printed (text : List LVChar) (addlen : Nat) : Prop where
  short : text.length ≤ addlen
  int : text.length ≤ INT_MAX

section printed

variable (parts : Parts src spec flags swidth precision)

include parts

theorem printed_string {ts : List LVChar} (countable : ts.length ≤ INT_MAX) :
    Printed (Conversion.printString ⟨flags, digitsValue 10 swidth, precision.map (digitsValue 10), l⟩ ts)
      (ts.length + (spec.width + 1)) := by
  have printed := Conversion.length_printString_le
    ⟨flags, digitsValue 10 swidth, precision.map (digitsValue 10), l⟩ ts
  have small := parts.width_lt
  have width := parts.width
  have large : 200 ≤ INT_MAX := by decide
  simp only at printed
  constructor <;> omega

theorem printed_integer (ti : BitVec 64) :
    Printed (Conversion.printInteger ⟨flags, digitsValue 10 swidth, precision.map (digitsValue 10), l⟩ ti)
      (ADDITIONAL_FORMAT_SPACE + (spec.width + 1)) := by
  have printed := Conversion.length_printInteger_le
    ⟨flags, digitsValue 10 swidth, precision.map (digitsValue 10), l⟩ ti
  have small := parts.width_lt
  have width := parts.width
  have large : 400 ≤ INT_MAX := by decide
  have space : 100 = ADDITIONAL_FORMAT_SPACE := rfl
  simp only at printed
  constructor <;> omega

theorem printed_float (tf : FloatValue) :
    Printed (Conversion.printFloat ⟨flags, digitsValue 10 swidth, precision.map (digitsValue 10), l⟩ tf)
      (ADDITIONAL_FORMAT_SPACE + (spec.width + 1)) := by
  have printed := Conversion.length_printFloat_le
    ⟨flags, digitsValue 10 swidth, precision.map (digitsValue 10), l⟩ tf
  have small := parts.width_lt
  have width := parts.width
  have large : 400 ≤ INT_MAX := by decide
  have space : 100 = ADDITIONAL_FORMAT_SPACE := rfl
  simp only at printed
  constructor <;> omega

end printed

/-! ### The letters -/

theorem convertString_within (fits : st.Fits n) (parts : Parts src spec flags swidth precision)
    (holds : HoldsText st.fmt (_LC '%' :: (spec.text ++ [l]))) (letter : IsFormatLetter l)
    (countable : Countable arg) :
    (∃ st', st.convertString fresh spec arg = .ok st' ∧ st'.Fits n) ∨
      ∃ err, st.convertString fresh spec arg = .error (.throwerror err) := by
  cases arg with
  | string ts =>
    have printed := printed_string (l := l) parts countable
    rw [← conversion_eq parts letter [] (by simp), List.nil_append, ← holds.cstr_eq]
      at printed
    exact .inl (fits.scsprintf printed.short printed.int)
  | numeric ti tf => exact .inr ⟨_, rfl⟩
  | other => exact .inr ⟨_, rfl⟩

theorem convertInteger_within (fits : st.Fits n) (parts : Parts src spec flags swidth precision)
    (modifier : List LVChar) (long : ∀ c ∈ modifier, c = _LC 'l')
    (holds : HoldsText st.fmt (_LC '%' :: (spec.text ++ (modifier ++ [l])))) (letter : IsFormatLetter l) :
    (∃ st', st.convertInteger fresh spec arg = .ok st' ∧ st'.Fits n) ∨
      ∃ err, st.convertInteger fresh spec arg = .error (.throwerror err) := by
  cases arg with
  | string ts => exact .inr ⟨_, rfl⟩
  | numeric ti tf =>
    have printed := printed_integer (l := l) parts ti
    rw [← conversion_eq parts letter modifier long, ← holds.cstr_eq] at printed
    exact .inl (fits.scsprintf printed.short printed.int)
  | other => exact .inr ⟨_, rfl⟩

theorem convertFloat_within (fits : st.Fits n) (parts : Parts src spec flags swidth precision)
    (holds : HoldsText st.fmt (_LC '%' :: (spec.text ++ [l]))) (letter : IsFormatLetter l) :
    (∃ st', st.convertFloat fresh spec arg = .ok st' ∧ st'.Fits n) ∨
      ∃ err, st.convertFloat fresh spec arg = .error (.throwerror err) := by
  cases arg with
  | string ts => exact .inr ⟨_, rfl⟩
  | numeric ti tf =>
    have printed := printed_float (l := l) parts tf
    rw [← conversion_eq parts letter [] (by simp), List.nil_append, ← holds.cstr_eq]
      at printed
    exact .inl (fits.scsprintf printed.short printed.int)
  | other => exact .inr ⟨_, rfl⟩

/-- Where the specification has room, no store is outside. -/
theorem convert_within (fits : st.Fits n) (parts : Parts src spec flags swidth precision)
    (holds : IsFormatLetter (spec.rest.headD 0) →
      HoldsText st.fmt (_LC '%' :: (spec.text ++ [spec.rest.headD 0])))
    (short : spec.text.length ≤ room (spec.rest.headD 0)) (countable : Countable arg) :
    (∃ st', st.convert fresh spec arg = .ok st' ∧ st'.Fits n) ∨
      ∃ err, st.convert fresh spec arg = .error (.throwerror err) := by
  rw [convert]
  by_cases string : spec.rest.headD 0 = _LC 's'
  · rw [if_pos string]
    exact convertString_within fits parts (holds (.inl string)) (.inl string) countable
  rw [if_neg string]
  by_cases integer : isIntegerLetter (spec.rest.headD 0) = true
  · rw [room, if_pos integer] at short
    obtain ⟨fmt, inserted, holds'⟩ := insertPrecision_ok (holds (.inr (.inl integer))) short
    rw [if_pos integer, inserted]
    have fits' : Fits { st with fmt := fmt } n := ⟨fits.nonneg, fits.below, holds'.1⟩
    exact convertInteger_within fits' parts [_LC 'l', _LC 'l'] (by simp) holds' (.inr (.inl integer))
  rw [if_neg integer]
  by_cases char : spec.rest.headD 0 = _LC 'c'
  · rw [if_pos char]
    exact convertInteger_within fits parts [] (by simp)
      (holds (.inr (.inr (.inl char)))) (.inr (.inr (.inl char)))
  rw [if_neg char]
  by_cases float : isFloatLetter (spec.rest.headD 0) = true
  · rw [if_pos float]
    exact convertFloat_within fits parts (holds (.inr (.inr (.inr float)))) (.inr (.inr (.inr float)))
  · exact .inr ⟨_, if_neg float⟩

/-- A conversion that is not refused. -/
theorem convert_cases (fresh : Nat → LVChar) (size : st.fmt.length = MAX_FORMAT_LEN) (accepts : Accepts (spec.rest.headD 0) arg) :
    (∃ st', st.convert fresh spec arg = .ok st' ∧ st'.fmt.length = MAX_FORMAT_LEN) ∨
      Outside (st.convert fresh spec arg) := by
  have ran : ∀ (st : Formatting) (addlen : Nat) (text : List LVChar), st.fmt.length = MAX_FORMAT_LEN →
      (∃ st', (st.grow fresh addlen).scsprintf text = .ok st' ∧ st'.fmt.length = MAX_FORMAT_LEN) ∨
        Outside ((st.grow fresh addlen).scsprintf text) := by
    intro st addlen text size
    rcases scsprintf_cases (st.grow fresh addlen) text with ⟨st', ok, same⟩ | outside
    · exact .inl ⟨st', ok, same ▸ size⟩
    · exact .inr outside
  rw [convert]
  cases arg with
  | string ts =>
    have string : spec.rest.headD 0 = _LC 's' := accepts
    rw [if_pos string]
    exact ran st _ _ size
  | other => exact absurd accepts id
  | numeric ti tf =>
    have notString : spec.rest.headD 0 ≠ _LC 's' := by
      revert accepts
      exact forall_char (P := fun l => isIntegerLetter l = true ∨ l = _LC 'c' ∨ isFloatLetter l = true →
        l ≠ _LC 's') (by decide +kernel) _
    rw [if_neg notString]
    split
    · rcases writeAt_cases MAX_FORMAT_LEN st.fmt
        [_LC 'l', _LC 'l', st.fmt.getD ((cstr st.fmt).length - 1) 0, 0] ((cstr st.fmt).length - 1 : Nat) with
        ⟨fmt, ok⟩ | ⟨at_, outside⟩
      · have inserted : insertPrecision st.fmt = .ok fmt := ok
        have size' : fmt.length = MAX_FORMAT_LEN := length_writeAt size ok
        rw [inserted]
        exact ran { st with fmt := fmt } _ _ size'
      · have inserted : insertPrecision st.fmt = .error (.outside at_) := outside
        exact .inr ⟨at_, by rw [inserted]; rfl⟩
    · rename_i notInteger
      split
      · exact ran st _ _ size
      · rename_i notChar
        have float := (accepts.resolve_left notInteger).resolve_left notChar
        rw [if_pos float]
        exact ran st _ _ size

end Formatting

/-! ## The run -/

/-- `strformat` comes to a specification, with its argument. -/
inductive Reaches : List LVChar → List FormatArg → Specification → FormatArg → Prop
  | here {format : List LVChar} {spec : Specification} {arg : FormatArg} {args : List FormatArg}
      (single : format.headD 0 ≠ _LC '%') (read : specification format = .ok spec) :
      Reaches (_LC '%' :: format) (arg :: args) spec arg
  | plain {c : LVChar} {format : List LVChar} {spec : Specification} {arg : FormatArg}
      {args : List FormatArg} (plain : c ≠ _LC '%') (later : Reaches format args spec arg) :
      Reaches (c :: format) args spec arg
  | percent {format : List LVChar} {spec : Specification} {arg : FormatArg} {args : List FormatArg}
      (double : format.headD 0 = _LC '%') (later : Reaches format.tail args spec arg) :
      Reaches (_LC '%' :: format) args spec arg
  | after {format : List LVChar} {first spec : Specification} {arg arg' : FormatArg}
      {args : List FormatArg} (single : format.headD 0 ≠ _LC '%')
      (read : specification format = .ok first) (accepts : Accepts (first.rest.headD 0) arg')
      (later : Reaches first.rest.tail args spec arg) :
      Reaches (_LC '%' :: format) (arg' :: args) spec arg

/-- Each specification that is reached has room for its text. -/
def RoomForEach (format : List LVChar) (args : List FormatArg) : Prop :=
  ∀ spec arg, Reaches format args spec arg → spec.text.length ≤ room (spec.rest.headD 0)

variable {fresh : Nat → LVChar} {format : List LVChar} {args : List FormatArg} {st : Formatting}

theorem formatLoop_plain {c : LVChar} (plain : c ≠ _LC '%') :
    formatLoop fresh (c :: format) args st =
      (st.put c).bind fun st => formatLoop fresh format args st := by
  rw [formatLoop.eq_def]
  exact if_pos plain

theorem formatLoop_percent (double : format.headD 0 = _LC '%') :
    formatLoop fresh (_LC '%' :: format) args st =
      (st.put (_LC '%')).bind fun st => formatLoop fresh format.tail args st := by
  rw [formatLoop.eq_def]
  simp only [ne_eq, not_true, if_false, if_pos double]
  rfl

theorem formatLoop_spec {arg : FormatArg} (single : format.headD 0 ≠ _LC '%')
    (read : specification format = .ok spec) :
    formatLoop fresh (_LC '%' :: format) (arg :: args) st =
      (validate_format st.fmt spec).bind fun fmt =>
        ({ st with fmt := fmt }.convert fresh spec arg).bind fun st =>
          formatLoop fresh spec.rest.tail args st := by
  rw [formatLoop.eq_def]
  simp only [ne_eq, not_true, if_false, if_neg single]
  split
  · rename_i failed
    rw [read] at failed
    cases failed
  · rename_i found
    rw [read] at found
    obtain rfl := Except.ok.inj found
    rfl

theorem Formatting.accepts_of_convert {st' : Formatting} {arg : FormatArg}
    (ran : st.convert fresh spec arg = .ok st') : Accepts (spec.rest.headD 0) arg := by
  rw [Formatting.convert] at ran
  split at ran
  · rename_i string
    cases arg with
    | string ts => exact string
    | numeric ti tf => cases ran
    | other => cases ran
  · split at ran
    · rename_i integer
      cases inserted : insertPrecision st.fmt with
      | error fault =>
        rw [inserted] at ran
        cases ran
      | ok fmt =>
        rw [inserted] at ran
        cases arg with
        | string ts => cases ran
        | numeric ti tf => exact .inl integer
        | other => cases ran
    · split at ran
      · rename_i char
        cases arg with
        | string ts => cases ran
        | numeric ti tf => exact .inr (.inl char)
        | other => cases ran
      · split at ran
        · rename_i float
          cases arg with
          | string ts => cases ran
          | numeric ti tf => exact .inr (.inr float)
          | other => cases ran
        · cases ran

theorem formatDigits_error {err : String} {fault : FormatFault}
    (failed : formatDigits err src = .error fault) : fault = .throwerror err := by
  unfold formatDigits at failed
  split at failed
  · exact (Except.error.inj failed).symm
  · cases failed

theorem specification_error {fault : FormatFault} (failed : specification src = .error fault) :
    ∃ err, fault = .throwerror err := by
  unfold specification at failed
  cases width : formatDigits "width format too long" (src.dropWhile isfmtchr) with
  | error fault' =>
    rw [width] at failed
    obtain rfl := Except.error.inj failed
    exact ⟨_, formatDigits_error width⟩
  | ok result =>
    simp only [width, bind, Except.bind] at failed
    split at failed
    · cases precision : formatDigits "precision format too long" result.2.tail with
      | error fault' =>
        rw [precision] at failed
        obtain rfl := Except.error.inj failed
        exact ⟨_, formatDigits_error precision⟩
      | ok result' =>
        simp only [precision] at failed
        split at failed
        · exact ⟨_, (Except.error.inj failed).symm⟩
        · cases failed
    · split at failed
      · exact ⟨_, (Except.error.inj failed).symm⟩
      · cases failed

theorem Formatting.Fits.mono {n m : Nat} (fits : st.Fits n) (le : m ≤ n) : st.Fits m :=
  ⟨fits.nonneg, by have := fits.below; omega, fits.fmt⟩

theorem room_le (letter : LVChar) : room letter ≤ 17 := by
  unfold room
  split <;> decide

theorem formatLoop_refused {arg : FormatArg} {fault : FormatFault} (single : format.headD 0 ≠ _LC '%')
    (failed : specification format = .error fault) :
    formatLoop fresh (_LC '%' :: format) (arg :: args) st = .error fault := by
  rw [formatLoop.eq_def]
  simp only [ne_eq, not_true, if_false, if_neg single]
  split
  · rename_i failed'
    rw [failed] at failed'
    rw [Except.error.inj failed']
  · rename_i found
    rw [failed] at found
    cases found

/-- What `validate_format` leaves in `fmt`. -/
theorem Parts.validated (parts : Parts src spec flags swidth precision) {fmt : List LVChar}
    (size : fmt.length = MAX_FORMAT_LEN) (short : spec.text.length + 3 ≤ MAX_FORMAT_LEN) :
    ∃ fmt', validate_format fmt spec = .ok fmt' ∧ fmt'.length = MAX_FORMAT_LEN ∧
      (IsFormatLetter (spec.rest.headD 0) → HoldsText fmt' (_LC '%' :: (spec.text ++ [spec.rest.headD 0]))) := by
  obtain ⟨after, validated, length⟩ := validate_format_ok size short
  refine ⟨_, validated, length, fun letter => ⟨length, fun zero => ?_, after, rfl⟩⟩
  rcases List.mem_cons.mp zero with zero | zero
  · exact absurd zero (by decide)
  rcases List.mem_append.mp zero with zero | zero
  · exact parts.noNul zero
  · exact letter.plain.2.2.2.2 (List.mem_singleton.mp zero).symm

theorem specification_within (fresh : Nat → LVChar) {n : Nat} {arg : FormatArg} (fits : st.Fits n)
    (read : specification format = .ok spec)
    (short : spec.text.length ≤ room (spec.rest.headD 0)) (countable : Countable arg) :
    ∃ fmt, validate_format st.fmt spec = .ok fmt ∧
      ((∃ st', { st with fmt := fmt }.convert fresh spec arg = .ok st' ∧ st'.Fits n) ∨
        ∃ err, { st with fmt := fmt }.convert fresh spec arg = .error (.throwerror err)) := by
  obtain ⟨flags, swidth, precision, parts⟩ := exists_parts read
  have le := room_le (spec.rest.headD 0)
  have large : MAX_FORMAT_LEN = 20 := rfl
  obtain ⟨fmt, validated, length, holds⟩ := parts.validated fits.fmt (by omega)
  exact ⟨fmt, validated, Formatting.convert_within ⟨fits.nonneg, fits.below, length⟩ parts holds short
    countable⟩

/-- Specifications that have room, and strings that can be counted, store nothing outside. -/
theorem formatLoop_within (fresh : Nat → LVChar) (fits : st.Fits format.length) (rooms : RoomForEach format args)
    (countable : ∀ arg ∈ args, Countable arg) :
    (∃ st', formatLoop fresh format args st = .ok st' ∧ st'.Fits 0) ∨
      ∃ err, formatLoop fresh format args st = .error (.throwerror err) := by
  induction size : format.length using Nat.strong_induction_on generalizing format args st with
  | _ n ih =>
    cases format with
    | nil => exact .inl ⟨st, by rw [formatLoop], fits.mono (Nat.zero_le _)⟩
    | cons c format =>
      rw [List.length_cons] at size fits
      by_cases plain : c ≠ _LC '%'
      · obtain ⟨st', put, fits'⟩ := fits.put c
        rw [formatLoop_plain plain, put]
        exact ih format.length (by omega) fits'
          (fun spec arg later => rooms spec arg (.plain plain later)) countable rfl
      obtain rfl : c = _LC '%' := not_not.mp plain
      by_cases double : format.headD 0 = _LC '%'
      · have shorter : format.tail.length ≤ format.length := by
          rw [List.length_tail]
          omega
        obtain ⟨st', put, fits'⟩ := fits.put (_LC '%')
        rw [formatLoop_percent double, put]
        exact ih format.tail.length (by omega) (fits'.mono shorter)
          (fun spec arg later => rooms spec arg (.percent double later)) countable rfl
      cases args with
      | nil =>
        refine .inr ⟨"not enough paramters for the given format string", ?_⟩
        rw [formatLoop.eq_def]
        simp only [ne_eq, not_true, if_false, if_neg double]
      | cons arg args =>
        cases read : specification format with
        | error fault =>
          obtain ⟨err, rfl⟩ := specification_error read
          exact .inr ⟨err, formatLoop_refused double read⟩
        | ok spec =>
          have rest := length_rest_le read
          have shorter : spec.rest.tail.length ≤ format.length := by
            rw [List.length_tail]
            omega
          obtain ⟨fmt, validated, ⟨st', ran, fits'⟩ | ⟨err, thrown⟩⟩ :=
            specification_within fresh (fits.mono (Nat.le_succ_of_le shorter)) read
              (rooms spec arg (.here double read)) (countable arg List.mem_cons_self)
          · have accepts := Formatting.accepts_of_convert ran
            rw [formatLoop_spec double read, validated, Except.bind, ran]
            exact ih spec.rest.tail.length (by omega) fits'
              (fun spec' arg' later => rooms spec' arg' (.after double read accepts later))
              (fun arg mem => countable arg (List.mem_cons_of_mem _ mem)) rfl
          · refine .inr ⟨err, ?_⟩
            rw [formatLoop_spec double read, validated, Except.bind, thrown]
            rfl

/-- A specification that is reached without room stores outside. -/
theorem formatLoop_outside (fresh : Nat → LVChar) {arg : FormatArg} (reaches : Reaches format args spec arg)
    (size : st.fmt.length = MAX_FORMAT_LEN) (long : room (spec.rest.headD 0) < spec.text.length) :
    Outside (formatLoop fresh format args st) := by
  induction reaches generalizing st with
  | @here format spec arg args single read =>
    obtain ⟨flags, swidth, precision, parts⟩ := exists_parts read
    rw [formatLoop_spec single read]
    have large : MAX_FORMAT_LEN = 20 := rfl
    by_cases short : spec.text.length + 3 ≤ MAX_FORMAT_LEN
    · have integer : isIntegerLetter (spec.rest.headD 0) = true := by
        by_contra other
        rw [room, if_neg other] at long
        omega
      rw [room, if_pos integer] at long
      have notString : spec.rest.headD 0 ≠ _LC 's' := fun string => by
        rw [string] at integer
        exact absurd integer (by decide)
      obtain ⟨fmt, validated, -, holds⟩ := parts.validated size short
      obtain ⟨at_, outside⟩ := insertPrecision_outside (holds (.inr (.inl integer))) long
      refine ⟨at_, ?_⟩
      rw [validated, Except.bind, Formatting.convert, if_neg notString, if_pos integer, outside]
      rfl
    · have long : MAX_FORMAT_LEN < spec.text.length + 3 := Nat.not_le.mp short
      obtain ⟨at_, outside⟩ := validate_format_outside st.fmt long
      exact ⟨at_, by rw [outside]; rfl⟩
  | @plain c format spec arg args plain _ ih =>
    rw [formatLoop_plain plain]
    rcases st.put_cases c with ⟨st', ok, same⟩ | ⟨at_, outside⟩
    · rw [ok]
      exact ih (same ▸ size) long
    · exact ⟨at_, by rw [outside]; rfl⟩
  | @percent format spec arg args double _ ih =>
    rw [formatLoop_percent double]
    rcases st.put_cases (_LC '%') with ⟨st', ok, same⟩ | ⟨at_, outside⟩
    · rw [ok]
      exact ih (same ▸ size) long
    · exact ⟨at_, by rw [outside]; rfl⟩
  | @after format first spec arg arg' args single read accepts _ ih =>
    rw [formatLoop_spec single read]
    by_cases short : first.text.length + 3 ≤ MAX_FORMAT_LEN
    · obtain ⟨after, validated, length⟩ := validate_format_ok size short
      rw [validated]
      set st₁ : Formatting :=
        { st with fmt := _LC '%' :: (first.text ++ [first.rest.headD 0]) ++ 0 :: after }
      have size₁ : st₁.fmt.length = MAX_FORMAT_LEN := length
      rcases Formatting.convert_cases fresh size₁ accepts with ⟨st', ok, size'⟩ | ⟨at_, outside⟩
      · rw [Except.bind, ok]
        exact ih size' long
      · exact ⟨at_, by rw [Except.bind, outside]; rfl⟩
    · have long : MAX_FORMAT_LEN < first.text.length + 3 := Nat.not_le.mp short
      obtain ⟨at_, outside⟩ := validate_format_outside st.fmt long
      exact ⟨at_, by rw [outside]; rfl⟩

/-- No store is outside of `fmt` or of the output. -/
def StoresWithin (fresh stack : Nat → LVChar) (pad format : List LVChar) (args : List FormatArg) :
    Prop :=
  ¬ Outside (strformat fresh stack pad format args)

theorem strformat_within (fresh stack : Nat → LVChar) (pad format : List LVChar)
    (args : List FormatArg) :
    (StoresWithin fresh stack pad format args → RoomForEach format args) ∧
      (RoomForEach format args → (∀ arg ∈ args, Countable arg) →
        StoresWithin fresh stack pad format args) := by
  set st : Formatting := ⟨(List.range MAX_FORMAT_LEN).map stack,
    getScratchPad fresh pad (format.length + 2), format.length + 2, 0⟩ with st_eq
  have size : st.fmt.length = MAX_FORMAT_LEN := by simp [st_eq]
  have run : strformat fresh stack pad format args = (formatLoop fresh format args st).bind fun st =>
      (writeAt st.allocated st.dest st.i [0]).bind fun dest => .ok (dest.take st.i.toNat) := rfl
  constructor
  · intro within spec arg reaches
    by_contra long
    obtain ⟨at_, outside⟩ := formatLoop_outside fresh reaches size (Nat.not_le.mp long)
    exact within ⟨at_, by rw [run, outside]; rfl⟩
  · rintro rooms countable ⟨at_, outside⟩
    have fits : st.Fits format.length := ⟨Int.le_refl 0, by simp [st_eq], size⟩
    rcases formatLoop_within fresh fits rooms countable with ⟨st', ok, fits'⟩ | ⟨err, thrown⟩
    · have below := fits'.below
      have room : st'.i + [(0 : LVChar)].length ≤ st'.allocated := by
        rw [List.length_singleton]
        omega
      rw [run, ok, Except.bind, writeAt_ok fits'.nonneg room] at outside
      cases outside
    · rw [run, thrown] at outside
      cases outside

theorem one_lt_float : (1 : ℚ) < 2 ^ (128 : ℤ) := by norm_num

theorem float_le_one : (1 : ℚ) = 0 ∨ 2 ^ (-149 : ℤ) ≤ (1 : ℚ) := by norm_num

/-- `%------------------d`: the letter is stored at 19 and its terminator at 20, before the
length modifier is put in. -/
theorem not_storesWithin : ¬ StoresWithin (fun _ => 0) (fun _ => 0) []
    (37 :: (List.replicate 18 45 ++ [100]))
    [.numeric 1 (.finite false 1 one_lt_float float_le_one)] := by
  intro within
  exact within ⟨20, by decide +kernel⟩

end Lavril
