import Lavril.Snprintf
import Lavril.Split

/-!
# Formatting

`strformat` copies the specification of each argument into `fmt` and leaves the rest to
`snprintf`, which it gives the size of the whole output as its limit. A store outside of `fmt`
or of the characters asked for ends the run.
-/

namespace Lavril

def MAX_FORMAT_LEN : Nat := 20

def MAX_WFORMAT_LEN : Nat := 3

def ADDITIONAL_FORMAT_SPACE : Nat := 100

/-- How `strformat` ends where it gives no text. -/
inductive FormatFault where
  | throwerror (err : String)
  /-- A store in `fmt`, or in the output, that starts at `at_` and does not fit. -/
  | outside (at_ : Int)
  deriving DecidableEq

/-- An argument: a string, a number as `lv_getinteger` and `lv_getfloat` give it, or another
value. -/
inductive FormatArg where
  | string (ts : List LVChar)
  | numeric (ti : BitVec 64) (tf : FloatValue)
  | other

/-- Characters stored from `at_` on, in the first `size` of a buffer. -/
def writeAt (size : Nat) (buffer : List LVChar) (at_ : Int) (text : List LVChar) :
    Except FormatFault (List LVChar) :=
  if 0 ≤ at_ ∧ at_ + text.length ≤ size then
    .ok (buffer.take at_.toNat ++ (text ++ buffer.drop (at_.toNat + text.length)))
  else .error (.outside at_)

/-! ## Specifications -/

/-- `text` is between the `%` and `rest`, which starts with the letter; `width` is that of the
field and of the precision. -/
structure Specification where
  text : List LVChar
  width : Nat
  rest : List LVChar

/-- The loop over the digits of a width or a precision. -/
def formatDigits (err : String) (src : List LVChar) :
    Except FormatFault (List LVChar × List LVChar) :=
  if (src.takeWhile scisdigit).length ≥ MAX_WFORMAT_LEN then .error (.throwerror err)
  else .ok (src.takeWhile scisdigit, src.dropWhile scisdigit)

/-- What `validate_format` reads. -/
def specification (src : List LVChar) : Except FormatFault Specification := do
  let flags := src.takeWhile isfmtchr
  let (swidth, src) ← formatDigits "width format too long" (src.dropWhile isfmtchr)
  let spec ←
    if src.headD 0 = _LC '.' then do
      let (precision, src) ← formatDigits "precision format too long" src.tail
      .ok ⟨flags ++ (swidth ++ _LC '.' :: precision), digitsValue 10 swidth + digitsValue 10 precision,
        src⟩
    else .ok ⟨flags ++ swidth, digitsValue 10 swidth, src⟩
  if spec.text.length > MAX_FORMAT_LEN then .error (.throwerror "format too long")
  else .ok spec

/-- The stores of `validate_format`. -/
def validate_format (fmt : List LVChar) (spec : Specification) : Except FormatFault (List LVChar) := do
  let fmt ← writeAt MAX_FORMAT_LEN fmt 0 [_LC '%']
  let fmt ← writeAt MAX_FORMAT_LEN fmt 1 (spec.text ++ [spec.rest.headD 0])
  writeAt MAX_FORMAT_LEN fmt (spec.text.length + 2) [0]

/-- `_PRINT_INT_PREC`, put before the letter. -/
def insertPrecision (fmt : List LVChar) : Except FormatFault (List LVChar) :=
  let fpos := (cstr fmt).length - 1
  writeAt MAX_FORMAT_LEN fmt fpos [_LC 'l', _LC 'l', fmt.getD fpos 0, 0]

def isIntegerLetter (c : LVChar) : Bool :=
  c ∈ [_LC 'i', _LC 'd', _LC 'o', _LC 'u', _LC 'x', _LC 'X']

def isFloatLetter (c : LVChar) : Bool := c ∈ [_LC 'f', _LC 'g', _LC 'G', _LC 'e', _LC 'E']

/-! ## The output -/

structure Formatting where
  fmt : List LVChar
  dest : List LVChar
  allocated : Nat
  i : Int

namespace Formatting

/-- `dest[i++] = c` -/
def put (st : Formatting) (c : LVChar) : Except FormatFault Formatting := do
  let dest ← writeAt st.allocated st.dest st.i [c]
  .ok { st with dest := dest, i := st.i + 1 }

/-- `i += scsprintf(&dest[i], allocated, fmt, …)`, for the text that is printed. -/
def scsprintf (st : Formatting) (text : List LVChar) : Except FormatFault Formatting := do
  let dest ← writeAt st.allocated st.dest st.i (text.take (st.allocated - 1) ++ [0])
  .ok { st with dest := dest, i := st.i + if text.length ≤ INT_MAX then (text.length : Int) else -1 }

/-- More characters are asked for. -/
def grow (fresh : Nat → LVChar) (st : Formatting) (addlen : Nat) : Formatting :=
  let allocated := st.allocated + (addlen + 1)
  { st with allocated := allocated, dest := getScratchPad fresh st.dest allocated }

section letters

variable (fresh : Nat → LVChar) (st : Formatting) (spec : Specification)

/-- The letter `s`. -/
def convertString : FormatArg → Except FormatFault Formatting
  | .string ts =>
    (st.grow fresh (ts.length + (spec.width + 1))).scsprintf
      ((conversion (cstr st.fmt)).printString ts)
  | _ => .error (.throwerror "string expected for the specified format")

/-- The letters of integers, and `c`. -/
def convertInteger : FormatArg → Except FormatFault Formatting
  | .numeric ti _ =>
    (st.grow fresh (ADDITIONAL_FORMAT_SPACE + (spec.width + 1))).scsprintf
      ((conversion (cstr st.fmt)).printInteger ti)
  | _ => .error (.throwerror "integer expected for the specified format")

def convertFloat : FormatArg → Except FormatFault Formatting
  | .numeric _ tf =>
    (st.grow fresh (ADDITIONAL_FORMAT_SPACE + (spec.width + 1))).scsprintf
      ((conversion (cstr st.fmt)).printFloat tf)
  | _ => .error (.throwerror "float expected for the specified format")

/-- The two `switch`es over the letter. -/
def convert (arg : FormatArg) : Except FormatFault Formatting :=
  let letter := spec.rest.headD 0
  if letter = _LC 's' then st.convertString fresh spec arg
  else if isIntegerLetter letter then do
    let fmt ← insertPrecision st.fmt
    { st with fmt := fmt }.convertInteger fresh spec arg
  else if letter = _LC 'c' then st.convertInteger fresh spec arg
  else if isFloatLetter letter then st.convertFloat fresh spec arg
  else .error (.throwerror "invalid format")

end letters

end Formatting

theorem formatDigits_ok {err : String} {src : List LVChar} {result : List LVChar × List LVChar}
    (read : formatDigits err src = .ok result) :
    result = (src.takeWhile scisdigit, src.dropWhile scisdigit) ∧
      (src.takeWhile scisdigit).length < MAX_WFORMAT_LEN := by
  unfold formatDigits at read
  split at read
  · cases read
  · rename_i short
    exact ⟨(Except.ok.inj read).symm, Nat.not_le.mp short⟩

/-- The parts of a specification that is read. -/
structure Parts (src : List LVChar) (spec : Specification) (flags swidth : List LVChar)
    (precision : Option (List LVChar)) : Prop where
  source : src = spec.text ++ spec.rest
  text : spec.text = flags ++ (swidth ++ Floating.fractionText precision)
  width : spec.width = digitsValue 10 swidth + (precision.map (digitsValue 10)).getD 0
  flags : ∀ c ∈ flags, isfmtchr c
  leading : ∀ c ∈ swidth.head?, isfmtchr c = false
  digits : Floating.Digits swidth
  precisionDigits : ∀ ds ∈ precision, Floating.Digits ds
  swidth_lt : swidth.length < MAX_WFORMAT_LEN
  precision_lt : ∀ ds ∈ precision, ds.length < MAX_WFORMAT_LEN
  short : spec.text.length ≤ MAX_FORMAT_LEN

theorem head?_of_takeWhile {p : LVChar → Bool} {s : List LVChar} {c : LVChar}
    (mem : c ∈ (s.takeWhile p).head?) : s.head? = some c := by
  cases s with
  | nil => cases mem
  | cons d r =>
    by_cases holds : p d = true
    · rwa [List.takeWhile_cons_of_pos holds] at mem
    · rw [List.takeWhile_cons_of_neg holds] at mem
      cases mem

theorem eq_cons_of_headD {s : List LVChar} {d : LVChar} (nonzero : d ≠ 0) (first : s.headD 0 = d) :
    s = d :: s.tail := by
  cases s with
  | nil => exact absurd first.symm nonzero
  | cons c r => exact congrArg (· :: r) first

theorem exists_parts {src : List LVChar} {spec : Specification}
    (read : specification src = .ok spec) :
    ∃ flags swidth precision, Parts src spec flags swidth precision := by
  unfold specification at read
  set behind := src.dropWhile isfmtchr with behind_eq
  have flags : ∀ c ∈ src.takeWhile isfmtchr, isfmtchr c := fun c mem => List.mem_takeWhile_imp mem
  have source : src = src.takeWhile isfmtchr ++ behind := List.takeWhile_append_dropWhile.symm
  have digits : ∀ s : List LVChar, Floating.Digits (s.takeWhile scisdigit) :=
    fun s c mem => List.mem_takeWhile_imp mem
  have leading : ∀ c ∈ (behind.takeWhile scisdigit).head?, isfmtchr c = false := by
    intro c mem
    have first := List.head?_dropWhile_not isfmtchr src
    rwa [← behind_eq, head?_of_takeWhile mem] at first
  cases width : formatDigits "width format too long" behind with
  | error fault => simp [width, bind, Except.bind] at read
  | ok result =>
    obtain ⟨rfl, swidth_lt⟩ := formatDigits_ok width
    simp only [width, bind, Except.bind] at read
    split at read
    · rename_i dot
      cases precision : formatDigits "precision format too long" (behind.dropWhile scisdigit).tail with
      | error fault => simp [precision] at read
      | ok result =>
        obtain ⟨rfl, precision_lt⟩ := formatDigits_ok precision
        simp only [precision] at read
        split at read
        · cases read
        · rename_i short
          obtain rfl := Except.ok.inj read
          refine ⟨_, _, some ((behind.dropWhile scisdigit).tail.takeWhile scisdigit), ?_, rfl, rfl,
            flags, leading, digits _, ?_, swidth_lt, ?_, Nat.not_lt.mp short⟩
          · have cut := eq_cons_of_headD (by decide) dot
            have whole : behind.takeWhile scisdigit ++ _LC '.' :: (behind.dropWhile scisdigit).tail =
                behind := by
              rw [← cut, List.takeWhile_append_dropWhile]
            simp only [List.append_assoc, List.cons_append, List.takeWhile_append_dropWhile, whole]
            exact source
          · rintro _ ⟨⟩
            exact digits _
          · rintro _ ⟨⟩
            exact precision_lt
    · split at read
      · cases read
      · rename_i short
        obtain rfl := Except.ok.inj read
        refine ⟨_, _, none, ?_, ?_, rfl, flags, leading, digits _, by simp, swidth_lt, by simp,
          Nat.not_lt.mp short⟩
        · simp only [List.append_assoc, List.takeWhile_append_dropWhile]
          exact source
        · simp [Floating.fractionText]

theorem length_rest_le {src : List LVChar} {spec : Specification}
    (read : specification src = .ok spec) : spec.rest.length ≤ src.length := by
  obtain ⟨_, _, _, parts⟩ := exists_parts read
  have := congrArg List.length parts.source
  rw [List.length_append] at this
  omega

/-- The loop of `strformat` over what is left of the format and of the arguments. -/
def formatLoop (fresh : Nat → LVChar) (format : List LVChar) (args : List FormatArg)
    (st : Formatting) : Except FormatFault Formatting :=
  match format with
  | [] => .ok st
  | c :: format =>
    if c ≠ _LC '%' then do
      let st ← st.put c
      formatLoop fresh format args st
    else if format.headD 0 = _LC '%' then do
      let st ← st.put (_LC '%')
      formatLoop fresh format.tail args st
    else
      match args with
      | [] => .error (.throwerror "not enough paramters for the given format string")
      | arg :: args =>
        match _read : specification format with
        | .error fault => .error fault
        | .ok spec => do
          let fmt ← validate_format st.fmt spec
          let st ← { st with fmt := fmt }.convert fresh spec arg
          formatLoop fresh spec.rest.tail args st
termination_by format.length
decreasing_by
  · exact Nat.lt_succ_self _
  · rw [List.length_cons, List.length_tail]
    omega
  · have := length_rest_le _read
    rw [List.length_cons, List.length_tail]
    omega

/-- `stack` is what `fmt` holds before. -/
def strformat (fresh stack : Nat → LVChar) (pad format : List LVChar) (args : List FormatArg) :
    Except FormatFault (List LVChar) := do
  let allocated := format.length + 2
  let fmt := (List.range MAX_FORMAT_LEN).map stack
  let st ← formatLoop fresh format args ⟨fmt, getScratchPad fresh pad allocated, allocated, 0⟩
  let dest ← writeAt st.allocated st.dest st.i [0]
  .ok (dest.take st.i.toNat)

end Lavril
