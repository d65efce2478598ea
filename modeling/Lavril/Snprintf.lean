import Lavril.Numerals
import Lavril.Strings

/-!
# The texts of `snprintf`

One conversion specification and its argument, in the C locale. Integers have the length
modifier `ll`. A `float` is extended to a `double`, which keeps its value.
-/

namespace Lavril

open Rounding

/-- A value of `LVFloat`. -/
inductive FloatValue where
  | finite (neg : Bool) (q : ℚ) (lt : q < 2 ^ (128 : ℤ)) (least : q = 0 ∨ 2 ^ (-149 : ℤ) ≤ q)
  | infinite (neg : Bool)
  | nan (neg : Bool)

def isfmtchr (ch : LVChar) : Bool := ch ∈ [_LC '-', _LC '+', _LC ' ', _LC '#', _LC '0']

/-- What a specification says. -/
structure Conversion where
  flags : List LVChar
  width : Nat
  precision : Option Nat
  letter : LVChar

/-- What follows the flags and the width, but for the length modifier. -/
def afterWidth (flags : List LVChar) (width : Nat) (behind : List LVChar) : Conversion :=
  if behind.headD 0 = _LC '.' then
    ⟨flags, width, some (digitsValue 10 (behind.tail.takeWhile scisdigit)),
      ((behind.tail.dropWhile scisdigit).dropWhile (· == _LC 'l')).headD 0⟩
  else ⟨flags, width, none, (behind.dropWhile (· == _LC 'l')).headD 0⟩

/-- The specification that a format starts with. -/
def conversion (fmt : List LVChar) : Conversion :=
  let behind := fmt.tail.dropWhile isfmtchr
  afterWidth (fmt.tail.takeWhile isfmtchr) (digitsValue 10 (behind.takeWhile scisdigit))
    (behind.dropWhile scisdigit)

namespace Conversion

variable (conv : Conversion)

def minus : Bool := _LC '-' ∈ conv.flags

def alt : Bool := _LC '#' ∈ conv.flags

def zero : Bool := _LC '0' ∈ conv.flags

/-- `body` behind its sign or prefix, filled up to the width. -/
def fill (zeros : Bool) (sign body : List LVChar) : List LVChar :=
  let missing := conv.width - (sign.length + body.length)
  if conv.minus then sign ++ (body ++ List.replicate missing (_LC ' '))
  else if zeros then sign ++ (List.replicate missing (_LC '0') ++ body)
  else List.replicate missing (_LC ' ') ++ (sign ++ body)

def sign (neg : Bool) : List LVChar :=
  if neg then [_LC '-']
  else if _LC '+' ∈ conv.flags then [_LC '+']
  else if _LC ' ' ∈ conv.flags then [_LC ' ']
  else []

/-- Zeros in front, for at least `n` digits. -/
def atLeast (n : Nat) (ds : List LVChar) : List LVChar :=
  List.replicate (n - ds.length) (_LC '0') ++ ds

def digitsText (base n : Nat) : List LVChar := (Nat.toDigits base n).map Char.toUInt8

/-! ## Integers and strings -/

def digits (base n : Nat) : List LVChar :=
  if n = 0 ∧ conv.precision = some 0 then []
  else atLeast (conv.precision.getD 1) (digitsText base n)

def printInteger (v : BitVec 64) : List LVChar :=
  let zeros := conv.zero && conv.precision.isNone
  match Char.ofNat conv.letter.toNat with
  | 'd' | 'i' => conv.fill zeros (conv.sign (v.toInt < 0)) (conv.digits 10 v.toInt.natAbs)
  | 'u' => conv.fill zeros [] (conv.digits 10 v.toNat)
  | 'o' =>
    let ds := conv.digits 8 v.toNat
    conv.fill zeros [] (if conv.alt ∧ ds.headD 0 ≠ _LC '0' then _LC '0' :: ds else ds)
  | 'x' => conv.fill zeros (if conv.alt ∧ v ≠ 0 then [_LC '0', _LC 'x'] else [])
      (conv.digits 16 v.toNat)
  | 'X' => conv.fill zeros (if conv.alt ∧ v ≠ 0 then [_LC '0', _LC 'X'] else [])
      ((conv.digits 16 v.toNat).map toupper)
  | _ => conv.fill false [] [UInt8.ofNat v.toNat]

def printString (s : List LVChar) : List LVChar :=
  match conv.precision with
  | none => conv.fill false [] (cstr s)
  | some p => conv.fill false [] ((cstr s).take p)

/-! ## Floating numbers -/

/-- A point, if there is something behind it or the flag asks for it. -/
def point (frac : List LVChar) : List LVChar :=
  if frac ≠ [] ∨ conv.alt then _LC '.' :: frac else []

/-- `%f`, with `p` digits behind the point. -/
def fixed (p : Nat) (q : ℚ) : List LVChar × List LVChar :=
  let ds := atLeast (p + 1) (digitsText 10 (toEven (q * 10 ^ p)).toNat)
  (ds.take (ds.length - p), ds.drop (ds.length - p))

/-- `%e`: the exponent, and `p + 1` digits. -/
def scientific (p : Nat) (q : ℚ) : ℤ × List LVChar :=
  let e := Int.log 10 q
  let n := (toEven (q / 10 ^ (e - p))).toNat
  if n < 10 ^ (p + 1) then (e, atLeast (p + 1) (digitsText 10 n))
  else (e + 1, digitsText 10 (10 ^ p))

def exponent (e : ℤ) : List LVChar :=
  _LC 'e' :: (if e < 0 then _LC '-' else _LC '+') :: atLeast 2 (digitsText 10 e.natAbs)

/-- The zeros at the end of a fraction, which `%g` leaves out. -/
def strip (frac : List LVChar) : List LVChar :=
  if conv.alt then frac else frac.rdropWhile (· == _LC '0')

def fixedText (p : Nat) (q : ℚ) : List LVChar := (fixed p q).1 ++ conv.point (fixed p q).2

def scientificText (p : Nat) (q : ℚ) : List LVChar :=
  (scientific p q).2.take 1 ++ conv.point ((scientific p q).2.drop 1) ++ exponent (scientific p q).1

def generalText (p : Nat) (q : ℚ) : List LVChar :=
  let (e, ds) := scientific (p - 1) q
  if -4 ≤ e ∧ e < p then
    let text := fixed (p - 1 - e).toNat q
    text.1 ++ conv.point (conv.strip text.2)
  else ds.take 1 ++ conv.point (conv.strip (ds.drop 1)) ++ exponent e

def magnitude (q : ℚ) : List LVChar :=
  let p := conv.precision.getD 6
  match Char.ofNat conv.letter.toNat with
  | 'e' => conv.scientificText p q
  | 'E' => (conv.scientificText p q).map toupper
  | 'g' => conv.generalText (max p 1) q
  | 'G' => (conv.generalText (max p 1) q).map toupper
  | _ => conv.fixedText p q

/-- The names of what is no number. -/
def named (name : List LVChar) : List LVChar :=
  if conv.letter = _LC 'E' ∨ conv.letter = _LC 'G' then name.map toupper else name

def printFloat : FloatValue → List LVChar
  | .finite neg q _ _ => conv.fill conv.zero (conv.sign neg) (conv.magnitude q)
  | .infinite neg => conv.fill false (conv.sign neg) (conv.named [_LC 'i', _LC 'n', _LC 'f'])
  | .nan neg => conv.fill false (conv.sign neg) (conv.named [_LC 'n', _LC 'a', _LC 'n'])

/-! ## Lengths -/

section lengths

theorem length_fill (zeros : Bool) (sign body : List LVChar) :
    (conv.fill zeros sign body).length = max conv.width (sign.length + body.length) := by
  unfold fill
  split
  · simp only [List.length_append, List.length_replicate]
    omega
  · split <;> simp only [List.length_append, List.length_replicate] <;> omega

theorem length_sign_le (neg : Bool) : (conv.sign neg).length ≤ 1 := by
  unfold sign
  split_ifs <;> simp

theorem length_atLeast (n : Nat) (ds : List LVChar) : (atLeast n ds).length = max n ds.length := by
  simp only [atLeast, List.length_append, List.length_replicate]
  omega

theorem length_digitsText_le {n k : Nat} (base : Nat) (one : 1 < base) (positive : 0 < k)
    (lt : n < base ^ k) : (digitsText base n).length ≤ k := by
  rw [digitsText, List.length_map]
  exact (Nat.length_toDigits_le_iff one positive).mpr lt

/-- 22 octal digits are enough for 64 bits. -/
theorem length_digits_le {n : Nat} (base : Nat) (octal : 8 ≤ base) (lt : n < 2 ^ 64) :
    (conv.digits base n).length ≤ conv.precision.getD 0 + 22 := by
  have enough : n < base ^ 22 := by
    calc n
      _ < 8 ^ 22 := by omega
      _ ≤ base ^ 22 := Nat.pow_le_pow_left octal 22
  have short := length_digitsText_le base (by omega) (by decide) enough
  unfold digits
  split
  · simp
  · rw [length_atLeast]
    cases conv.precision with
    | none =>
      simp only [Option.getD_none]
      omega
    | some p =>
      simp only [Option.getD_some]
      omega

theorem length_printInteger_le (v : BitVec 64) :
    (conv.printInteger v).length ≤ conv.width + conv.precision.getD 0 + 25 := by
  have small : v.toNat < 2 ^ 64 := v.isLt
  have abs : v.toInt.natAbs < 2 ^ 64 := by
    have := v.toInt_lt
    have := v.le_toInt
    omega
  have sign := conv.length_sign_le (v.toInt < 0)
  have decimal := conv.length_digits_le 10 (by decide) abs
  have unsigned := conv.length_digits_le 10 (by decide) small
  have octal := conv.length_digits_le 8 (by decide) small
  have hex := conv.length_digits_le 16 (by decide) small
  unfold printInteger
  split
  · rw [length_fill]
    omega
  · rw [length_fill]
    omega
  · rw [length_fill, List.length_nil]
    omega
  · rw [length_fill, List.length_nil]
    split
    · rw [List.length_cons]
      omega
    · omega
  · have prefixed : (if conv.alt ∧ v ≠ 0 then [_LC '0', _LC 'x'] else []).length ≤ 2 := by
      split <;> simp
    rw [length_fill]
    omega
  · have prefixed : (if conv.alt ∧ v ≠ 0 then [_LC '0', _LC 'X'] else []).length ≤ 2 := by
      split <;> simp
    rw [length_fill, List.length_map]
    omega
  · rw [length_fill, List.length_nil, List.length_singleton]
    omega

theorem length_printString_le (s : List LVChar) :
    (conv.printString s).length ≤ max conv.width s.length := by
  have short : (cstr s).length ≤ s.length := (List.takeWhile_prefix _).length_le
  unfold printString
  split
  · rw [length_fill, List.length_nil, Nat.zero_add]
    omega
  · rw [length_fill, List.length_nil, Nat.zero_add, List.length_take]
    omega

/-! ### Floating numbers -/

theorem toEven_toNat_le {x : ℚ} {n : Nat} (lt : x < n) : (toEven x).toNat ≤ n := by
  have error := (abs_le.mp (toEven_error x)).2
  have below : (toEven x : ℚ) < n + 1 := by linarith
  have : toEven x < n + 1 := by exact_mod_cast below
  omega

theorem length_fixed_le {q : ℚ} (p : Nat) (lt : q < 2 ^ (128 : ℤ)) :
    (fixed p q).1.length + (fixed p q).2.length ≤ p + 40 := by
  have scaled : q * 10 ^ p < ((10 ^ 39 * 10 ^ p : ℕ) : ℚ) := by
    have bound : q < 10 ^ 39 := lt.trans (by norm_num)
    push_cast
    exact mul_lt_mul_of_pos_right bound (by positivity)
  have le := toEven_toNat_le scaled
  have enough : (toEven (q * 10 ^ p)).toNat < 10 ^ (p + 40) := by
    have split : 10 ^ (p + 40) = 10 ^ 40 * 10 ^ p := by rw [pow_add, Nat.mul_comm]
    have positive : 0 < 10 ^ p := Nat.pow_pos (by decide)
    omega
  have short := length_digitsText_le 10 (by decide) (by omega) enough
  have total := length_atLeast (p + 1) (digitsText 10 (toEven (q * 10 ^ p)).toNat)
  simp only [fixed, List.length_take, List.length_drop]
  omega

theorem length_scientific_le {q : ℚ} (p : Nat) : (scientific p q).2.length ≤ p + 1 := by
  simp only [scientific]
  split
  · rename_i small
    have short := length_digitsText_le 10 (by decide) (Nat.succ_pos p) small
    rw [length_atLeast]
    omega
  · exact length_digitsText_le 10 (by decide) (Nat.succ_pos p)
      (Nat.pow_lt_pow_right (by decide) (Nat.lt_succ_self p))

/-- The exponents of a `float` have two digits. -/
theorem scientific_exponent {q : ℚ} (p : Nat) (lt : q < 2 ^ (128 : ℤ))
    (least : q = 0 ∨ 2 ^ (-149 : ℤ) ≤ q) :
    -46 ≤ (scientific p q).1 ∧ (scientific p q).1 ≤ 40 := by
  have log : -46 ≤ Int.log 10 q ∧ Int.log 10 q ≤ 39 := by
    rcases least with rfl | low
    · rw [Int.log_zero_right]
      decide
    · have positive : 0 < q := lt_of_lt_of_le (by norm_num) low
      constructor
      · have below : ((10 : ℕ) : ℚ) ^ (-46 : ℤ) ≤ q := le_trans (by norm_num) low
        exact (Int.zpow_le_iff_le_log (by decide) positive).mp below
      · have above : q < ((10 : ℕ) : ℚ) ^ (40 : ℤ) := lt.trans (by norm_num)
        exact Int.le_of_lt_add_one ((Int.lt_zpow_iff_log_lt (by decide) positive).mp above)
  simp only [scientific]
  split
  · omega
  · simp only
    omega

theorem length_exponent_le {e : ℤ} (low : -46 ≤ e) (high : e ≤ 40) : (exponent e).length ≤ 4 := by
  have small : e.natAbs < 10 ^ 2 := by omega
  have short := length_digitsText_le 10 (by decide) (by decide) small
  rw [exponent, List.length_cons, List.length_cons, length_atLeast]
  omega

theorem length_point_le (frac : List LVChar) : (conv.point frac).length ≤ frac.length + 1 := by
  unfold point
  split
  · exact Nat.le_refl _
  · exact Nat.zero_le _

theorem length_strip_le (frac : List LVChar) : (conv.strip frac).length ≤ frac.length := by
  unfold strip
  split
  · exact Nat.le_refl _
  · exact (List.rdropWhile_prefix _ _).length_le

theorem length_fixedText_le {q : ℚ} (p : Nat) (lt : q < 2 ^ (128 : ℤ)) :
    (conv.fixedText p q).length ≤ p + 41 := by
  have parts := length_fixed_le p lt
  have point := conv.length_point_le (fixed p q).2
  rw [fixedText, List.length_append]
  omega

theorem length_scientificText_le {q : ℚ} (p : Nat) (lt : q < 2 ^ (128 : ℤ))
    (least : q = 0 ∨ 2 ^ (-149 : ℤ) ≤ q) : (conv.scientificText p q).length ≤ p + 6 := by
  obtain ⟨low, high⟩ := scientific_exponent p lt least
  have exponent := length_exponent_le low high
  have digits := length_scientific_le (q := q) p
  have point := conv.length_point_le ((scientific p q).2.drop 1)
  simp only [scientificText, List.length_append, List.length_take, List.length_drop] at point ⊢
  omega

theorem length_generalText_le {q : ℚ} {p : Nat} (positive : 0 < p) (lt : q < 2 ^ (128 : ℤ))
    (least : q = 0 ∨ 2 ^ (-149 : ℤ) ≤ q) : (conv.generalText p q).length ≤ p + 44 := by
  obtain ⟨low, high⟩ := scientific_exponent (p - 1) lt least
  have exponent := length_exponent_le low high
  have digits := length_scientific_le (q := q) (p - 1)
  simp only [generalText]
  split
  · have parts := length_fixed_le (p - 1 - (scientific (p - 1) q).1).toNat lt
    have point := conv.length_point_le
      (conv.strip (fixed (p - 1 - (scientific (p - 1) q).1).toNat q).2)
    have strip := conv.length_strip_le (fixed (p - 1 - (scientific (p - 1) q).1).toNat q).2
    rw [List.length_append]
    omega
  · have point := conv.length_point_le (conv.strip ((scientific (p - 1) q).2.drop 1))
    have strip := conv.length_strip_le ((scientific (p - 1) q).2.drop 1)
    simp only [List.length_append, List.length_take, List.length_drop] at point strip ⊢
    omega

theorem length_magnitude_le {q : ℚ} (lt : q < 2 ^ (128 : ℤ)) (least : q = 0 ∨ 2 ^ (-149 : ℤ) ≤ q) :
    (conv.magnitude q).length ≤ conv.precision.getD 6 + 45 := by
  have fixed := conv.length_fixedText_le (conv.precision.getD 6) lt
  have scientific := conv.length_scientificText_le (conv.precision.getD 6) lt least
  have positive : 0 < max (conv.precision.getD 6) 1 := by omega
  have general := conv.length_generalText_le positive lt least
  simp only [magnitude]
  split
  · omega
  · rw [List.length_map]
    omega
  · omega
  · rw [List.length_map]
    omega
  · omega

theorem length_named (name : List LVChar) : (conv.named name).length = name.length := by
  unfold named
  split
  · exact List.length_map _
  · rfl

theorem length_printFloat_le (v : FloatValue) :
    (conv.printFloat v).length ≤ conv.width + conv.precision.getD 0 + 60 := by
  have precision : conv.precision.getD 6 ≤ conv.precision.getD 0 + 6 := by
    cases conv.precision with
    | none => decide
    | some p => exact Nat.le_add_right p 6
  cases v with
  | finite neg q lt least =>
    have sign := conv.length_sign_le neg
    have body := conv.length_magnitude_le lt least
    rw [printFloat, length_fill]
    omega
  | infinite neg =>
    have sign := conv.length_sign_le neg
    rw [printFloat, length_fill, length_named]
    simp only [List.length_cons, List.length_nil]
    omega
  | nan neg =>
    have sign := conv.length_sign_le neg
    rw [printFloat, length_fill, length_named]
    simp only [List.length_cons, List.length_nil]
    omega

end lengths

end Conversion

end Lavril
