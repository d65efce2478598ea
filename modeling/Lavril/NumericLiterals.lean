import Lavril.Numerals
import Lavril.StringLiterals
import Mathlib.Data.List.Induction

/-!
# Reading numbers

The scanner takes any points and exponents, and `strtod` what it can use of them. Integers are
computed in 64 bits.
-/

namespace Lavril.LVLexer

open Floating

variable {F : Type} {read : List LexChar → F} {L : LVLexer F} {c d : LexChar}
  {s ds rest : List LexChar}

/-! ## The scanner -/

theorem past_nil (text : L.text = rest) : L.past rest 0 0 [] = L := by
  cases L
  simp_all [past]

theorem appendWhile_eq (p : LexChar → Bool) (each : ∀ c ∈ s, p c) (stop : p (rest.headD 0) = false)
    (text : L.text = s ++ rest) : L.appendWhile p = L.past rest s.length 0 s := by
  induction s generalizing L with
  | nil =>
    have unread : L.text = rest := text
    rw [List.length_nil, past_nil unread, appendWhile]
    split
    · rfl
    · rename_i first
      rw [← unread, first] at stop
      exact if_neg (by simpa using stop)
  | cons c s ih =>
    have unread : L.text = c :: (s ++ rest) := text
    have tail := ih (L := L.past (s ++ rest) 1 0 [c])
      (fun d mem => each d (List.mem_cons_of_mem c mem)) rfl
    rw [appendWhile]
    split
    · rename_i none
      rw [none] at unread
      cases unread
    · rename_i first
      rw [first] at unread
      obtain ⟨rfl, rfl⟩ := List.cons.inj unread
      rw [if_pos (each _ List.mem_cons_self), append_next_eq_past first, tail, past_past]
      simp [Nat.add_comm]

/-- What is gathered behind the first digit of a number that is not octal or hexadecimal. -/
inductive Scanned : List LexChar → Prop
  | nil : Scanned []
  | digit {c : LexChar} {s : List LexChar} (digit : scisdigit c) (tail : Scanned s) :
      Scanned (c :: s)
  | point {s : List LexChar} (tail : Scanned s) : Scanned (_LC '.' :: s)
  | exponent {e d : LexChar} {sign s : List LexChar} (letter : isexponent e) (signed : Sign sign)
      (digit : scisdigit d) (tail : Scanned s) : Scanned (e :: (sign ++ d :: s))

/-- The scanner goes on. -/
def Continues (c : LexChar) : Prop := c = _LC '.' ∨ scisdigit c ∨ isexponent c

instance (c : LexChar) : Decidable (Continues c) := inferInstanceAs (Decidable (_ ∨ _ ∨ _))

def Floats (type : NumberType) : Prop := type = .TFLOAT ∨ type = .TSCIENTIFIC

theorem appendSign_eq {sign : List LexChar} (signed : Sign sign) (digit : scisdigit d)
    (text : L.text = sign ++ d :: rest) :
    L.appendSign = L.past (d :: rest) sign.length 0 sign := by
  rcases signed with rfl | rfl | rfl
  · have unread : L.text = d :: rest := text
    have plain : ¬ (d = _LC '+' ∨ d = _LC '-') := by
      rintro (rfl | rfl) <;> exact absurd digit (by decide)
    rw [appendSign, cur_cons unread, if_neg plain]
    exact (past_nil unread).symm
  · have unread : L.text = _LC '+' :: d :: rest := text
    rw [appendSign, cur_cons unread, if_pos (.inl rfl)]
    exact append_next_eq_past unread _
  · have unread : L.text = _LC '-' :: d :: rest := text
    rw [appendSign, cur_cons unread, if_pos (.inr rfl)]
    exact append_next_eq_past unread _

theorem scanNumber_cons (type : NumberType) (text : L.text = c :: rest) :
    L.scanNumber type =
      if c = _LC '.' ∨ scisdigit c ∨ isexponent c then
        let type := if c = _LC '.' ∨ isexponent c then .TFLOAT else type
        if isexponent c then
          if type ≠ .TFLOAT then .error (.error "invalid numeric format")
          else
            let signed := (L.append c).next.appendSign
            if scisdigit signed.cur then (signed.append signed.cur).next.scanNumber .TSCIENTIFIC
            else .error (.error "exponent expected")
        else (L.append c).next.scanNumber type
      else .ok (type, L) := by
  rw [scanNumber]
  split
  · rename_i none
    rw [none] at text
    cases text
  · rename_i first
    rw [first] at text
    obtain ⟨rfl, rfl⟩ := List.cons.inj text
    rfl

theorem scanNumber_eq (scanned : Scanned s) (type : NumberType) (text : L.text = s ++ rest)
    (ends : ¬ Continues (rest.headD 0)) :
    ∃ type', L.scanNumber type = .ok (type', L.past rest s.length 0 s) ∧
      ((∃ c ∈ s, mark c ≠ 0) → Floats type') ∧ ((∀ c ∈ s, mark c = 0) → type' = type) := by
  induction scanned generalizing L type with
  | nil =>
    have unread : L.text = rest := text
    refine ⟨type, ?_, by simp, fun _ => rfl⟩
    rw [List.length_nil, past_nil unread]
    cases rest with
    | nil =>
      rw [scanNumber]
      split
      · rfl
      · rename_i first
        rw [unread] at first
        cases first
    | cons c rest =>
      rw [scanNumber_cons type unread]
      exact if_neg ends
  | @digit c s digit _ ih =>
    have unread : L.text = c :: (s ++ rest) := text
    obtain ⟨type', scan, floats, same⟩ := ih type (L := L.past (s ++ rest) 1 0 [c]) rfl
    have zero := mark_digit digit
    have notExponent : isexponent c = false := by
      by_contra e
      exact mark_ne_zero_iff.mpr (.inr (by simpa using e)) zero
    have notPoint : c ≠ _LC '.' := fun point => mark_ne_zero_iff.mpr (.inl point) zero
    refine ⟨type', ?_, ?_, ?_⟩
    · rw [scanNumber_cons type unread, if_pos (.inr (.inl digit))]
      simp only [notPoint, notExponent, Bool.false_eq_true, or_self, if_false]
      rw [append_next_eq_past unread, scan, past_past]
      simp [Nat.add_comm]
    · rintro ⟨x, mem, marked⟩
      rcases List.mem_cons.mp mem with rfl | mem
      · exact absurd zero marked
      · exact floats ⟨x, mem, marked⟩
    · exact fun all => same fun x mem => all x (List.mem_cons_of_mem c mem)
  | @point s _ ih =>
    have unread : L.text = _LC '.' :: (s ++ rest) := text
    obtain ⟨type', scan, floats, same⟩ := ih .TFLOAT (L := L.past (s ++ rest) 1 0 [_LC '.']) rfl
    have notExponent : isexponent (_LC '.') = false := by decide
    refine ⟨type', ?_, fun _ => ?_, fun all => ?_⟩
    · rw [scanNumber_cons type unread, if_pos (.inl rfl)]
      simp only [notExponent, Bool.false_eq_true, if_false, true_or, if_true]
      rw [append_next_eq_past unread, scan, past_past]
      simp [Nat.add_comm]
    · by_cases marked : ∃ c ∈ s, mark c ≠ 0
      · exact floats marked
      · exact .inl (same fun c mem => by
          by_contra one
          exact marked ⟨c, mem, one⟩)
    · have := all (_LC '.') List.mem_cons_self
      exact absurd this (by decide)
  | @exponent e d sign s letter signed digit _ ih =>
    have unread : L.text = e :: (sign ++ d :: (s ++ rest)) := by
      rw [text]
      simp
    obtain ⟨type', scan, floats, same⟩ := ih .TSCIENTIFIC
      (L := L.past (s ++ rest) (1 + sign.length + 1) 0 (e :: (sign ++ [d]))) rfl
    have afterSign := appendSign_eq (L := L.past (sign ++ d :: (s ++ rest)) 1 0 [e]) signed digit rfl
    refine ⟨type', ?_, fun _ => ?_, fun all => ?_⟩
    · rw [scanNumber_cons type unread, if_pos (.inr (.inr letter))]
      simp only [letter, or_true, if_true, ne_eq, not_true, if_false, append_next_eq_past unread,
        afterSign, past_past]
      have at_ : (L.past (d :: (s ++ rest)) (1 + sign.length) (0 + 0) ([e] ++ sign)).cur = d := rfl
      have stored : (L.past (d :: (s ++ rest)) (1 + sign.length) (0 + 0) ([e] ++ sign)).text =
          d :: (s ++ rest) := rfl
      rw [at_, if_pos digit, append_next_eq_past stored, past_past]
      have same : ([e] ++ sign) ++ [d] = e :: (sign ++ [d]) := rfl
      rw [same]
      refine scan.trans ?_
      rw [past_past]
      simp only [List.length_cons, List.length_append, Int.add_zero, List.cons_append,
        List.append_assoc]
      congr 3
      omega
    · by_cases marked : ∃ c ∈ s, mark c ≠ 0
      · exact floats marked
      · exact .inr (same fun c mem => by
          by_contra one
          exact marked ⟨c, mem, one⟩)
    · have := all e List.mem_cons_self
      rw [mark_exponent letter] at this
      cases this

theorem text_appendSign (L : LVLexer F) :
    ∃ sign, Sign sign ∧ L.text = sign ++ L.appendSign.text := by
  cases text : L.text with
  | nil =>
    have none : ¬ (L.cur = _LC '+' ∨ L.cur = _LC '-') := by
      rw [cur, text]
      decide
    exact ⟨[], .inl rfl, by rw [appendSign, if_neg none, text]; rfl⟩
  | cons c rest =>
    rw [appendSign, cur_cons text]
    split
    · rename_i sign
      refine ⟨[c], .inr (sign.imp ?_ ?_), by simp [append, next, text]⟩
      · rintro rfl
        rfl
      · rintro rfl
        rfl
    · exact ⟨[], .inl rfl, text.symm⟩

/-- What the scanner has read. -/
theorem scanned_of_ok {type type' : NumberType} {L' : LVLexer F}
    (scan : L.scanNumber type = .ok (type', L')) :
    ∃ s, Scanned s ∧ L.text = s ++ L'.text ∧ ¬ Continues (L'.text.headD 0) := by
  induction size : L.text.length using Nat.strong_induction_on generalizing L type with
  | _ n ih =>
    cases text : L.text with
    | nil =>
      rw [scanNumber] at scan
      split at scan
      · obtain rfl : L = L' := (Prod.mk.inj (Except.ok.inj scan)).2
        rw [text]
        exact ⟨[], .nil, rfl, by decide⟩
      · rename_i first
        rw [text] at first
        cases first
    | cons c rest =>
      rw [scanNumber_cons type text] at scan
      split at scan
      · rename_i continues
        by_cases letter : isexponent c = true
        · simp only [letter, or_true, if_true, ne_eq, not_true, if_false,
            append_next_eq_past text] at scan
          obtain ⟨sign, signed, split⟩ := text_appendSign (L.past rest 1 0 [c])
          set L₁ := (L.past rest 1 0 [c]).appendSign
          split at scan
          · rename_i digit
            have shorter : L₁.text.length ≤ rest.length := by
              have := congrArg List.length split
              rw [text_past, List.length_append] at this
              omega
            cases unread : L₁.text with
            | nil =>
              have none : ¬ scisdigit L₁.cur = true := by
                rw [cur, unread]
                decide
              exact absurd digit none
            | cons d r =>
              rw [cur_cons unread] at digit scan
              rw [append_next_eq_past unread] at scan
              have less : (L₁.past r 1 0 [d]).text.length < n := by
                rw [unread] at shorter
                rw [← size, text]
                exact Nat.lt_succ_of_lt shorter
              obtain ⟨s, scanned, split', ends⟩ := ih _ less scan rfl
              refine ⟨c :: (sign ++ d :: s), .exponent letter signed digit scanned, ?_, ends⟩
              rw [text_past, unread] at split
              rw [text_past] at split'
              rw [split, split']
              simp
          · cases scan
        · simp only [letter, append_next_eq_past text] at scan
          have less : (L.past rest 1 0 [c]).text.length < n := by
            rw [← size, text]
            exact Nat.lt_succ_self rest.length
          obtain ⟨s, scanned, split, ends⟩ := ih _ less scan rfl
          rw [text_past] at split
          rw [split]
          rcases continues with rfl | digit | e
          · exact ⟨_LC '.' :: s, .point scanned, rfl, ends⟩
          · exact ⟨c :: s, .digit digit scanned, rfl, ends⟩
          · exact absurd e letter
      · rename_i ends
        obtain rfl : L = L' := (Prod.mk.inj (Except.ok.inj scan)).2
        exact ⟨[], .nil, text.symm, by rw [text]; exact ends⟩

/-! ## Floating literals -/

namespace Scanned

/-- The digits at the start, and the first point or exponent. -/
theorem span (scanned : Scanned s) :
    ∃ ds r, s = ds ++ r ∧ Digits ds ∧ (r = [] ∨ (∃ t, r = _LC '.' :: t ∧ Scanned t) ∨
      ∃ e sign d t, r = e :: (sign ++ d :: t) ∧ isexponent e ∧ Sign sign ∧ scisdigit d ∧
        Scanned t) := by
  induction scanned with
  | nil => exact ⟨[], [], rfl, by simp [Digits], .inl rfl⟩
  | @digit c s digit _ ih =>
    obtain ⟨ds, r, rfl, digits, behind⟩ := ih
    exact ⟨c :: ds, r, rfl, List.forall_mem_cons.mpr ⟨digit, digits⟩, behind⟩
  | @point s tail _ => exact ⟨[], _, rfl, by simp [Digits], .inr (.inl ⟨s, rfl, tail⟩)⟩
  | @exponent e d sign s letter signed digit tail _ =>
    exact ⟨[], _, rfl, by simp [Digits],
      .inr (.inr ⟨e, sign, d, s, rfl, letter, signed, digit, tail⟩)⟩

theorem append_digits (digits : Digits ds) (tail : Scanned s) : Scanned (ds ++ s) := by
  induction ds with
  | nil => exact tail
  | cons c ds ih =>
    exact .digit (digits c List.mem_cons_self) (ih fun d mem => digits d (List.mem_cons_of_mem c mem))

theorem head (scanned : Scanned (c :: s)) :
    scisdigit c = true ∨ mark c ≠ 0 ∨ c = _LC '+' ∨ c = _LC '-' := by
  cases scanned with
  | digit digit => exact .inl digit
  | point => exact .inr (.inl (by decide))
  | exponent letter => exact .inr (.inl (by rw [mark_exponent letter]; decide))

theorem digits_of_mark_zero (scanned : Scanned s) (zero : ∀ c ∈ s, mark c = 0) : Digits s := by
  obtain ⟨ds, r, rfl, digits, none | ⟨t, rfl, -⟩ | ⟨e, sign, d, t, rfl, letter, -⟩⟩ := scanned.span
  · rwa [none, List.append_nil]
  · have := zero (_LC '.') (by simp)
    exact absurd this (by decide)
  · have := zero e (by simp)
    rw [mark_exponent letter] at this
    cases this

end Scanned

theorem mark_le (c : LexChar) : mark c ≤ 2 := by
  unfold mark
  split
  · decide
  · split <;> decide

/-- Nothing is marked behind an exponent. -/
theorem digits_of_exponent {e : LexChar} {sign t : List LexChar} (letter : isexponent e)
    (digit : scisdigit d) (scanned : Scanned t)
    (pairwise : (e :: (sign ++ d :: t)).Pairwise Follows) : Digits (d :: t) := by
  have behind := (List.pairwise_cons.mp pairwise).1
  have zero : ∀ c ∈ t, mark c = 0 := by
    intro c mem
    by_contra marked
    have higher := behind c (by simp [mem]) marked
    have le := mark_le c
    rw [mark_exponent letter] at higher
    omega
  exact List.forall_mem_cons.mpr ⟨digit, scanned.digits_of_mark_zero zero⟩

/-- Where the points and exponents follow each other, the text is a floating literal. -/
theorem exists_floating (scanned : Scanned s) (digit : scisdigit (s.headD 0))
    (pairwise : s.Pairwise Follows) (marked : ∃ c ∈ s, mark c ≠ 0) :
    ∃ lit : Floating, lit.WellFormed ∧ lit.text = s := by
  obtain ⟨ds, r, rfl, digits, behind⟩ := scanned.span
  have some : ds ≠ [] := by
    rintro rfl
    rcases behind with rfl | ⟨t, rfl, -⟩ | ⟨e, sign, d, t, rfl, letter, -⟩
    · exact absurd digit (by decide)
    · have point : ¬ scisdigit (_LC '.') = true := by decide
      exact point digit
    · rw [List.nil_append, List.headD_cons, (not_digit_of_exponent letter).1] at digit
      cases digit
  have after := (List.pairwise_append.mp pairwise).2.1
  rcases behind with rfl | ⟨t, rfl, tail⟩ | ⟨e, sign, d, t, rfl, letter, signed, digit', tail⟩
  · obtain ⟨c, mem, marked⟩ := marked
    rw [List.append_nil] at mem
    exact absurd (mark_digit (digits c mem)) marked
  · obtain ⟨fs, r, rfl, fraction, behind⟩ := tail.span
    have last := (List.pairwise_cons.mp after).1
    have after := (List.pairwise_append.mp (List.pairwise_cons.mp after).2).2.1
    rcases behind with rfl | ⟨t, rfl, -⟩ | ⟨e, sign, d, t, rfl, letter, signed, digit', tail⟩
    · refine ⟨⟨ds, Option.some fs, none⟩, ⟨some, digits, ?_, by simp, by simp⟩, ?_⟩
      · rintro _ ⟨⟩
        exact fraction
      · simp [Floating.text, fractionText, exponentText]
    · have point : ¬ Follows (_LC '.') (_LC '.') := by
        unfold Follows
        decide
      exact absurd (last (_LC '.') (by simp)) point
    · have exponent := digits_of_exponent letter digit' tail after
      refine ⟨⟨ds, Option.some fs, Option.some (e, sign, d :: t)⟩, ⟨some, digits, ?_, ?_, by simp⟩, ?_⟩
      · rintro _ ⟨⟩
        exact fraction
      · rintro _ _ _ ⟨⟩
        exact ⟨letter, signed, by simp, exponent⟩
      · simp [Floating.text, fractionText, exponentText]
  · have exponent := digits_of_exponent letter digit' tail after
    refine ⟨⟨ds, none, Option.some (e, sign, d :: t)⟩, ⟨some, digits, by simp, ?_, by simp⟩, ?_⟩
    · rintro _ _ _ ⟨⟩
      exact ⟨letter, signed, by simp, exponent⟩
    · simp [Floating.text, fractionText, exponentText]

theorem scanned_text {lit : Floating} (wellFormed : lit.WellFormed) : Scanned lit.text := by
  refine Scanned.append_digits wellFormed.whole ?_
  have exponent : Scanned (exponentText lit.exponent) := by
    cases exponent : lit.exponent with
    | none => exact .nil
    | some exponent' =>
      obtain ⟨e, sign, ds⟩ := exponent'
      obtain ⟨letter, signed, some, digits⟩ := wellFormed.exponent e sign ds exponent
      cases ds with
      | nil => exact absurd rfl some
      | cons d ds =>
        have tail : Scanned ds := by
          have : Scanned (ds ++ []) :=
            Scanned.append_digits (fun c mem => digits c (List.mem_cons_of_mem d mem)) .nil
          rwa [List.append_nil] at this
        exact .exponent letter signed (digits d List.mem_cons_self) tail
  cases fraction : lit.fraction with
  | none => exact exponent
  | some ds => exact .point (Scanned.append_digits (wellFormed.fraction ds fraction) exponent)

/-! ## Integers -/

theorem foldl_ofNat (base : Nat) {value : LexChar → Nat} (same : ∀ c ∈ ds, value c = hexValue c) :
    ds.foldl (fun res c => res * BitVec.ofNat 64 base + BitVec.ofNat 64 (value c)) 0 =
      BitVec.ofNat 64 (digitsValue base ds) := by
  induction ds using List.reverseRecOn with
  | nil => rfl
  | append_singleton ds c ih =>
    have before := ih fun d mem => same d (List.mem_append_left _ mem)
    have last := same c (by simp)
    simp only [digitsValue, List.foldl_append, List.foldl_cons, List.foldl_nil] at before ⊢
    rw [before, last, BitVec.ofNat_add, BitVec.ofNat_mul, BitVec.mul_comm]

theorem value_of_digit (digit : scisdigit c) : c.toNat - (_LC '0').toNat = hexValue c := by
  rw [hexValue, if_pos digit]

theorem digit_of_octal : scisodigit c = true → scisdigit c = true := forall_char (by decide +kernel) c

theorem lexInteger_eq (digits : Digits ds) : lexInteger ds = BitVec.ofNat 64 (digitsValue 10 ds) :=
  foldl_ofNat 10 fun c mem => value_of_digit (digits c mem)

theorem lexOctal_eq (digits : ∀ c ∈ ds, scisodigit c) :
    lexOctal ds = BitVec.ofNat 64 (digitsValue 8 ds) :=
  foldl_ofNat 8 fun c mem => value_of_digit (digit_of_octal (digits c mem))

theorem lexHexadecimal_eq (ds : List LexChar) :
    lexHexadecimal ds = BitVec.ofNat 64 (digitsValue 16 ds) :=
  foldl_ofNat 16 fun _ _ => rfl

theorem toInt_ofNat_iff (n : Nat) : (BitVec.ofNat 64 n).toInt = n ↔ n < 2 ^ 63 := by
  rw [BitVec.toInt_ofNat']
  constructor
  · intro same
    have := Int.bmod_lt (x := n) (m := 2 ^ 64) (by decide)
    omega
  · intro lt
    exact Int.bmod_eq_of_le (by omega) (by omega)

/-! ## `ReadNumber` -/

theorem readNumber_hex (read : List LexChar → F) {x : LexChar} (text : L.text = _LC '0' :: x :: (ds ++ rest))
    (letter : toupper x = _LC 'X') (hex : ∀ c ∈ ds, isxdigit c)
    (stop : isxdigit (rest.headD 0) = false) :
    L.readNumber read =
      if ds.length > MAX_HEX_DIGITS then .error (.error "too many digits for an Hex number")
      else .ok (({ L with longstr := [] }.past rest (2 + ds.length) 0 ds).convertNumber read .THEX) := by
  have first := cur_cons text
  have notOctal : scisodigit x = false := by
    revert letter
    exact forall_char (by decide +kernel) x
  have unread : ({ L with longstr := [] } : LVLexer F).text = _LC '0' :: x :: (ds ++ rest) := text
  have second : ({ L with longstr := [] }.past (x :: (ds ++ rest)) 1 0 [] : LVLexer F).cur = x := rfl
  have third : ({ L with longstr := [] }.past (x :: (ds ++ rest)) 1 0 [] : LVLexer F).text =
      x :: (ds ++ rest) := rfl
  have digits := appendWhile_eq isxdigit
    (L := ({ L with longstr := [] }.past (ds ++ rest) 2 0 [] : LVLexer F)) hex stop rfl
  simp only [readNumber, first, next_eq_past unread, second, letter, notOctal, Bool.false_eq_true,
    or_false, and_self, if_true, if_false, next_eq_past third, past_past]
  simp only [List.nil_append, Int.add_zero, Nat.reduceAdd]
  rw [digits, past_past]
  rfl

theorem readNumber_octal (text : L.text = _LC '0' :: (ds ++ rest)) (some : ds ≠ [])
    (octal : ∀ c ∈ ds, scisodigit c) (stop : scisodigit (rest.headD 0) = false) :
    L.readNumber read =
      if scisdigit (rest.headD 0) then .error (.error "invalid octal number")
      else .ok (({ L with longstr := [] }.past rest (1 + ds.length) 0 ds).convertNumber read .TOCTAL) := by
  have first := cur_cons text
  have unread : ({ L with longstr := [] } : LVLexer F).text = _LC '0' :: (ds ++ rest) := text
  have second : scisodigit ({ L with longstr := [] }.past (ds ++ rest) 1 0 [] : LVLexer F).cur = true := by
    cases ds with
    | nil => exact absurd rfl some
    | cons d ds => exact octal d List.mem_cons_self
  have digits := appendWhile_eq scisodigit
    (L := ({ L with longstr := [] }.past (ds ++ rest) 1 0 [] : LVLexer F)) octal stop rfl
  simp only [readNumber, first, next_eq_past unread, second, or_true, and_self, if_true, digits,
    past_past]
  rfl

theorem readNumber_scan {t : List LexChar} (text : L.text = d :: t) (start : ¬ StartsOctal (d :: t))
    (hex : ¬ (d = _LC '0' ∧ toupper (t.headD 0) = _LC 'X')) :
    L.readNumber read =
      (({ L with longstr := [] }.past t 1 0 [d]).scanNumber .TINT).map
        fun (scanned : NumberType × LVLexer F) => scanned.2.convertNumber read scanned.1 := by
  have first := cur_cons text
  have unread : ({ L with longstr := [] } : LVLexer F).text = d :: t := text
  have second : ({ L with longstr := [] }.past t 1 0 [] : LVLexer F).cur = t.headD 0 := rfl
  have neither : ¬ (d = _LC '0' ∧ (toupper (t.headD 0) = _LC 'X' ∨ scisodigit (t.headD 0) = true)) := by
    rintro ⟨zero, x | octal⟩
    · exact hex ⟨zero, x⟩
    · exact start ⟨zero, octal⟩
  have stored : ({ L with longstr := [] }.past t 1 0 [] : LVLexer F).append d = _ := append_past 1 [] d
  simp only [readNumber, first, next_eq_past unread, second, if_neg neither, stored]
  rfl

/-! ## What the tokens denote -/

/-- The literal ends where `rest` starts, and is not refused. -/
def Ends (rest : List LexChar) : NumberLiteral → Prop
  | .decimal ds => ¬ Continues (rest.headD 0) ∧ (ds = [_LC '0'] → toupper (rest.headD 0) ≠ _LC 'X')
  | .octal _ => scisdigit (rest.headD 0) = false
  | .hexadecimal _ ds => ds.length ≤ MAX_HEX_DIGITS ∧ isxdigit (rest.headD 0) = false
  | .floating _ => ¬ Continues (rest.headD 0)

theorem readNumber_integer (read : List LexChar → F) {n : NumberLiteral} {k : Nat} (wellFormed : n.WellFormed)
    (integer : n.integer = some k) (ends : Ends rest n) (text : L.text = n.text ++ rest) :
    ∃ L', L.readNumber read = .ok (TK_INTEGER, L') ∧ L'.text = rest ∧
      L'.nvalue = BitVec.ofNat 64 k := by
  cases n with
  | decimal ds =>
    obtain ⟨some, digits, start⟩ := wellFormed
    obtain ⟨ends, notHex⟩ := ends
    obtain rfl : digitsValue 10 ds = k := Option.some.inj integer
    have gathered := lexInteger_eq digits
    cases ds with
    | nil => exact absurd rfl some
    | cons d ds =>
      have unread : L.text = d :: (ds ++ rest) := text
      have tail : Digits ds := fun c mem => digits c (List.mem_cons_of_mem d mem)
      have scanned : Scanned ds := by
        have := Scanned.append_digits tail .nil
        rwa [List.append_nil] at this
      have start' : ¬ StartsOctal (d :: (ds ++ rest)) := by
        rintro ⟨zero, octal⟩
        cases ds with
        | nil => exact ends (.inr (.inl (digit_of_octal octal)))
        | cons e ds => exact start ⟨zero, octal⟩
      have hex : ¬ (d = _LC '0' ∧ toupper ((ds ++ rest).headD 0) = _LC 'X') := by
        rintro ⟨rfl, x⟩
        cases ds with
        | nil => exact notHex rfl x
        | cons e ds => exact NumberLiteral.not_x_of_digit (tail e List.mem_cons_self) x
      obtain ⟨type', scan, -, same⟩ := scanNumber_eq scanned .TINT
        (L := ({ L with longstr := [] }.past (ds ++ rest) 1 0 [d] : LVLexer F)) rfl ends
      obtain rfl := same fun c mem => mark_digit (tail c mem)
      rw [readNumber_scan unread start' hex, scan, past_past]
      exact ⟨_, rfl, rfl, gathered⟩
  | octal ds =>
    obtain ⟨some, digits⟩ := wellFormed
    obtain rfl : digitsValue 8 ds = k := Option.some.inj integer
    have ends : scisdigit (rest.headD 0) = false := ends
    have stop : scisodigit (rest.headD 0) = false := by
      by_contra octal
      rw [digit_of_octal (by simpa using octal)] at ends
      cases ends
    have gathered := lexOctal_eq digits
    rw [readNumber_octal text some digits stop, ends]
    exact ⟨_, rfl, rfl, gathered⟩
  | hexadecimal x ds =>
    obtain ⟨letter, -, digits⟩ := wellFormed
    obtain rfl : digitsValue 16 ds = k := Option.some.inj integer
    obtain ⟨short, stop⟩ := ends
    rw [readNumber_hex read text letter digits stop, if_neg (Nat.not_lt.mpr short)]
    exact ⟨_, rfl, rfl, lexHexadecimal_eq ds⟩
  | floating lit => cases integer

/-- A number with a point or an exponent. -/
structure FloatRun (run rest : List LexChar) : Prop where
  scanned : Scanned run
  digit : scisdigit (run.headD 0)
  start : ¬ StartsOctal run
  marked : ∃ c ∈ run, mark c ≠ 0
  ends : ¬ Continues (rest.headD 0)

theorem FloatRun.readNumber (read : List LexChar → F) {run : List LexChar}
    (floats : FloatRun run rest)
    (text : L.text = run ++ rest) :
    ∃ L', L.readNumber read = .ok (TK_FLOAT, L') ∧ L'.text = rest ∧ L'.fvalue = read run := by
  obtain ⟨scanned, digit, start, marked, ends⟩ := floats
  cases scanned with
  | nil => exact absurd digit (by decide)
  | point tail =>
    have point : ¬ scisdigit (_LC '.') = true := by decide
    exact absurd digit point
  | exponent letter =>
    rw [List.headD_cons, (not_digit_of_exponent letter).1] at digit
    cases digit
  | @digit d s digit tail =>
    have some : s ≠ [] := by
      rintro rfl
      obtain ⟨c, mem, marked⟩ := marked
      rw [List.mem_singleton.mp mem] at marked
      exact marked (mark_digit digit)
    obtain ⟨e, s, rfl⟩ := List.exists_cons_of_ne_nil some
    have unread : L.text = d :: (e :: s ++ rest) := text
    have hex : ¬ (d = _LC '0' ∧ toupper ((e :: s ++ rest).headD 0) = _LC 'X') := by
      rintro ⟨-, x⟩
      exact NumberLiteral.not_x_of_floating tail.head x
    obtain ⟨type', scan, float, -⟩ := scanNumber_eq tail .TINT
      (L := ({ L with longstr := [] }.past (e :: s ++ rest) 1 0 [d] : LVLexer F)) rfl ends
    have behind : ∃ c ∈ e :: s, mark c ≠ 0 := by
      obtain ⟨c, mem, marked⟩ := marked
      rcases List.mem_cons.mp mem with rfl | mem
      · exact absurd (mark_digit digit) marked
      · exact ⟨c, mem, marked⟩
    rw [readNumber_scan unread start hex, scan, past_past]
    rcases float behind with rfl | rfl
    · exact ⟨_, rfl, rfl, rfl⟩
    · exact ⟨_, rfl, rfl, rfl⟩

theorem takeWhile_split (p : LexChar → Bool) (s : List LexChar) (zero : p 0 = false) :
    ∃ ds rest, s = ds ++ rest ∧ (∀ c ∈ ds, p c) ∧ p (rest.headD 0) = false := by
  refine ⟨s.takeWhile p, s.dropWhile p, List.takeWhile_append_dropWhile.symm,
    fun c mem => List.mem_takeWhile_imp mem, ?_⟩
  cases left : s.dropWhile p with
  | nil => exact zero
  | cons c rest =>
    have first := List.head?_dropWhile_not p s
    rw [left] at first
    exact first

/-- The texts that are read without an error. -/
theorem readNumber_cases {t : Int} {L' : LVLexer F} (digit : scisdigit L.cur)
    (ran : L.readNumber read = .ok (t, L')) :
    (∃ x rest, toupper x = _LC 'X' ∧ isxdigit (rest.headD 0) = false ∧
        L.text = _LC '0' :: x :: rest) ∨
      (∃ n k rest, NumberLiteral.WellFormed n ∧ n.integer = some k ∧ Ends rest n ∧
        L.text = n.text ++ rest) ∨
      ∃ run rest, FloatRun run rest ∧ L.text = run ++ rest := by
  cases text : L.text with
  | nil =>
    rw [cur, text] at digit
    exact absurd digit (by decide)
  | cons d r =>
    rw [cur_cons text] at digit
    by_cases start : StartsOctal (d :: r)
    · obtain ⟨zero, octal⟩ := start
      obtain rfl : d = _LC '0' := zero
      obtain ⟨ds, rest, rfl, digits, stop⟩ := takeWhile_split scisodigit r (by decide)
      have some : ds ≠ [] := by
        rintro rfl
        rw [List.tail_cons, List.nil_append, stop] at octal
        cases octal
      rw [readNumber_octal text some digits stop] at ran
      split at ran
      · cases ran
      · rename_i ends
        exact .inr (.inl ⟨.octal ds, _, rest, ⟨some, digits⟩, rfl, by simpa [Ends] using ends, rfl⟩)
    by_cases hex : d = _LC '0' ∧ toupper (r.headD 0) = _LC 'X'
    · obtain ⟨rfl, letter⟩ := hex
      cases r with
      | nil =>
        have none : toupper 0 ≠ _LC 'X' := by decide
        exact absurd letter none
      | cons x r =>
        obtain ⟨ds, rest, rfl, digits, stop⟩ := takeWhile_split isxdigit r (by decide)
        by_cases none : ds = []
        · subst none
          exact .inl ⟨x, rest, letter, stop, rfl⟩
        · rw [readNumber_hex read text letter digits stop] at ran
          split at ran
          · cases ran
          · rename_i short
            exact .inr (.inl ⟨.hexadecimal x ds, _, rest, ⟨letter, none, digits⟩, rfl,
              ⟨Nat.not_lt.mp short, stop⟩, rfl⟩)
    · rw [readNumber_scan text start hex] at ran
      cases scan : ({ L with longstr := [] }.past r 1 0 [d]).scanNumber .TINT with
      | error fault =>
        rw [scan] at ran
        cases ran
      | ok result =>
        obtain ⟨s, scanned, split, ends⟩ := scanned_of_ok scan
        rw [text_past] at split
        subst split
        by_cases marked : ∃ c ∈ s, mark c ≠ 0
        · obtain ⟨c, mem, marked⟩ := marked
          have start' : ¬ StartsOctal (d :: s) := by
            rintro ⟨zero, octal⟩
            cases s with
            | nil => cases mem
            | cons e s => exact start ⟨zero, octal⟩
          exact .inr (.inr ⟨d :: s, _, ⟨.digit digit scanned, digit, start',
            ⟨c, List.mem_cons_of_mem d mem, marked⟩, ends⟩, rfl⟩)
        · have digits : Digits s := scanned.digits_of_mark_zero fun c mem => by
            by_contra one
            exact marked ⟨c, mem, one⟩
          have start' : ¬ StartsOctal (d :: s) := by
            rintro ⟨zero, octal⟩
            cases s with
            | nil =>
              have none : ¬ scisodigit 0 = true := by decide
              exact none octal
            | cons e s => exact start ⟨zero, octal⟩
          refine .inr (.inl ⟨.decimal (d :: s), _, _,
            ⟨by simp, List.forall_mem_cons.mpr ⟨digit, digits⟩, start'⟩, rfl, ⟨ends, ?_⟩, rfl⟩)
          intro single letter
          obtain ⟨rfl, rfl⟩ := List.cons.inj single
          exact hex ⟨rfl, letter⟩

/-! ## Literals that are read exactly -/

section exact

variable {lvfloat : Rounding.Format} {L : LVLexer (WithTop ℚ)}

/-- The token of a literal, with the number that the literal denotes. -/
def Denotes (lvfloat : Rounding.Format) (t : Int) (L' : LVLexer (WithTop ℚ)) (n : NumberLiteral) :
    Prop :=
  (∀ k ∈ n.integer, t = TK_INTEGER ∧ L'.nvalue.toInt = k) ∧
    ∀ lit, n = .floating lit → t = TK_FLOAT ∧ L'.fvalue = lvfloat.round lit.value

/-- What is read without an error is one literal, and is denoted by the token. -/
def Exact (lvfloat : Rounding.Format) (L : LVLexer (WithTop ℚ)) : Prop :=
  ∀ t L', L.readNumber (strtod lvfloat) = .ok (t, L') →
    ∃ n : NumberLiteral, n.WellFormed ∧ L.text = n.text ++ L'.text ∧ Denotes lvfloat t L' n

/-- The texts that start with something else than what is read. -/
inductive Misread (lvfloat : Rounding.Format) (text : List LexChar) : Prop
  /-- `0x` without digits. -/
  | noDigits (x : LexChar) (rest : List LexChar) (letter : toupper x = _LC 'X')
      (none : isxdigit (rest.headD 0) = false) (source : text = _LC '0' :: x :: rest)
  /-- An integer that is too large. -/
  | large (n : NumberLiteral) (k : Nat) (rest : List LexChar) (wellFormed : n.WellFormed)
      (integer : n.integer = some k) (large : 2 ^ 63 ≤ k) (ends : Ends rest n)
      (source : text = n.text ++ rest)
  /-- A second point or exponent, or a point behind an exponent. -/
  | marks (run rest : List LexChar) (floats : FloatRun run rest)
      (marks : ¬ run.Pairwise Follows) (source : text = run ++ rest)
  /-- A floating literal whose nearest `double` has another nearest `LVFloat`. -/
  | rounded (lit : Floating) (rest : List LexChar)
      (wellFormed : (NumberLiteral.floating lit).WellFormed) (ends : Ends rest (.floating lit))
      (twice : lvfloat.convert (Rounding.binary64.round lit.value) ≠ lvfloat.round lit.value)
      (source : text = lit.text ++ rest)

theorem floatRun_text {lit : Floating} (wellFormed : (NumberLiteral.floating lit).WellFormed)
    (ends : Ends rest (.floating lit)) : FloatRun lit.text rest := by
  obtain ⟨wellFormed, start⟩ := wellFormed
  refine ⟨scanned_text wellFormed, ?_, start, marked_text wellFormed, ends⟩
  have some := wellFormed.some
  have digits := wellFormed.whole
  rw [Floating.text]
  cases whole : lit.whole with
  | nil => exact absurd whole some
  | cons d ds =>
    rw [whole] at digits
    exact digits d List.mem_cons_self

theorem Misread.not_exact (misread : Misread lvfloat L.text) : ¬ Exact lvfloat L := by
  intro exact
  cases misread with
  | noDigits x rest letter none source =>
    have unread : L.text = _LC '0' :: x :: ([] ++ rest) := source
    have ran := readNumber_hex (strtod lvfloat) unread letter (by simp) none
    obtain ⟨n, wellFormed, text, -⟩ := exact _ _ ran
    have same : [_LC '0', x] = n.text := List.append_cancel_right (source.symm.trans text)
    have classified := NumberLiteral.classify_text wellFormed
    have octal : ¬ StartsOctal [_LC '0', x] := by
      rintro ⟨-, octal⟩
      have noDigit : ∀ x : LexChar, toupper x = _LC 'X' → ¬ scisodigit x = true :=
        fun x => forall_char (by decide +kernel) x
      exact noDigit x letter octal
    have x' : toupper (([_LC '0', x] : List LexChar).tail.headD 0) = _LC 'X' := letter
    rw [← same, NumberLiteral.classify, if_neg octal, if_pos x'] at classified
    rw [← classified] at wellFormed
    exact wellFormed.2.1 rfl
  | large n k rest wellFormed integer large ends source =>
    obtain ⟨L', ran, rfl, value⟩ := readNumber_integer (strtod lvfloat) wellFormed integer
      ends source
    obtain ⟨n', wellFormed', text, denotes, -⟩ := exact _ _ ran
    obtain rfl := NumberLiteral.eq_of_text wellFormed wellFormed'
      (List.append_cancel_right (source.symm.trans text))
    have exactly := (denotes k integer).2
    rw [value] at exactly
    have := (toInt_ofNat_iff k).mp exactly
    omega
  | marks run rest floats marks source =>
    obtain ⟨L', ran, rfl, -⟩ := floats.readNumber (strtod lvfloat) source
    obtain ⟨n, wellFormed, text, denotes, -⟩ := exact _ _ ran
    obtain rfl : run = n.text := List.append_cancel_right (source.symm.trans text)
    cases n with
    | floating lit => exact marks (pairwise_text wellFormed.1)
    | decimal ds => cases (denotes _ rfl).1
    | octal ds => cases (denotes _ rfl).1
    | hexadecimal x ds => cases (denotes _ rfl).1
  | rounded lit rest wellFormed ends twice source =>
    obtain ⟨L', ran, rfl, value⟩ := (floatRun_text wellFormed ends).readNumber
      (strtod lvfloat) source
    obtain ⟨n, wellFormed', text, -, denotes⟩ := exact _ _ ran
    have same : NumberLiteral.floating lit = n := NumberLiteral.eq_of_text wellFormed wellFormed'
      (List.append_cancel_right (source.symm.trans text))
    have exactly := (denotes lit same.symm).2
    rw [value, strtod, subject_text wellFormed.1] at exactly
    exact twice exactly

theorem exact_of_not_misread (digit : scisdigit L.cur) (not : ¬ Misread lvfloat L.text) :
    Exact lvfloat L := by
  intro t L' ran
  rcases readNumber_cases digit ran with ⟨x, rest, letter, none, source⟩ |
    ⟨n, k, rest, wellFormed, integer, ends, source⟩ | ⟨run, rest, floats, source⟩
  · exact absurd (.noDigits x rest letter none source) not
  · have small : k < 2 ^ 63 := by
      by_contra large
      exact not (.large n k rest wellFormed integer (Nat.not_lt.mp large) ends source)
    obtain ⟨L₁, ran', rfl, value⟩ := readNumber_integer (strtod lvfloat) wellFormed integer
      ends source
    obtain ⟨rfl, rfl⟩ := Prod.mk.inj (Except.ok.inj (ran'.symm.trans ran))
    refine ⟨n, wellFormed, source, fun k' mem => ⟨rfl, ?_⟩, ?_⟩
    · obtain rfl : k = k' := Option.some.inj (integer.symm.trans mem)
      rw [value]
      exact (toInt_ofNat_iff k).mpr small
    · rintro lit rfl
      cases integer
  · have pairwise : run.Pairwise Follows := by
      by_contra marks
      exact not (.marks run rest floats marks source)
    obtain ⟨lit, wellFormed, rfl⟩ := exists_floating floats.scanned floats.digit pairwise floats.marked
    have once : lvfloat.convert (Rounding.binary64.round lit.value) = lvfloat.round lit.value := by
      by_contra twice
      exact not (.rounded lit rest ⟨wellFormed, floats.start⟩ floats.ends twice source)
    obtain ⟨L₁, ran', rfl, value⟩ := floats.readNumber (strtod lvfloat) source
    obtain ⟨rfl, rfl⟩ := Prod.mk.inj (Except.ok.inj (ran'.symm.trans ran))
    refine ⟨.floating lit, ⟨wellFormed, floats.start⟩, source, by simp [NumberLiteral.integer], ?_⟩
    rintro _ ⟨⟩
    rw [value, strtod, subject_text wellFormed]
    exact ⟨rfl, once⟩

/-- Numbers are read exactly where the text is none of those. -/
theorem readNumber_exact_iff (lvfloat : Rounding.Format) (L : LVLexer (WithTop ℚ))
    (digit : scisdigit L.cur) : Exact lvfloat L ↔ ¬ Misread lvfloat L.text :=
  ⟨fun exact misread => misread.not_exact exact, exact_of_not_misread digit⟩

/-- A lexer before a number. -/
def beforeNumber (text : List LexChar) : LVLexer (WithTop ℚ) := ⟨text, 0, -1, 1, 1, 0, [], 0, ⊤, []⟩

/-- `0x1f;` -/
theorem readNumber_exact_iff_hex :
    Exact Rounding.binary32 (beforeNumber [48, 120, 49, 102, 59]) ↔
      ¬ Misread Rounding.binary32 [48, 120, 49, 102, 59] :=
  readNumber_exact_iff _ (beforeNumber [48, 120, 49, 102, 59]) (by decide)

/-- 2 ^ 64 + 1 is read as 1. -/
theorem not_exact_large : ¬ Exact Rounding.binary32 (beforeNumber
    [49, 56, 52, 52, 54, 55, 52, 52, 48, 55, 51, 55, 48, 57, 53, 53, 49, 54, 49, 55, 59]) := by
  refine Misread.not_exact (.large (.decimal
    [49, 56, 52, 52, 54, 55, 52, 52, 48, 55, 51, 55, 48, 57, 53, 53, 49, 54, 49, 55])
    18446744073709551617 [59] ⟨by simp, ?_, ?_⟩ (by decide +kernel) (by decide)
    ⟨by decide, by simp⟩ rfl)
  · unfold Digits
    decide +kernel
  · decide

/-- Where `LVFloat` is a `double`, no number is rounded twice. -/
theorem strtod_binary64 {lit : Floating} (wellFormed : lit.WellFormed) :
    strtod Rounding.binary64 lit.text = Rounding.binary64.round lit.value := by
  rw [strtod, subject_text wellFormed]
  exact Rounding.Format.convert_round lit.value_nonneg

end exact

end Lavril.LVLexer
