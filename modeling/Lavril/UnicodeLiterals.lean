import Lavril.StringLiterals
import Lavril.Utf8
import Mathlib.Data.List.Induction

/-!
# Unicode escapes

Both `\u` and `\U` read up to eight digits: the limit is chosen by a variable that holds the
backslash.
-/

namespace Lavril.LVLexer

variable {F : Type} {strtod : List LexChar → F} {L : LVLexer F} {letter : LexChar}
  {ds t rest : List LexChar}

/-- What `AddUTF8` stores. -/
def stored (v : Nat) : List LexChar := if v < 0x110000 then Utf8.encode v else []

theorem or_0x80 {x : Nat} (lt : x < 0x40) : x ||| 0x80 = x + 0x80 := by
  rw [Nat.lor_comm, ← Nat.two_pow_add_eq_or_of_lt (i := 6) lt 2, Nat.add_comm]

theorem or_0xC0 {x : Nat} (lt : x < 0x20) : x ||| 0xC0 = x + 0xC0 := by
  rw [Nat.lor_comm, ← Nat.two_pow_add_eq_or_of_lt (i := 5) lt 6, Nat.add_comm]

theorem or_0xE0 {x : Nat} (lt : x < 0x10) : x ||| 0xE0 = x + 0xE0 := by
  rw [Nat.lor_comm, ← Nat.two_pow_add_eq_or_of_lt (i := 4) lt 14, Nat.add_comm]

theorem or_0xF0 {x : Nat} (lt : x < 0x08) : x ||| 0xF0 = x + 0xF0 := by
  rw [Nat.lor_comm, ← Nat.two_pow_add_eq_or_of_lt (i := 3) lt 30, Nat.add_comm]

theorem addUTF8_past (n v : Nat) :
    (L.past rest n 0 []).addUTF8 v = L.past rest n 0 (stored v) := by
  have low : ∀ x : Nat, x &&& 0x3F = x % 0x40 := fun x => Nat.and_two_pow_sub_one_eq_mod x 6
  have second := fun x : Nat => or_0x80 (Nat.mod_lt x (show 0 < 0x40 by decide))
  simp only [addUTF8, stored, Utf8.encode, low, second, Nat.shiftRight_eq_div_pow, append_past]
  by_cases one : v < 0x80
  · rw [if_pos one, if_pos (by omega), if_pos (by omega)]
    rfl
  rw [if_neg one]
  by_cases two : v < 0x800
  · have small : v / 2 ^ 6 < 0x20 := by omega
    rw [if_pos two, if_pos (by omega), if_neg (by omega), if_pos (by omega), or_0xC0 small,
      Nat.mod_eq_of_lt (show v / 64 < 0x20 from small)]
    rfl
  rw [if_neg two]
  by_cases three : v < 0x10000
  · have small : v / 2 ^ 12 < 0x10 := by omega
    rw [if_pos three, if_pos (by omega), if_neg (by omega), if_neg (by omega), if_pos (by omega),
      or_0xE0 small, Nat.mod_eq_of_lt (show v / 4096 < 0x10 from small)]
    rfl
  rw [if_neg three]
  by_cases four : v < 0x110000
  · have small : v / 2 ^ 18 < 0x08 := by omega
    rw [if_pos four, if_pos four, if_neg (by omega), if_neg (by omega), if_neg (by omega),
      or_0xF0 small, Nat.mod_eq_of_lt (show v / 262144 < 0x08 from small)]
    rfl
  · rw [if_neg four, if_neg four]

/-- The digits are read up to the limit or to what is none. -/
theorem hexDigits_eq {maxdigits : Nat} (hex : ∀ d ∈ ds, isxdigit d) (le : ds.length ≤ maxdigits)
    (ends : ds.length = maxdigits ∨ isxdigit (rest.headD 0) = false) (text : L.text = ds ++ rest) :
    hexDigits maxdigits L = (ds, L.past rest ds.length 0 []) := by
  induction ds generalizing L maxdigits with
  | nil =>
    have same : L.past rest 0 0 [] = L := by
      cases L
      simp_all [past]
    cases maxdigits with
    | zero => exact congrArg _ same.symm
    | succ maxdigits =>
      have stop : isxdigit L.cur = false := by
        rw [cur, text]
        exact ends.resolve_left (by simp)
      simp only [hexDigits, stop, Bool.false_eq_true, if_false]
      exact congrArg _ same.symm
  | cons d ds ih =>
    obtain ⟨maxdigits, rfl⟩ : ∃ n, maxdigits = n + 1 :=
      ⟨maxdigits - 1, by simp only [List.length_cons] at le; omega⟩
    have unread : L.text = d :: (ds ++ rest) := text
    have first := cur_cons unread
    have digit := hex d List.mem_cons_self
    have tail : hexDigits maxdigits (L.past (ds ++ rest) 1 0 []) = _ := ih
      (fun x mem => hex x (List.mem_cons_of_mem d mem)) (by simpa using le) (by simpa using ends) rfl
    simp only [hexDigits, first, digit, if_true, next_eq_past unread, tail, past_past]
    simp [Nat.add_comm]

theorem isxdigit_of_mem {d : LexChar} (hex : isxdigit d = true) : d ≠ 0 ∧ d ≠ _LC '"' := by
  constructor <;> (rintro rfl; exact absurd hex (by decide))

/-- A unicode escape in a literal that is not verbatim. -/
theorem readBody_unicode {fuel : Nat} (unicode : letter = _LC 'u' ∨ letter = _LC 'U')
    (some : ds ≠ []) (hex : ∀ d ∈ ds, isxdigit d) (le : ds.length ≤ 8)
    (ends : ds.length = 8 ∨ isxdigit (rest.headD 0) = false)
    (text : L.text = _LC '\\' :: letter :: (ds ++ rest)) :
    L.readBody (_LC '"') false (fuel + 1) =
      (L.past rest (2 + ds.length) 0 (stored (scstrtoul ds))).readBody (_LC '"') false fuel := by
  have first := cur_cons text
  have next := next_eq_past text
  set L₁ := L.past (letter :: (ds ++ rest)) 1 0 [] with atLetter
  have second : L₁.next = L₁.past (ds ++ rest) 1 0 [] := next_eq_past rfl
  have digit : isxdigit L₁.next.cur = true := by
    rw [second]
    cases ds with
    | nil => exact absurd rfl some
    | cons d ds => exact hex d List.mem_cons_self
  have digits := hexDigits_eq (L := L₁.past (ds ++ rest) 1 0 []) hex le ends rfl
  have processed : L₁.processStringHexEscape 8 = .ok (ds, L₁.past rest (1 + ds.length) 0 []) := by
    rw [processStringHexEscape, if_pos digit, second, digits, past_past]
    rfl
  have limit : (if _LC '\\' = _LC 'u' then 4 else 8) = 8 := by decide
  have read : L₁.readEscape (_LC '\\') = .ok (L₁.past rest (1 + ds.length) 0 (stored (scstrtoul ds))) := by
    have at_ : L₁.cur = letter := rfl
    have lower : Char.ofNat (_LC 'u').toNat = 'u' := by decide
    have upper : Char.ofNat (_LC 'U').toNat = 'U' := by decide
    rcases unicode with rfl | rfl
    · simp only [readEscape, at_, lower, limit, processed, bind, Except.bind, addUTF8_past]
    · simp only [readEscape, at_, upper, limit, processed, bind, Except.bind, addUTF8_past]
  refine readBody_of_readChar (by rw [first]; decide) ?_
  have plain : ¬ _LC '\\' = 0 ∧ ¬ _LC '\\' = _LC '\n' := by decide
  simp only [readChar, first, if_neg plain.1, if_neg plain.2, if_true, next, Bool.false_eq_true,
    if_false, read]
  rw [atLetter, past_past]
  simp only [List.nil_append, Int.add_zero]
  congr 2
  omega

theorem hexValue_lt {d : LexChar} (hex : isxdigit d = true) : hexValue d < 16 := by
  revert hex
  exact forall_char (by decide +kernel) d

theorem scstrtoul_lt (hex : ∀ d ∈ ds, isxdigit d) : scstrtoul ds < 16 ^ ds.length := by
  induction ds using List.reverseRecOn with
  | nil => simp [scstrtoul]
  | append_singleton ds d ih =>
    have before := ih fun x mem => hex x (List.mem_append_left _ mem)
    have digit := hexValue_lt (hex d (by simp))
    simp only [scstrtoul, List.foldl_append, List.foldl_cons, List.foldl_nil, List.length_append,
      List.length_cons, List.length_nil, Nat.pow_succ] at before ⊢
    omega

/-! ## The rest of the literal -/

/-- Characters that stand for themselves. -/
def Plain (t : List LexChar) : Prop := ∀ c ∈ t, c ≠ _LC '"' ∧ c ≠ _LC '\\' ∧ c ≠ _LC '\n'

theorem turns_plain (plain : Plain t) (noNul : 0 ∉ t) :
    Turns F (_LC '"') false t.length t t 0 := by
  have turns : ∀ c ∈ t, Turns F (_LC '"') false 1 [c] [c] 0 := by
    intro c mem
    obtain ⟨quote, backslash, newline⟩ := plain c mem
    exact turn_plain (fun zero => noNul (zero ▸ mem)) quote newline backslash
  simpa using Turns.flatMap turns

/-- A literal that starts with a unicode escape, whose digits are `ds`. -/
structure Escaped (L : LVLexer F) (letter : LexChar) (ds t rest : List LexChar) : Prop where
  unicode : letter = _LC 'u' ∨ letter = _LC 'U'
  some : ds ≠ []
  hex : ∀ d ∈ ds, isxdigit d
  le : ds.length ≤ 8
  ends : ds.length = 8 ∨ isxdigit ((t ++ _LC '"' :: rest).headD 0) = false
  plain : Plain t
  source : L.text = _LC '"' :: _LC '\\' :: letter :: (ds ++ (t ++ _LC '"' :: rest))

theorem Escaped.readBody (escaped : Escaped L letter ds t rest) (fuel : Nat) (L' : LVLexer F)
    (text : L'.text = _LC '\\' :: letter :: (ds ++ (t ++ _LC '"' :: rest))) :
    L'.readBody (_LC '"') false (fuel + 1) =
      (L'.past (t ++ _LC '"' :: rest) (2 + ds.length) 0 (stored (scstrtoul ds))).readBody (_LC '"')
        false fuel :=
  readBody_unicode escaped.unicode escaped.some escaped.hex escaped.le escaped.ends text

theorem Escaped.lexes (strtod : List LexChar → F) (escaped : Escaped L letter ds t rest) (noNul : 0 ∉ t) :
    LexesTo L (stored (scstrtoul ds) ++ t) rest 0 (L.lex strtod) := by
  obtain ⟨fuel, enough⟩ : ∃ fuel, (_LC '\\' :: letter :: (ds ++ (t ++ _LC '"' :: rest))).length + 1 =
      fuel + 1 + t.length + 1 :=
    ⟨ds.length + rest.length + 2, by
      simp only [List.length_cons, List.length_append]
      omega⟩
  have some : (_LC '\\' :: letter :: (ds ++ (t ++ _LC '"' :: rest))).headD 0 ≠ 0 := by
    have backslash : _LC '\\' ≠ 0 := by decide
    exact backslash
  have total : 1 + (2 + ds.length + (t.length + 1)) = ds.length + t.length + 4 := by omega
  have source : L.startToken.text = _ := escaped.source
  rw [lex_quote escaped.source]
  refine lexString_of_readBody (L := L.startToken) (n := ds.length + t.length + 4) source some ?_
  rw [enough, escaped.readBody _ _ rfl, turns_plain escaped.plain noNul (fuel + 1) _ _ rfl,
    readBody_close rfl (by simp), past_past, past_past, past_past, total]
  simp

theorem Escaped.fails (escaped : Escaped L letter ds t rest) (nul : 0 ∈ t) {v : List LexChar}
    {lines : Int} : ¬ LexesTo L v rest lines (L.lex strtod) := by
  intro lexed
  have source : L.text = _LC '"' :: ((_LC '\\' :: letter :: (ds ++ t)) ++ _LC '"' :: rest) := by
    rw [escaped.source]
    simp
  exact lexed.noNul source (by simp [nul])

/-- The digits at the start of a text that an escape of four digits takes. -/
theorem exists_absorbed (rest : List LexChar) (n : Nat) (t : List LexChar) :
    ∃ hs r, t = hs ++ r ∧ (∀ d ∈ hs, isxdigit d) ∧ hs.length ≤ n ∧
      (hs.length = n ∨ isxdigit ((r ++ _LC '"' :: rest).headD 0) = false) := by
  induction n generalizing t with
  | zero => exact ⟨[], t, rfl, by simp, Nat.le_refl 0, .inl rfl⟩
  | succ n ih =>
    cases t with
    | nil =>
      have quote : isxdigit (_LC '"') = false := by decide
      exact ⟨[], [], rfl, by simp, Nat.zero_le _, .inr quote⟩
    | cons c t =>
      by_cases hex : isxdigit c = true
      · obtain ⟨hs, r, split, digits, le, ends⟩ := ih t
        refine ⟨c :: hs, r, by rw [split]; rfl, ?_, by simpa using le, by simpa using ends⟩
        intro d mem
        rcases List.mem_cons.mp mem with rfl | mem
        · exact hex
        · exact digits d mem
      · exact ⟨[], c :: t, rfl, by simp, Nat.zero_le _, .inr (by simpa using hex)⟩

theorem stored_eq {v : Nat} (lt : v < 0x110000) : stored v = Utf8.encode v := if_pos lt

/-- A longer escape stores something else. -/
theorem stored_ne {v v' : Nat} {hs : List LexChar} (some : hs ≠ []) :
    stored v ≠ Utf8.encode v' ++ hs := by
  intro eq
  unfold stored at eq
  split at eq
  · exact some (Utf8.eq_nil_of_encode eq)
  · exact Utf8.encode_ne_nil v' (List.append_eq_nil_iff.mp eq.symm).1

/-- The four digits after `\u` and the eight after `\U`, for a code point. -/
def CodePoint (letter : LexChar) (ds : List LexChar) : Prop :=
  (∀ d ∈ ds, isxdigit d) ∧ (letter = _LC 'u' ∧ ds.length = 4 ∨
    letter = _LC 'U' ∧ ds.length = 8 ∧ scstrtoul ds < 0x110000)

theorem lex_unicode_iff (strtod : List LexChar → F) (L : LVLexer F) (letter : LexChar)
    (ds t rest : List LexChar) (point : CodePoint letter ds) (plain : Plain t)
    (source : L.text = _LC '"' :: _LC '\\' :: letter :: (ds ++ (t ++ _LC '"' :: rest))) :
    LexesTo L (Utf8.encode (scstrtoul ds) ++ t) rest 0 (L.lex strtod) ↔
      0 ∉ t ∧ ¬ (letter = _LC 'u' ∧ isxdigit (t.headD 0)) := by
  obtain ⟨hex, ⟨rfl, four⟩ | ⟨rfl, eight, lt⟩⟩ := point
  · obtain ⟨hs, r, rfl, digits, le, ends⟩ := exists_absorbed rest 4 t
    have nonzero : 0 ∉ hs := fun mem => (isxdigit_of_mem (digits 0 mem)).1 rfl
    have both : ∀ d ∈ ds ++ hs, isxdigit d := by
      intro d mem
      exact (List.mem_append.mp mem).elim (hex d) (digits d)
    have some : ds ++ hs ≠ [] := by
      intro none
      simp [(List.append_eq_nil_iff.mp none).1] at four
    have escaped : Escaped L (_LC 'u') (ds ++ hs) r rest := by
      refine ⟨.inl rfl, some, both, ?_, ?_, ?_, ?_⟩
      · rw [List.length_append]
        omega
      · rw [List.length_append]
        exact ends.imp (fun all => by omega) id
      · exact fun c mem => plain c (List.mem_append_right _ mem)
      · rw [source]
        simp
    have lt : scstrtoul ds < 0x110000 := by
      have := scstrtoul_lt hex
      rw [four] at this
      omega
    by_cases none : hs = []
    · subst none
      have stops : ¬ isxdigit (r.headD 0) := by
        cases r with
        | nil => decide
        | cons c r => simpa using ends
      rw [List.append_nil] at escaped
      constructor
      · intro lexed
        exact ⟨fun nul => escaped.fails nul lexed, fun absorbed => stops absorbed.2⟩
      · rintro ⟨noNul, -⟩
        have lexed := escaped.lexes strtod noNul
        rwa [stored_eq lt] at lexed
    · have absorbed : isxdigit ((hs ++ r).headD 0) = true := by
        cases hs with
        | nil => exact absurd rfl none
        | cons d hs => exact digits d List.mem_cons_self
      refine iff_of_false (fun lexed => ?_) (fun holds => holds.2 ⟨rfl, absorbed⟩)
      by_cases nul : 0 ∈ r
      · exact escaped.fails nul lexed
      · have value := lexed.unique (escaped.lexes strtod nul)
        rw [← List.append_assoc] at value
        exact stored_ne none (List.append_cancel_right value).symm
  · have escaped : Escaped L (_LC 'U') ds t rest := by
      refine ⟨.inr rfl, ?_, hex, by omega, .inl eight, plain, source⟩
      rintro rfl
      cases eight
    have upper : ¬ _LC 'U' = _LC 'u' := by decide
    constructor
    · intro lexed
      exact ⟨fun nul => escaped.fails nul lexed, fun absorbed => upper absorbed.1⟩
    · rintro ⟨noNul, -⟩
      have lexed := escaped.lexes strtod noNul
      rwa [stored_eq lt] at lexed

/-- `"\u0041 b"` -/
theorem lex_unicode_iff_space :
    let text := [34, 92, 117, 48, 48, 52, 49, 32, 98, 34]
    LexesTo (start text) (Utf8.encode (scstrtoul [48, 48, 52, 49]) ++ [32, 98]) [] 0
        ((start text).lex fun _ => ()) ↔
      0 ∉ ([32, 98] : List LexChar) ∧
        ¬ ((117 : LexChar) = _LC 'u' ∧ isxdigit (([32, 98] : List LexChar).headD 0)) :=
  lex_unicode_iff _ _ 117 [48, 48, 52, 49] [32, 98] []
    ⟨by decide +kernel, .inl ⟨by decide, rfl⟩⟩ (by unfold Plain; decide +kernel) rfl

/-- `"\u0041b"` is one character, U+041B. -/
theorem not_lex_unicode : ¬ LexesTo (start [34, 92, 117, 48, 48, 52, 49, 98, 34])
    (Utf8.encode (scstrtoul [48, 48, 52, 49]) ++ [98]) [] 0
    ((start [34, 92, 117, 48, 48, 52, 49, 98, 34]).lex fun _ => ()) := by
  rintro ⟨L', ran, value, -⟩
  have stored : ((start [34, 92, 117, 48, 48, 52, 49, 98, 34]).lex fun _ => ()).toOption.map
      (fun result => result.2.stringValue) = some [208, 155] := by decide +kernel
  rw [ran] at stored
  have other := value.symm.trans (Option.some.inj stored)
  exact absurd other (by decide)

end Lavril.LVLexer
