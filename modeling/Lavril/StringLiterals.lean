import Lavril.Lexer
import Mathlib.Algebra.Ring.Int.Defs
import Mathlib.Algebra.Ring.Nat

/-!
# String literals

Between its quotes a literal is read in turns, each of which takes some characters of the
text, stores some and counts the lines it passes.
-/

namespace Lavril.LVLexer

variable {F : Type} {strtod : List LexChar → F} {L : LVLexer F} {ndelim c : LexChar}
  {verbatim : Bool} {rest : List LexChar}

/-- The lexer once `n` characters are read and `v` is stored, `lines` lines further down. -/
def past (L : LVLexer F) (rest : List LexChar) (n : Nat) (lines : Int) (v : List LexChar) :
    LVLexer F :=
  { L with
    text := rest
    longstr := L.longstr ++ v
    currentline := L.currentline + lines
    currentcolumn := L.currentcolumn + n }

@[simp] theorem text_past (n : Nat) (lines : Int) (v : List LexChar) :
    (L.past rest n lines v).text = rest := rfl

theorem past_past (r r' : List LexChar) (n n' : Nat) (k k' : Int) (v v' : List LexChar) :
    (L.past r n k v).past r' n' k' v' = L.past r' (n + n') (k + k') (v ++ v') := by
  simp only [past, List.append_assoc, Int.natCast_add, Int.add_assoc]

theorem append_past (n : Nat) (v : List LexChar) (c : LexChar) :
    (L.past rest n 0 v).append c = L.past rest n 0 (v ++ [c]) := by
  simp [append, past]

theorem cur_cons (text : L.text = c :: rest) : L.cur = c := by simp [cur, text]

theorem next_eq_past (text : L.text = c :: rest) : L.next = L.past rest 1 0 [] := by
  simp [next, past, text]

theorem append_next_eq_past (text : L.text = c :: rest) (d : LexChar) :
    (L.append d).next = L.past rest 1 0 [d] := by
  simp [append, next, past, text]

/-- `n` turns of `ReadString` read `w`, whatever follows it, and store `v`. -/
def Turns (F : Type) (ndelim : LexChar) (verbatim : Bool) (n : Nat) (w v : List LexChar)
    (lines : Int) : Prop :=
  ∀ (fuel : Nat) (L : LVLexer F) (rest : List LexChar), L.text = w ++ rest →
    L.readBody ndelim verbatim (fuel + n) =
      (L.past rest w.length lines v).readBody ndelim verbatim fuel

namespace Turns

theorem nil : Turns F ndelim verbatim 0 [] [] 0 := by
  intro fuel L rest text
  have same : L = L.past rest 0 0 [] := by
    cases L
    simp_all [past]
  exact congrArg (readBody ndelim verbatim fuel) same

theorem append {n n' : Nat} {w w' v v' : List LexChar} {k k' : Int}
    (first : Turns F ndelim verbatim n w v k) (second : Turns F ndelim verbatim n' w' v' k') :
    Turns F ndelim verbatim (n + n') (w ++ w') (v ++ v') (k + k') := by
  intro fuel L rest text
  rw [List.append_assoc] at text
  have rotate : fuel + (n + n') = fuel + n' + n := by omega
  rw [rotate, first _ L _ text, second fuel _ rest rfl, past_past, List.length_append]

theorem flatMap {n : LexChar → Nat} {w v : LexChar → List LexChar} {lines : LexChar → Int}
    {s : List LexChar} (each : ∀ c ∈ s, Turns F ndelim verbatim (n c) (w c) (v c) (lines c)) :
    Turns F ndelim verbatim (s.map n).sum (s.flatMap w) (s.flatMap v) (s.map lines).sum := by
  induction s with
  | nil => exact nil
  | cons c s ih =>
    simp only [List.map_cons, List.sum_cons, List.flatMap_cons]
    exact (each c List.mem_cons_self).append (ih fun d mem => each d (List.mem_cons_of_mem c mem))

theorem sum_le_length {n : LexChar → Nat} {w : LexChar → List LexChar} {s : List LexChar}
    (each : ∀ c ∈ s, n c ≤ (w c).length) : (s.map n).sum ≤ (s.flatMap w).length := by
  induction s with
  | nil => exact Nat.le_refl 0
  | cons c s ih =>
    have first := each c List.mem_cons_self
    have tail := ih fun d mem => each d (List.mem_cons_of_mem c mem)
    simp only [List.map_cons, List.sum_cons, List.flatMap_cons, List.length_append]
    omega

end Turns

theorem readBody_of_readChar {fuel : Nat} {L' : LVLexer F} (inside : L.cur ≠ ndelim)
    (read : L.readChar verbatim = .ok L') :
    L.readBody ndelim verbatim (fuel + 1) = L'.readBody ndelim verbatim fuel := by
  rw [readBody, if_pos inside, read]
  rfl

theorem readBody_close {fuel : Nat} (text : L.text = ndelim :: rest)
    (single : verbatim = true → rest.head? ≠ some (_LC '"')) :
    L.readBody ndelim verbatim (fuel + 1) = .ok (L.past rest 1 0 []) := by
  have next := next_eq_past text
  have not : ¬ (verbatim = true ∧ L.next.cur = _LC '"') := by
    rintro ⟨isVerbatim, quote⟩
    rw [next] at quote
    cases rest with
    | nil =>
      have zero : (0 : LexChar) = _LC '"' := quote
      exact absurd zero (by decide)
    | cons d rest => exact single isVerbatim (by simpa [cur, past] using quote)
  rw [readBody, if_neg (not_not.mpr (cur_cons text)), if_neg not, next]

theorem turn_plain (nonzero : c ≠ 0) (inside : c ≠ ndelim) (newline : c ≠ _LC '\n')
    (backslash : c ≠ _LC '\\') : Turns F ndelim verbatim 1 [c] [c] 0 := by
  intro fuel L rest text
  have cur := cur_cons text
  refine readBody_of_readChar (cur ▸ inside) ?_
  simp only [readChar, cur, if_neg nonzero, if_neg newline, if_neg backslash]
  exact congrArg Except.ok (append_next_eq_past text c)

/-- The string that the compiler makes of a literal. -/
def stringValue (L : LVLexer F) : List LexChar := L.svalue.take (L.longstr.length - 1)

/-- A string token of the given value has been read, with `rest` behind it. -/
def LexesTo (L : LVLexer F) (value rest : List LexChar) (lines : Int)
    (result : Except LexFault (Int × LVLexer F)) : Prop :=
  ∃ L', result = .ok (TK_STRING_LITERAL, L') ∧ L'.stringValue = value ∧ L'.text = rest ∧
    L'.currentline = L.currentline + lines

theorem lexString_of_readBody {n : Nat} {lines : Int} {value body : List LexChar}
    (text : L.text = _LC '"' :: body) (some : body.headD 0 ≠ 0)
    (read : ({ L with longstr := [] }.past body 1 0 []).readBody (_LC '"') verbatim
      (body.length + 1) = .ok ({ L with longstr := [] }.past rest n lines value)) :
    LexesTo L value rest lines (L.lexString (_LC '"') verbatim) := by
  have opened : ({ L with longstr := [] } : LVLexer F).next =
      { L with longstr := [] }.past body 1 0 [] := next_eq_past text
  have inside : ({ L with longstr := [] }.past body 1 0 [] : LVLexer F).cur ≠ 0 := some
  have quote : ¬ _LC '"' = _LC '\'' := by decide
  have found : TK_STRING_LITERAL ≠ -1 := by decide
  simp only [lexString, readString, opened, if_neg inside, text_past, read, if_neg quote, bind,
    Except.bind, if_pos found, returnToken]
  refine ⟨_, rfl, ?_, rfl, rfl⟩
  simp [stringValue, append, past]

/-- A literal that is read has a body that is read. -/
theorem readBody_of_lexString {body : List LexChar} {result : Int × LVLexer F}
    (text : L.text = _LC '"' :: body) (ran : L.lexString (_LC '"') verbatim = .ok result) :
    ∃ L', ({ L with longstr := [] }.past body 1 0 []).readBody (_LC '"') verbatim
      (body.length + 1) = .ok L' ∧ L'.text = result.2.text := by
  have opened : ({ L with longstr := [] } : LVLexer F).next =
      { L with longstr := [] }.past body 1 0 [] := next_eq_past text
  have quote : ¬ _LC '"' = _LC '\'' := by decide
  have found : TK_STRING_LITERAL ≠ -1 := by decide
  by_cases eob : ({ L with longstr := [] }.past body 1 0 [] : LVLexer F).cur = 0
  · simp [lexString, readString, opened, eob, bind, Except.bind] at ran
  · cases read : ({ L with longstr := [] }.past body 1 0 []).readBody (_LC '"') verbatim
        (body.length + 1) with
    | error fault => simp [lexString, readString, opened, eob, read, bind, Except.bind] at ran
    | ok L' =>
      simp only [lexString, readString, opened, if_neg eob, text_past, read, if_neg quote, bind,
        Except.bind, if_pos found, returnToken, Except.ok.injEq] at ran
      exact ⟨L', rfl, ran ▸ rfl⟩

theorem lexString_turns {n : Nat} {w v : List LexChar} {lines : Int}
    (turns : Turns F (_LC '"') verbatim n w v lines) (le : n ≤ w.length) (nonzero : w.head? ≠ some 0)
    (text : L.text = _LC '"' :: (w ++ _LC '"' :: rest))
    (single : verbatim = true → rest.head? ≠ some (_LC '"')) :
    LexesTo L v rest lines (L.lexString (_LC '"') verbatim) := by
  have some : (w ++ _LC '"' :: rest).headD 0 ≠ 0 := by
    cases w with
    | nil =>
      have quote : _LC '"' ≠ 0 := by decide
      exact quote
    | cons c w => simpa using nonzero
  obtain ⟨fuel, enough⟩ : ∃ fuel, (w ++ _LC '"' :: rest).length + 1 = fuel + 1 + n :=
    ⟨(w ++ _LC '"' :: rest).length - n, by
      simp only [List.length_append, List.length_cons]
      omega⟩
  refine lexString_of_readBody (n := 1 + (w.length + 1)) text some ?_
  rw [enough, turns (fuel + 1) _ _ rfl, readBody_close rfl single, past_past, past_past]
  simp

/-! ## What is read of a literal -/

theorem lexLoop_quote {fuel : Nat} (quote : L.cur = _LC '"') :
    L.lexLoop strtod (fuel + 1) = L.lexString (_LC '"') false := by
  have nonzero : ¬ _LC '"' = 0 := by decide
  have char : Char.ofNat (_LC '"').toNat = '"' := by decide
  simp only [lexLoop, quote, if_neg nonzero, char]

theorem lex_quote {body : List LexChar} (source : L.text = _LC '"' :: body) :
    L.lex strtod = L.startToken.lexString (_LC '"') false := by
  rw [lex, lexLoop_quote]
  exact cur_cons source

theorem LexesTo.unique {result : Except LexFault (Int × LVLexer F)} {v v' r r' : List LexChar}
    {k k' : Int} (first : LexesTo L v r k result) (second : LexesTo L v' r' k' result) : v = v' := by
  obtain ⟨L₁, ran, rfl, -⟩ := first
  obtain ⟨L₂, ran', rfl, -⟩ := second
  rw [(Prod.mk.inj (Except.ok.inj (ran.symm.trans ran'))).2]

/-- From the first lexer to the second, characters other than NUL are read. -/
def Consumes (L L' : LVLexer F) : Prop := ∃ w, L.text = w ++ L'.text ∧ 0 ∉ w

namespace Consumes

variable {L' L'' : LVLexer F}

theorem of_text (same : L.text = L'.text) : Consumes L L' := ⟨[], same, List.not_mem_nil⟩

theorem trans (first : Consumes L L') (second : Consumes L' L'') : Consumes L L'' := by
  obtain ⟨w, split, no⟩ := first
  obtain ⟨w', split', no'⟩ := second
  refine ⟨w ++ w', by rw [split, split', List.append_assoc], fun mem => ?_⟩
  exact (List.mem_append.mp mem).elim no no'

theorem next (nonzero : L.cur ≠ 0) : Consumes L L.next := by
  cases text : L.text with
  | nil => exact absurd (by simp [cur, text]) nonzero
  | cons c rest =>
    rw [cur_cons text] at nonzero
    exact ⟨[c], by simp [LVLexer.next, text], by simpa using Ne.symm nonzero⟩

theorem append_next (nonzero : L.cur ≠ 0) (c : LexChar) : Consumes L (L.append c).next :=
  (next nonzero).trans (of_text rfl)

theorem addUTF8 (v : Nat) : Consumes L (L.addUTF8 v) := by
  refine of_text ?_
  unfold LVLexer.addUTF8
  split
  · rfl
  · split
    · rfl
    · split
      · rfl
      · split <;> rfl

theorem hexDigits (maxdigits : Nat) (L : LVLexer F) :
    Consumes L (LVLexer.hexDigits maxdigits L).2 := by
  induction maxdigits generalizing L with
  | zero => exact of_text rfl
  | succ maxdigits ih =>
    rw [LVLexer.hexDigits]
    split
    · rename_i digit
      have nonzero : L.cur ≠ 0 := by
        intro zero
        rw [zero] at digit
        exact absurd digit (by decide)
      exact (next nonzero).trans (ih L.next)
    · exact of_text rfl

theorem processStringHexEscape {maxdigits : Nat} {dest : List LexChar} (nonzero : L.cur ≠ 0)
    (read : L.processStringHexEscape maxdigits = .ok (dest, L')) : Consumes L L' := by
  unfold LVLexer.processStringHexEscape at read
  split at read
  · obtain rfl : (LVLexer.hexDigits maxdigits L.next).2 = L' :=
      congrArg Prod.snd (Except.ok.inj read)
    exact (next nonzero).trans (hexDigits maxdigits L.next)
  · cases read

theorem readEscape {x : LexChar} (read : L.readEscape x = .ok L') : Consumes L L' := by
  have nonzero : L.cur ≠ 0 := by
    intro zero
    have char : Char.ofNat (0 : LexChar).toNat = '\x00' := by decide
    simp only [LVLexer.readEscape, zero, char] at read
    cases read
  unfold LVLexer.readEscape at read
  split at read
  · cases escaped : L.processStringHexEscape 2 with
    | error fault => simp [escaped, bind, Except.bind] at read
    | ok result =>
      simp only [escaped, bind, Except.bind, Except.ok.injEq] at read
      exact (processStringHexEscape nonzero escaped).trans (read ▸ of_text rfl)
  iterate 2
    cases escaped : L.processStringHexEscape (if x = _LC 'u' then 4 else 8) with
    | error fault => simp [escaped, bind, Except.bind] at read
    | ok result =>
      simp only [escaped, bind, Except.bind, Except.ok.injEq] at read
      exact (processStringHexEscape nonzero escaped).trans (read ▸ addUTF8 _)
  all_goals first
    | exact Except.ok.inj read ▸ append_next nonzero _
    | cases read

theorem readChar (read : L.readChar false = .ok L') : Consumes L L' := by
  simp only [LVLexer.readChar, Bool.false_eq_true, if_false] at read
  split at read
  · cases read
  · rename_i nonzero
    split at read
    · cases read
    · split at read
      · exact (next nonzero).trans (readEscape read)
      · exact Except.ok.inj read ▸ append_next nonzero _

theorem readBody {fuel : Nat} (read : L.readBody (_LC '"') false fuel = .ok L') :
    Consumes L L' := by
  induction fuel generalizing L with
  | zero => cases read
  | succ fuel ih =>
    rw [LVLexer.readBody] at read
    split at read
    · cases turn : L.readChar false with
      | error fault => simp [turn, bind, Except.bind] at read
      | ok L₁ =>
        simp only [turn, bind, Except.bind] at read
        exact (readChar turn).trans (ih read)
    · rename_i quote
      have nonzero : L.cur ≠ 0 := by
        rw [not_not.mp quote]
        decide
      simp only [Bool.false_eq_true, false_and, if_false, Except.ok.injEq] at read
      exact read ▸ next nonzero

end Consumes

/-- A literal that is read holds no NUL. -/
theorem LexesTo.noNul {body v : List LexChar} {k : Int} (lexed : LexesTo L v rest k (L.lex strtod))
    (source : L.text = _LC '"' :: (body ++ _LC '"' :: rest)) : 0 ∉ body := by
  obtain ⟨L', ran, -, text, -⟩ := lexed
  rw [lex_quote source] at ran
  have started : L.startToken.text = _LC '"' :: (body ++ _LC '"' :: rest) := source
  obtain ⟨L₁, read, left⟩ := readBody_of_lexString started ran
  obtain ⟨w, split, no⟩ := Consumes.readBody read
  rw [text_past, left, text, ← List.singleton_append, ← List.append_assoc] at split
  rw [← List.append_cancel_right split] at no
  exact fun mem => no (List.mem_append_left _ mem)

/-! ## Verbatim literals -/

/-- The characters of a verbatim literal that stand for one. -/
def doubled (c : LexChar) : List LexChar := if c = _LC '"' then [c, c] else [c]

def newlines (c : LexChar) : Int := if c = _LC '\n' then 1 else 0

theorem turn_doubled (nonzero : c ≠ 0) :
    Turns F (_LC '"') true 1 (doubled c) [c] (newlines c) := by
  by_cases quote : c = _LC '"'
  · subst quote
    intro fuel L rest text
    have first : L.text = _LC '"' :: _LC '"' :: rest := by simpa [doubled] using text
    have next := next_eq_past first
    have again : L.next.cur = _LC '"' := by rw [next]; rfl
    have second : (L.past (_LC '"' :: rest) 1 0 []).text = _LC '"' :: rest := rfl
    rw [readBody, if_neg (not_not.mpr (cur_cons first)), if_pos ⟨rfl, again⟩, again, next,
      append_next_eq_past second, past_past]
    rfl
  · by_cases newline : c = _LC '\n'
    · subst newline
      intro fuel L rest text
      have cur := cur_cons (c := _LC '\n') text
      refine readBody_of_readChar (by rw [cur]; exact quote) ?_
      have counted := append_next_eq_past (c := _LC '\n') text (_LC '\n')
      simp only [readChar, cur, if_neg nonzero, if_true, counted]
      simp [past, newlines, doubled, quote]
    · have plain : newlines c = 0 := if_neg newline
      have single : doubled c = [c] := if_neg quote
      rw [plain, single]
      by_cases backslash : c = _LC '\\'
      · subst backslash
        intro fuel L rest text
        have cur := cur_cons (c := _LC '\\') text
        refine readBody_of_readChar (by rw [cur]; exact quote) ?_
        simp only [readChar, cur, if_neg nonzero, if_neg newline, if_true]
        exact congrArg Except.ok (append_next_eq_past text (_LC '\\'))
      · exact turn_plain nonzero quote newline backslash

theorem lexLoop_at {fuel : Nat} (at_ : L.cur = _LC '@') (quote : L.next.cur = _LC '"') :
    L.lexLoop strtod (fuel + 1) = L.next.lexString (_LC '"') true := by
  have nonzero : ¬ _LC '@' = 0 := by decide
  have char : Char.ofNat (_LC '@').toNat = '@' := by decide
  simp only [lexLoop, at_, if_neg nonzero, char, quote, ne_eq, not_true, if_false]

theorem sum_newlines (s : List LexChar) : (s.map newlines).sum = s.count (_LC '\n') := by
  induction s with
  | nil => rfl
  | cons c s ih =>
    rw [List.map_cons, List.sum_cons, ih, List.count_cons, newlines]
    by_cases newline : c = _LC '\n'
    · simp [newline, Int.add_comm]
    · simp [newline]

/-- Verbatim literals read back, whatever their characters. -/
theorem lex_verbatim (strtod : List LexChar → F) (L : LVLexer F) (s rest : List LexChar)
    (source : L.text = _LC '@' :: _LC '"' :: (s.flatMap doubled ++ _LC '"' :: rest))
    (nonzero : ∀ c ∈ s, c ≠ 0) (single : rest.head? ≠ some (_LC '"')) :
    LexesTo L s rest (s.count (_LC '\n')) (L.lex strtod) := by
  have first : L.startToken.text = _LC '@' :: _LC '"' :: (s.flatMap doubled ++ _LC '"' :: rest) := source
  have next := next_eq_past first
  have quote : L.startToken.next.cur = _LC '"' := by rw [next]; rfl
  have turns := Turns.flatMap fun c mem => turn_doubled (F := F) (nonzero c mem)
  have le : (s.map fun _ => 1).sum ≤ (s.flatMap doubled).length := by
    refine Turns.sum_le_length fun c _ => ?_
    unfold doubled
    split <;> simp
  have starts : (s.flatMap doubled).head? ≠ some 0 := by
    cases s with
    | nil => simp
    | cons c s =>
      have first : (doubled c).head? = some c := by
        unfold doubled
        split <;> rfl
      simp only [List.flatMap_cons, List.head?_append, first, Option.some_or, ne_eq,
        Option.some.injEq]
      exact nonzero c List.mem_cons_self
  have unread : L.startToken.next.text = _LC '"' :: (s.flatMap doubled ++ _LC '"' :: rest) := by
    rw [next]
    rfl
  have read := lexString_turns turns le starts unread fun _ => single
  rw [List.flatMap_singleton', sum_newlines] at read
  rw [lex, lexLoop_at (cur_cons first) quote]
  exact read

/-- A lexer at the start of a text. -/
def start (text : List LexChar) : LVLexer Unit := ⟨text, 0, -1, 1, 1, 0, [], 0, (), []⟩

/-- `@"""` , a backslash, a newline and `a""";`. -/
theorem lex_verbatim_quotes :
    LexesTo (start [64, 34, 34, 34, 92, 10, 97, 34, 34, 34, 59]) [34, 92, 10, 97, 34] [59] 1
      ((start [64, 34, 34, 34, 92, 10, 97, 34, 34, 34, 59]).lex fun _ => ()) :=
  lex_verbatim _ _ [34, 92, 10, 97, 34] [59] (by decide) (by decide +kernel) (by decide)

end Lavril.LVLexer
