import Lavril.Escape
import Lavril.UnicodeLiterals

/-!
# Escaping and the lexer

A character below 0x80 takes at most four characters, which the lexer reads as that character
alone. A character above is extended by its sign and takes ten, of which the lexer reads the
first four as one.
-/

namespace Lavril

open LVLexer

variable {F : Type} {c : LVChar} {s : List LVChar} {mem : Nat → LVChar}

/-! ## One character -/

theorem escpat_low : c < 0x80 → ∃ a b, escpat c = [92, 120, a, b] ∧ isxdigit a ∧ isxdigit b ∧
    UInt8.ofNat (scstrtoul [a, b]) = c := by
  have two (c : LVChar) : c < 0x80 → escpat c = [92, 120, (escpat c).getD 2 0, (escpat c).getD 3 0] ∧
      isxdigit ((escpat c).getD 2 0) ∧ isxdigit ((escpat c).getD 3 0) ∧
      UInt8.ofNat (scstrtoul [(escpat c).getD 2 0, (escpat c).getD 3 0]) = c :=
    forall_char (by decide +kernel) c
  exact fun low => ⟨_, _, two c low⟩

/-- A negative `char` is printed with its sign extended. -/
theorem escpat_high_eq : ¬ c < 0x80 → (escpat c = [92, 120, 102, 102] ++ (escpat c).drop 4 ∧
    ((escpat c).drop 4).length = 6) ∧ _LC '"' ∉ (escpat c).drop 4 ∧ _LC '\\' ∉ (escpat c).drop 4 ∧
      _LC '\n' ∉ (escpat c).drop 4 ∧ 0 ∉ (escpat c).drop 4 :=
  forall_char (by decide +kernel) c

theorem escpat_high (high : ¬ c < 0x80) : ∃ t, escpat c = [92, 120, 102, 102] ++ t ∧
    t.length = 6 ∧ Plain t ∧ 0 ∉ t := by
  obtain ⟨⟨eq, length⟩, quote, backslash, line, noNul⟩ := escpat_high_eq high
  refine ⟨_, eq, length, fun d mem => ⟨?_, ?_, ?_⟩, noNul⟩
  · rintro rfl
    exact quote mem
  · rintro rfl
    exact backslash mem
  · rintro rfl
    exact line mem

theorem hexed_of_high (high : ¬ c < 0x80) : Hexed c := by
  have large : 0x80 ≤ c.toNat := by
    rw [UInt8.lt_iff_toNat_lt, Nat.not_lt] at high
    exact high
  rintro (print | rfl)
  · simp only [scisprint, Bool.and_eq_true, decide_eq_true_eq, UInt8.le_iff_toNat_le] at print
    have upper : c.toNat ≤ 126 := print.2
    omega
  · cases large

theorem escch_cases (plain : ¬ Hexed c) (escaped : escch c ≠ 0) :
    c = 0 ∨ c = 92 ∨ c = 34 ∨ c = 39 := by
  rcases not_not.mp plain with print | rfl
  · simp only [scisprint, Bool.and_eq_true, decide_eq_true_eq, UInt8.le_iff_toNat_le] at print
    have lower : 32 ≤ c.toNat := print.1
    unfold escch at escaped
    split at escaped
    any_goals omega
    · exact .inr (.inl (UInt8.toNat_inj.mp ‹_›))
    · exact .inr (.inr (.inl (UInt8.toNat_inj.mp ‹_›)))
    · exact .inr (.inr (.inr (UInt8.toNat_inj.mp ‹_›)))
    · exact absurd rfl escaped
  · exact .inl rfl

theorem plain_of_escch (stands : escch c = 0) :
    c ≠ 0 ∧ c ≠ _LC '"' ∧ c ≠ _LC '\n' ∧ c ≠ _LC '\\' := by
  refine ⟨?_, ?_, ?_, ?_⟩
  · rintro rfl
    cases stands
  · rintro rfl
    cases stands
  · rintro rfl
    cases stands
  · rintro rfl
    cases stands

theorem length_escpat_low (low : c < 0x80) : (escpat c).length = 4 := by
  obtain ⟨a, b, eq, -⟩ := escpat_low low
  rw [eq]
  rfl

theorem length_escpat_high (high : ¬ c < 0x80) : (escpat c).length = 10 := by
  obtain ⟨t, eq, six, -⟩ := escpat_high high
  rw [eq, List.length_append, six]
  rfl

theorem length_escapedText_plain (plain : ¬ Hexed c) :
    0 < (escapedText c).length ∧ (escapedText c).length ≤ 2 := by
  rw [escapedText, if_pos (not_not.mp plain)]
  split <;> exact ⟨by simp, by simp⟩

theorem length_escapedText_hexed (hexed : Hexed c) :
    (escapedText c).length = (escpat c).length := by
  rw [escapedText, if_neg hexed]

/-! ## What the lexer reads of it -/

/-- The characters that are read. -/
def readBack (c : LVChar) : List LexChar :=
  if c < 0x80 then [c] else 255 :: (escpat c).drop 4

theorem turn_escaped (escaped : c = 0 ∨ c = 92 ∨ c = 34 ∨ c = 39) :
    Turns F (_LC '"') false 1 [92, escch c] [c] 0 := by
  intro fuel L rest text
  have unread : L.text = _LC '\\' :: escch c :: rest := text
  have first := cur_cons unread
  have next := next_eq_past unread
  have plain : ¬ _LC '\\' = 0 ∧ ¬ _LC '\\' = _LC '\n' := by decide
  refine readBody_of_readChar (by rw [first]; decide) ?_
  simp only [readChar, first, if_neg plain.1, if_neg plain.2, if_true, next, Bool.false_eq_true,
    if_false]
  have second : (L.past (escch c :: rest) 1 0 []).text = escch c :: rest := rfl
  have stored := append_next_eq_past second c
  rw [past_past] at stored
  have letter := cur_cons second
  rcases escaped with rfl | rfl | rfl | rfl
  · have char : Char.ofNat (escch 0).toNat = '0' := by decide
    simp only [readEscape, letter, char]
    exact congrArg Except.ok stored
  · have char : Char.ofNat (escch 92).toNat = '\\' := by decide
    simp only [readEscape, letter, char]
    exact congrArg Except.ok stored
  · have char : Char.ofNat (escch 34).toNat = '"' := by decide
    simp only [readEscape, letter, char]
    exact congrArg Except.ok stored
  · have char : Char.ofNat (escch 39).toNat = '\'' := by decide
    simp only [readEscape, letter, char]
    exact congrArg Except.ok stored

theorem turn_hex {a b : LexChar} (hex : isxdigit a) (hex' : isxdigit b) :
    Turns F (_LC '"') false 1 [92, 120, a, b] [UInt8.ofNat (scstrtoul [a, b])] 0 := by
  intro fuel L rest text
  have unread : L.text = _LC '\\' :: _LC 'x' :: a :: b :: rest := text
  have first := cur_cons unread
  have next := next_eq_past unread
  set L₁ := L.past (_LC 'x' :: a :: b :: rest) 1 0 [] with atLetter
  have second : L₁.next = L₁.past (a :: b :: rest) 1 0 [] := next_eq_past rfl
  have digits : hexDigits 2 (L₁.past (a :: b :: rest) 1 0 []) =
      ([a, b], (L₁.past (a :: b :: rest) 1 0 []).past rest 2 0 []) :=
    hexDigits_eq (by simp [hex, hex']) (Nat.le_refl 2) (.inl rfl) rfl
  have digit : isxdigit L₁.next.cur = true := by
    rw [second]
    exact hex
  have processed : L₁.processStringHexEscape 2 = .ok ([a, b], L₁.past rest 3 0 []) := by
    rw [processStringHexEscape, if_pos digit, second, digits, past_past]
    rfl
  have letter : L₁.cur = _LC 'x' := rfl
  have char : Char.ofNat (_LC 'x').toNat = 'x' := by decide
  have plain : ¬ _LC '\\' = 0 ∧ ¬ _LC '\\' = _LC '\n' := by decide
  refine readBody_of_readChar (by rw [first]; decide) ?_
  simp only [readChar, first, if_neg plain.1, if_neg plain.2, if_true, next, Bool.false_eq_true,
    if_false, readEscape, letter, char, processed, bind, Except.bind, append_past]
  rw [atLetter, past_past]
  rfl

/-- The turns that `c` takes. -/
def turnsOf (c : LVChar) : Nat := if c < 0x80 then 1 else 7

theorem turns_escapedText (c : LVChar) :
    Turns F (_LC '"') false (turnsOf c) (escapedText c) (readBack c) 0 := by
  by_cases hexed : Hexed c
  · rw [escapedText, if_neg hexed]
    by_cases low : c < 0x80
    · obtain ⟨a, b, eq, hex, hex', value⟩ := escpat_low low
      have turn := turn_hex (F := F) hex hex'
      rw [value] at turn
      rw [eq, readBack, turnsOf, if_pos low, if_pos low]
      exact turn
    · obtain ⟨t, eq, six, plain, noNul⟩ := escpat_high low
      have first : Turns F (_LC '"') false 1 [92, 120, 102, 102] [255] 0 :=
        turn_hex (by decide) (by decide)
      have turns := first.append (turns_plain plain noNul)
      rw [six] at turns
      rw [eq, readBack, turnsOf, if_neg low, if_neg low, eq]
      exact turns
  · have low : c < 0x80 := not_not.mp fun high => hexed (hexed_of_high high)
    rw [escapedText, if_pos (not_not.mp hexed), readBack, turnsOf, if_pos low, if_pos low]
    split
    · rename_i escaped
      exact turn_escaped (escch_cases hexed escaped)
    · rename_i stands
      obtain ⟨nonzero, quote, newline, backslash⟩ := plain_of_escch (not_not.mp stands)
      exact turn_plain nonzero quote newline backslash

theorem turnsOf_le (c : LVChar) : turnsOf c ≤ (escapedText c).length := by
  unfold turnsOf
  by_cases hexed : Hexed c
  · rw [length_escapedText_hexed hexed]
    split
    · rename_i low
      rw [length_escpat_low low]
      omega
    · rename_i high
      rw [length_escpat_high high]
      omega
  · have low : c < 0x80 := not_not.mp fun high => hexed (hexed_of_high high)
    have positive := (length_escapedText_plain hexed).1
    rw [if_pos low]
    omega

theorem exists_head_escapedText (c : LVChar) : ∃ d, (escapedText c).head? = some d ∧ d ≠ 0 := by
  have backslash : (92 : LVChar) ≠ 0 := by decide
  by_cases hexed : Hexed c
  · rw [escapedText, if_neg hexed]
    exact ⟨92, rfl, backslash⟩
  · rw [escapedText, if_pos (not_not.mp hexed)]
    split
    · exact ⟨92, rfl, backslash⟩
    · rename_i stands
      exact ⟨c, rfl, (plain_of_escch (not_not.mp stands)).1⟩

/-! ## Truncation and the room that is asked for -/

theorem truncated_iff (low : ∀ c ∈ s, c < 0x80) :
    (∃ c ∈ s, Truncated (s.length * 4) c) ↔ ∃ c, s = [c] ∧ Hexed c := by
  constructor
  · rintro ⟨c, within, hexed, le⟩
    rw [length_escpat_low (low c within)] at le
    have one : s.length = 1 := by
      have := List.length_pos_of_mem within
      omega
    obtain ⟨d, rfl⟩ := List.length_eq_one_iff.mp one
    exact ⟨d, rfl, List.mem_singleton.mp within ▸ hexed⟩
  · rintro ⟨c, rfl, hexed⟩
    refine ⟨c, List.mem_singleton_self c, hexed, ?_⟩
    rw [length_escpat_low (low c (List.mem_singleton_self c))]
    rfl

theorem escapedText_hexed_ne (hexed : Hexed c) : escapedText c ≠ [c] := by
  intro eq
  have one := congrArg List.length eq
  rw [length_escapedText_hexed hexed] at one
  by_cases low : c < 0x80
  · rw [length_escpat_low low] at one
    cases one
  · rw [length_escpat_high low] at one
    cases one

/-- The characters that do not stand for themselves are counted. -/
theorem escaped_ne_zero (within : c ∈ s) (other : escapedText c ≠ [c]) :
    (escapeLoop mem s).escaped ≠ 0 := by
  have counted : 0 < (s.map fun c => if escapedText c = [c] then 0 else 1).sum :=
    List.sum_pos_iff_exists_pos_nat.mpr
      ⟨1, List.mem_map.mpr ⟨c, within, if_neg other⟩, Nat.one_pos⟩
  rw [escapeLoop, Escaping.escaped_foldl]
  omega

theorem _string_escape_whole (whole : ∀ c ∈ s, ¬ Truncated (s.length * 4) c) :
    _string_escape mem s = s.flatMap escapedText := by
  have text := Escaping.text_foldl ⟨mem, 0, 0, 0⟩ whole
  rw [_string_escape]
  split
  · rename_i none
    rw [List.length_eq_zero_iff.mp none]
    rfl
  · by_cases same : (escapeLoop mem s).escaped = 0
    · have stands : ∀ c ∈ s, escapedText c = [c] := by
        intro c within
        by_contra other
        exact escaped_ne_zero within other same
      have flat : s.flatMap escapedText = s.flatMap fun c => [c] := List.flatMap_congr stands
      simp only [same, ne_eq, not_true, if_false]
      rw [flat, List.flatMap_singleton']
    · simp only [ne_eq, same, not_false_eq_true, if_true]
      exact text

theorem zero_mem_of_truncated (cut : ∃ c ∈ s, Truncated (s.length * 4) c) :
    0 ∈ _string_escape mem s := by
  obtain ⟨c, within, cut⟩ := cut
  have some : s.length ≠ 0 := (List.length_pos_of_mem within).ne'
  have escaped : (escapeLoop mem s).escaped ≠ 0 :=
    escaped_ne_zero within (escapedText_hexed_ne cut.1)
  obtain ⟨j, lt, zero⟩ := Escaping.zero_of_truncated ⟨mem, 0, 0, 0⟩ ⟨c, within, cut⟩ (by omega)
  simp only [_string_escape, if_neg some, ne_eq, escaped, not_false_eq_true, if_true]
  exact List.mem_map.mpr ⟨j, List.mem_range.mpr lt, zero⟩

theorem length_flatMap_escapedText (low : ∀ c ∈ s, c < 0x80) :
    (s.flatMap escapedText).length ≤ 4 * s.length ∧
      ((s.flatMap escapedText).length = 4 * s.length → ∀ c ∈ s, Hexed c) ∧
      ((∀ c ∈ s, Hexed c) → (s.flatMap escapedText).length = 4 * s.length) := by
  induction s with
  | nil => simp
  | cons c s ih =>
    obtain ⟨le, hexed, full⟩ := ih fun d within => low d (List.mem_cons_of_mem c within)
    simp only [List.flatMap_cons, List.length_append, List.length_cons, List.forall_mem_cons]
    by_cases first : Hexed c
    · have four := length_escapedText_hexed first
      rw [length_escpat_low (low c List.mem_cons_self)] at four
      refine ⟨by omega, fun all => ⟨first, hexed (by omega)⟩, fun all => ?_⟩
      have := full all.2
      omega
    · have two := length_escapedText_plain first
      exact ⟨by omega, fun all => by omega, fun all => absurd all.1 first⟩

/-! ## The round trip -/

/-- No store of `escape` is behind the characters it asks for. -/
def WrittenWithin (mem : Nat → LVChar) (s : List LVChar) : Prop :=
  (escapeLoop mem s).reach ≤ 4 * s.length

/-- A literal whose body is the escaped string reads as the string, whatever follows it. -/
def ReadsBack (mem : Nat → LVChar) (s : List LVChar) : Prop :=
  ∀ (F : Type) (strtod : List LexChar → F) (L : LVLexer F) (rest : List LexChar),
    L.text = _LC '"' :: (_string_escape mem s ++ _LC '"' :: rest) →
      LexesTo L s rest 0 (L.lex strtod)

theorem lexes_escaped (strtod : List LexChar → F) {L : LVLexer F} {rest : List LexChar}
    (whole : ∀ c ∈ s, ¬ Truncated (s.length * 4) c)
    (source : L.text = _LC '"' :: (_string_escape mem s ++ _LC '"' :: rest)) :
    LexesTo L (s.flatMap readBack) rest 0 (L.lex strtod) := by
  have turns := Turns.flatMap fun c (_ : c ∈ s) => turns_escapedText (F := F) c
  have lines : (s.map fun _ => (0 : Int)).sum = 0 := by simp
  have le : (s.map turnsOf).sum ≤ (s.flatMap escapedText).length := by
    exact Turns.sum_le_length fun c _ => turnsOf_le c
  have starts : (s.flatMap escapedText).head? ≠ some 0 := by
    cases s with
    | nil => simp
    | cons c s =>
      obtain ⟨d, head, nonzero⟩ := exists_head_escapedText c
      simpa [head] using nonzero
  rw [_string_escape_whole whole] at source
  rw [lines] at turns
  rw [lex_quote source]
  exact lexString_turns turns le starts source (by simp)

theorem low_of_readBack (same : s.flatMap readBack = s) : ∀ c ∈ s, c < 0x80 := by
  induction s with
  | nil => simp
  | cons c s ih =>
    rw [List.flatMap_cons] at same
    by_cases low : c < 0x80
    · rw [readBack, if_pos low, List.singleton_append] at same
      exact List.forall_mem_cons.mpr ⟨low, ih (List.tail_eq_of_cons_eq same)⟩
    · have le : (s.map fun _ => 1).sum ≤ (s.flatMap readBack).length := by
        refine Turns.sum_le_length fun d _ => ?_
        unfold readBack
        split <;> simp
      have more := congrArg List.length same
      rw [readBack, if_neg low] at more
      simp only [List.length_append, List.length_cons, List.length_drop, length_escpat_high low]
        at more
      simp only [List.map_const', List.sum_replicate_nat, Nat.mul_one] at le
      omega

theorem readsBack_iff (mem : Nat → LVChar) (s : List LVChar) :
    ReadsBack mem s ↔ (∀ c ∈ s, c < 0x80) ∧ ¬ ∃ c, s = [c] ∧ Hexed c := by
  constructor
  · intro back
    have lexed := back Unit (fun _ => ()) (start (_LC '"' :: (_string_escape mem s ++ [_LC '"']))) []
      rfl
    have whole : ∀ c ∈ s, ¬ Truncated (s.length * 4) c := by
      intro c within cut
      exact lexed.noNul rfl (zero_mem_of_truncated ⟨c, within, cut⟩)
    have low : ∀ c ∈ s, c < 0x80 :=
      low_of_readBack (lexed.unique (lexes_escaped (fun _ => ()) whole rfl)).symm
    exact ⟨low, fun single => by
      obtain ⟨c, within, cut⟩ := (truncated_iff low).mpr single
      exact whole c within cut⟩
  · rintro ⟨low, several⟩ F strtod L rest source
    have whole : ∀ c ∈ s, ¬ Truncated (s.length * 4) c := fun c within cut =>
      several ((truncated_iff low).mp ⟨c, within, cut⟩)
    have lexed := lexes_escaped strtod whole source
    have same : s.flatMap readBack = s.flatMap fun c => [c] :=
      List.flatMap_congr fun c within => if_pos (low c within)
    rwa [same, List.flatMap_singleton'] at lexed

/-! ## How far the stores come -/

namespace Escaping

variable {st : Escaping} {size : Nat}

theorem dest_foldl (st : Escaping) (s : List LVChar) (size : Nat) :
    (s.foldl (step size) st).dest = st.dest + (s.flatMap escapedText).length := by
  induction s generalizing st with
  | nil => rfl
  | cons c s ih =>
    rw [List.foldl_cons, ih, dest_step, List.flatMap_cons, List.length_append, Nat.add_assoc]

/-- At most a terminator is behind what is taken as written. -/
theorem reach_foldl_le (st : Escaping) (whole : ∀ c ∈ s, ¬ Truncated size c) (before : st.reach ≤ st.dest + 1) :
    (s.foldl (step size) st).reach ≤ (s.foldl (step size) st).dest + 1 := by
  induction s generalizing st with
  | nil => exact before
  | cons c s ih =>
    refine ih _ (fun d within => whole d (List.mem_cons_of_mem c within)) ?_
    rw [reach_step (whole c List.mem_cons_self), dest_step]
    split <;> omega

/-- And there is one where each character is written in hexadecimal. -/
theorem lt_reach_foldl (st : Escaping) (hexed : ∀ c ∈ s, Hexed c ∧ ¬ Truncated size c)
    (before : s = [] → st.dest < st.reach) :
    (s.foldl (step size) st).dest < (s.foldl (step size) st).reach := by
  induction s generalizing st with
  | nil => exact before rfl
  | cons c s ih =>
    refine ih _ (fun d within => hexed d (List.mem_cons_of_mem c within)) fun _ => ?_
    obtain ⟨first, whole⟩ := hexed c List.mem_cons_self
    rw [reach_step whole, if_pos first]
    omega

end Escaping

theorem writtenWithin_iff (low : ∀ c ∈ s, c < 0x80) (several : ¬ ∃ c, s = [c] ∧ Hexed c) :
    WrittenWithin mem s ↔ s = [] ∨ ∃ c ∈ s, ¬ Hexed c := by
  have whole : ∀ c ∈ s, ¬ Truncated (s.length * 4) c := fun c within cut =>
    several ((truncated_iff low).mp ⟨c, within, cut⟩)
  obtain ⟨le, hexed, full⟩ := length_flatMap_escapedText low
  have dest := Escaping.dest_foldl ⟨mem, 0, 0, 0⟩ s (s.length * 4)
  have reach := Escaping.reach_foldl_le ⟨mem, 0, 0, 0⟩ whole (Nat.zero_le _)
  rw [dest] at reach
  unfold WrittenWithin escapeLoop
  constructor
  · intro fits
    by_contra none
    obtain ⟨some, all⟩ := not_or.mp none
    have all : ∀ c ∈ s, Hexed c := fun c within => by
      by_contra plain
      exact all ⟨c, within, plain⟩
    have lt := Escaping.lt_reach_foldl ⟨mem, 0, 0, 0⟩
      (fun c within => ⟨all c within, whole c within⟩) fun empty => absurd empty some
    rw [dest, full all] at lt
    simp only at lt
    omega
  · rintro (rfl | ⟨c, within, plain⟩)
    · exact Nat.le_refl 0
    · have short : (s.flatMap escapedText).length ≠ 4 * s.length := fun all =>
        plain (hexed all c within)
      simp only at reach
      omega

/-- Escaping and the lexer, exactly: characters from 0x80 on, and strings of characters that are
all written in hexadecimal, are what fails. -/
theorem escape_exact (mem : Nat → LVChar) (s : List LVChar) :
    WrittenWithin mem s ∧ ReadsBack mem s ↔
      (∀ c ∈ s, c < 0x80) ∧ (s = [] ∨ ∃ c ∈ s, ¬ Hexed c) := by
  rw [readsBack_iff]
  constructor
  · rintro ⟨within, low, several⟩
    exact ⟨low, (writtenWithin_iff low several).mp within⟩
  · rintro ⟨low, plain⟩
    have several : ¬ ∃ c, s = [c] ∧ Hexed c := by
      rintro ⟨c, rfl, hexed⟩
      rcases plain with none | ⟨d, within, other⟩
      · cases none
      · exact other (List.mem_singleton.mp within ▸ hexed)
    exact ⟨(writtenWithin_iff low several).mpr plain, low, several⟩

/-- `È` in Latin-1 and two letters are escaped in the twelve characters there are, which read
as nine others. -/
theorem not_readsBack : ¬ (WrittenWithin (fun _ => 0) [200, 65, 66] ∧
    ReadsBack (fun _ => 0) [200, 65, 66]) := by
  rintro ⟨-, back⟩
  have escaped : _string_escape (fun _ => 0) [200, 65, 66] =
      [92, 120, 102, 102, 102, 102, 102, 102, 99, 56, 65, 66] := by decide +kernel
  obtain ⟨L', ran, value, -⟩ := back Unit (fun _ => ())
    (start [34, 92, 120, 102, 102, 102, 102, 102, 102, 99, 56, 65, 66, 34]) [] (by rw [escaped]; rfl)
  have stored : ((start [34, 92, 120, 102, 102, 102, 102, 102, 102, 99, 56, 65, 66, 34]).lex
      fun _ => ()).toOption.map (fun result => result.2.stringValue) =
      some [255, 102, 102, 102, 102, 99, 56, 65, 66] := by decide +kernel
  rw [ran] at stored
  have other := value.symm.trans (Option.some.inj stored)
  exact absurd other (by decide)

end Lavril
