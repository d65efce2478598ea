import Lavril.JsonText
import Mathlib.Data.List.TakeWhile

/-!
# Reading a text back

What `parse_level` makes of the tokens of a text: the value that the text was made of,
with floats where an integer has a dot somewhere behind it.
-/

namespace Lavril.Json

variable {p : Platform} {js : List Char}

/-! ## The text of plain values -/

theorem cstring_of_not_mem {s : List Char} (plain : '\x00' ∉ s) : cstring s = s :=
  List.takeWhile_eq_self_iff.mpr fun _ mem => decide_eq_true fun eq => plain (eq ▸ mem)

theorem drop_append {α : Type} {l a b : List α} {start : Nat} (at_ : l.drop start = a ++ b) :
    l.drop (start + a.length) = b := by
  rw [← List.drop_drop, at_, List.drop_left]

def memberText (p : Platform) (members : List (Value × Value)) : List Char :=
  textOf (memberPieces p members p.unset)

/-- What follows a part of a value, given what follows the parts. -/
def follow {α : Type} (rest : List α) (text after : List Char) : List Char :=
  textOf (separator rest) ++ text ++ after

theorem text_string {s : List Char} (plain : '\x00' ∉ s) :
    (Value.string s).text p = '"' :: (s ++ ['"']) := by
  simp [Value.text, Value.pieces, quoted, cstring_of_not_mem plain]

theorem text_integer (i : BitVec 64) : (Value.integer i).text p = printInteger i := by
  simp [Value.text, Value.pieces, plain]

theorem text_array (values : List Value) :
    (Value.array values).text p = '[' :: (elementText p values ++ [']']) := by
  simp [Value.text, Value.pieces, elementText]

theorem text_table (members : List (Value × Value)) :
    (Value.table members).text p = '{' :: (memberText p members ++ ['}']) := by
  simp [Value.text, Value.pieces, memberText]

theorem elementText_cons (value : Value) (values : List Value) :
    elementText p (value :: values) =
      value.text p ++ (textOf (separator values) ++ elementText p values) := by
  simp [elementText, elementPieces, Value.text]

/-- The keys of plain members are all strings, so that none is looked up before. -/
theorem memberPieces_key {members : List (Value × Value)} (plain : PlainMembers members)
    (key key' : List Char) : memberPieces p members key = memberPieces p members key' := by
  cases members with
  | nil => rfl
  | cons m members =>
    obtain ⟨k, value⟩ := m
    obtain ⟨⟨s, rfl, -⟩, -⟩ := plain
    rfl

theorem memberText_cons {s : List Char} {value : Value} {members : List (Value × Value)}
    (plain : PlainMembers ((.string s, value) :: members)) :
    memberText p ((.string s, value) :: members) =
      (Value.string s).text p ++ ':' ::
        (value.text p ++ (textOf (separator members) ++ memberText p members)) := by
  obtain ⟨⟨s', same, null⟩, -, rest⟩ := plain
  obtain rfl := Value.string.inj same
  rw [text_string null, memberText, memberPieces,
    memberPieces_key rest (getstring (.string s) p.unset) p.unset]
  simp [memberText, Value.text, getstring, quoted, cstring_of_not_mem null]

/-! ## Which characters a text has -/

/-- The characters of a text apart from its strings and digits. -/
def marks : List Char := "{}[]:,\"-truefalsn".toList

/-- A character that is only in a text where it is in a string. -/
def Foreign (c : Char) : Prop := c ∉ marks ∧ c.isDigit = false

theorem foreign_dot : Foreign '.' := ⟨by decide, rfl⟩

theorem foreign_null : Foreign '\x00' := ⟨by decide, rfl⟩

theorem Foreign.not_mem {c : Char} (foreign : Foreign c) {s : List Char} (sub : s ⊆ marks) :
    c ∉ s := fun mem => foreign.1 (sub mem)

theorem Foreign.ne {c d : Char} (foreign : Foreign c) (mark : d ∈ marks) : c ≠ d := by
  rintro rfl
  exact foreign.1 mark

theorem mem_separator {α : Type} {c : Char} (foreign : Foreign c) (rest : List α) :
    c ∉ textOf (separator rest) := by
  cases rest with
  | nil => simp [separator]
  | cons a rest => simp [separator, foreign.ne (d := ',') (by decide)]

mutual

theorem mem_text {c : Char} (foreign : Foreign c) :
    ∀ (value : Value), value.Plain →
      (c ∈ value.text p ↔ ∃ s, .string s ∈ value.leaves ∧ c ∈ s)
  | .null, _ => by
    have none : c ∉ "null".toList := foreign.not_mem (by decide)
    simpa [Value.text, Value.pieces, Value.leaves] using none
  | .bool b, _ => by
    have none : c ∉ (if b then "true" else "false").toList := by
      cases b <;> exact foreign.not_mem (by decide)
    simpa [Value.text, Value.pieces, Value.leaves, plain] using none
  | .integer i, _ => by
    have none : c ∉ printInteger i :=
      not_mem_printInteger (foreign.ne (by decide)) foreign.2
    simpa [text_integer, Value.leaves] using none
  | .string s, plain => by
    have quote : c ≠ '"' := foreign.ne (by decide)
    simp [text_string plain, Value.leaves, quote]
  | .array values, plain => by
    have left : c ≠ '[' := foreign.ne (by decide)
    have right : c ≠ ']' := foreign.ne (by decide)
    have parts := mem_elementText foreign values plain
    simp [text_array, Value.leaves, left, right, parts]
  | .table members, plain => by
    have left : c ≠ '{' := foreign.ne (by decide)
    have right : c ≠ '}' := foreign.ne (by decide)
    have parts := mem_memberText foreign members plain.1
    simp [text_table, Value.leaves, left, right, parts]

theorem mem_memberText {c : Char} (foreign : Foreign c) :
    ∀ (members : List (Value × Value)), PlainMembers members →
      (c ∈ memberText p members ↔ ∃ s, .string s ∈ memberLeaves members ∧ c ∈ s)
  | [], _ => by simp [memberText, memberPieces, memberLeaves]
  | (k, value) :: members, plain => by
    obtain ⟨⟨s, rfl, null⟩, plain₁, plain₂⟩ := id plain
    have first := mem_text foreign value plain₁
    have rest := mem_memberText foreign members plain₂
    have none := mem_separator foreign members
    have quote : c ≠ '"' := foreign.ne (by decide)
    have colon : c ≠ ':' := foreign.ne (by decide)
    simp [memberText_cons plain, text_string null, memberLeaves, Value.leaves, first, rest, none,
      quote, colon, or_and_right, exists_or]

theorem mem_elementText {c : Char} (foreign : Foreign c) :
    ∀ (values : List Value), PlainElements values →
      (c ∈ elementText p values ↔ ∃ s, .string s ∈ elementLeaves values ∧ c ∈ s)
  | [], _ => by simp [elementText, elementPieces, elementLeaves]
  | value :: values, plain => by
    have first := mem_text foreign value plain.1
    have rest := mem_elementText foreign values plain.2
    have none := mem_separator foreign values
    simp [elementText_cons, elementLeaves, first, rest, none, or_and_right, exists_or]

end

/-! ## Reading -/

mutual

/-- What a value is read back as where the text goes on with `after`. -/
def Value.reread (p : Platform) : Value → List Char → Value
  | .integer i, after =>
    if '.' ∈ after then .float (p.atof (printInteger i ++ after)) else .integer i
  | .array values, after => .array (rereadElements p values (']' :: after))
  | .table members, after => .table (rereadMembers p members ('}' :: after))
  | value, _ => value

def rereadMembers (p : Platform) : List (Value × Value) → List Char → List (Value × Value)
  | [], _ => []
  | (k, value) :: members, after =>
    (k, value.reread p (follow members (memberText p members) after)) ::
      rereadMembers p members after

def rereadElements (p : Platform) : List Value → List Char → List Value
  | [], _ => []
  | value :: values, after =>
    value.reread p (follow values (elementText p values) after) :: rereadElements p values after

end

mutual

/-- The slots that reading the text of a value needs. -/
def Value.readSlots : Value → Nat
  | .array values => readElementSlots values + 1
  | .table members => readMemberSlots members + 1
  | _ => 1

/-- A value is read with its key below it. -/
def readMemberSlots : List (Value × Value) → Nat
  | [] => 0
  | (_, value) :: members => max (value.readSlots + 1) (readMemberSlots members)

def readElementSlots : List Value → Nat
  | [] => 0
  | value :: values => max value.readSlots (readElementSlots values)

end

theorem stops_follow {α : Type} (rest : List α) (text : List Char) {after : List Char}
    (stops : Stops after) (none : rest = [] → text = []) : Stops (follow rest text after) := by
  cases rest with
  | nil => simpa [follow, separator, none rfl] using stops
  | cons a rest =>
    refine stops_cons (c := ',') rfl

theorem rawset_fresh {members : List (Value × Value)} {s : List Char} {value : Value}
    (fresh : Value.string s ∉ keys members) :
    rawset members (.string s) value = members ++ [(.string s, value)] := by
  have none : members.any (·.1.same (.string s)) = false := by
    rw [List.any_eq_false]
    rintro ⟨k, value'⟩ mem same
    cases k with
    | string s' =>
      have eq : s' = s := by simpa [Value.same] using same
      exact fresh (List.mem_map.mpr ⟨_, mem, by rw [eq]⟩)
    | _ => simp [Value.same] at same
  simp [rawset, none]

theorem slice_eq (type : JsmnType) (size : Nat) {start : Nat} {s after : List Char}
    (at_ : js.drop start = s ++ after) :
    (⟨type, start, start + s.length, size⟩ : JsmnToken).slice js = s := by
  simp [JsmnToken.slice, at_]

theorem toLower_of_isDigit {c : Char} (digit : c.isDigit = true) : c.toLower = c := by
  have high : c.val ≤ '9'.val := by
    simp only [Char.isDigit, Bool.and_eq_true, decide_eq_true_eq] at digit
    exact digit.2
  exact dif_neg fun upper => absurd (UInt32.le_trans upper.1 high) (by decide)

/-- No integer is taken for a word. -/
theorem printInteger_ne {i : BitVec 64} {word : List Char} {c : Char} (mem : c ∈ word)
    (sign : c ≠ '-') (digit : c.isDigit = false) :
    (printInteger i).map Char.toLower ≠ word := by
  rintro rfl
  obtain ⟨d, from_, rfl⟩ := List.mem_map.mp mem
  rcases mem_printInteger from_ with rfl | h
  · exact sign rfl
  · simp [toLower_of_isDigit h, h] at digit

theorem primitive_integer {i : BitVec 64} {start size : Nat} {after : List Char}
    (at_ : js.drop start = printInteger i ++ after) (stops : Stops after) :
    primitive p js ⟨.primitive, start, start + (printInteger i).length, size⟩ =
      (Value.integer i).reread p after := by
  have dot : '.' ∈ printInteger i ++ after ↔ '.' ∈ after := by
    have none : '.' ∉ printInteger i := not_mem_printInteger (by decide) rfl
    simp [none]
  simp only [primitive, slice_eq .primitive size at_, at_, dot, atol_printInteger i stops]
  rw [if_neg (printInteger_ne (c := 'f') (by decide) (by decide) rfl),
    if_neg (printInteger_ne (c := 't') (by decide) (by decide) rfl),
    if_neg (printInteger_ne (c := 'n') (by decide) (by decide) rfl), Value.reread]

/-- Words are read back as they are. -/
theorem primitive_word {start size : Nat} {s after : List Char} {value : Value}
    (at_ : js.drop start = s ++ after)
    (word : s = "false".toList ∧ value = .bool false ∨ s = "true".toList ∧ value = .bool true ∨
      s = "null".toList ∧ value = .null) :
    primitive p js ⟨.primitive, start, start + s.length, size⟩ = value := by
  rw [primitive, slice_eq .primitive size at_]
  rcases word with ⟨rfl, rfl⟩ | ⟨rfl, rfl⟩ | ⟨rfl, rfl⟩ <;> rfl

theorem primitive_needs {fuel room : Nat} {t : JsmnToken} {rest : List JsmnToken} {value : Value}
    (type : t.type = .primitive) (eq : primitive p js t = value) :
    Needs room 1 (parse_level p js (fuel + 1) room (t :: rest)) (1, value) := by
  rw [parse_level, type, ← eq]
  exact Needs.pushed

theorem string_needs {fuel room start size : Nat} {s after : List Char} {rest : List JsmnToken}
    (plain : '\x00' ∉ s) (at_ : js.drop start = (Value.string s).text p ++ after) :
    Needs room 1
      (parse_level p js (fuel + 1) room (⟨.string, start + 1, start + 1 + s.length, size⟩ :: rest))
      (1, .string s) := by
  have inside : js.drop (start + 1) = s ++ '"' :: after := by
    rw [text_string plain] at at_
    exact drop_append (a := ['"']) (by simpa using at_)
  have slice := slice_eq .string size inside
  rw [parse_level]
  simp only [slice]
  exact Needs.pushed

theorem memberTokens_cons (s : List Char) (value : Value) (members : List (Value × Value))
    (start : Nat) :
    memberTokens p ((.string s, value) :: members) start =
      ⟨.string, start + 1, start + 1 + s.length, 1⟩ ::
        (value.tokens p (start + ((Value.string s).text p).length + 1) ++
          memberTokens p members (start + ((Value.string s).text p).length + 1 +
            (value.text p).length + 1)) := rfl

mutual

/-- Reading the tokens of a value, whose text is at the offset they were made for. -/
theorem parse_level_needs (p : Platform) (js : List Char) :
    ∀ (value : Value) (_ : value.Plain) (fuel room start : Nat) (after : List Char)
      (rest : List JsmnToken) (_ : js.drop start = value.text p ++ after) (_ : Stops after)
      (_ : (value.tokens p start).length ≤ fuel),
      Needs room value.readSlots (parse_level p js fuel room (value.tokens p start ++ rest))
        ((value.tokens p start).length, value.reread p after)
  | .null, _, fuel + 1, _, _, _, _, at_, _, _ =>
    primitive_needs rfl (primitive_word at_ (Or.inr (Or.inr ⟨rfl, rfl⟩)))
  | .bool false, _, fuel + 1, _, _, _, _, at_, _, _ =>
    primitive_needs rfl (primitive_word at_ (Or.inl ⟨rfl, rfl⟩))
  | .bool true, _, fuel + 1, _, _, _, _, at_, _, _ =>
    primitive_needs rfl (primitive_word at_ (Or.inr (Or.inl ⟨rfl, rfl⟩)))
  | .integer i, _, fuel + 1, room, start, after, rest, at_, stops, _ => by
    have tokens : (Value.integer i).tokens p start =
        [⟨.primitive, start, start + (printInteger i).length, 0⟩] := by
      rw [← text_integer (p := p)]
      rfl
    rw [text_integer] at at_
    rw [tokens]
    exact primitive_needs rfl (primitive_integer at_ stops)
  | .string _, plain, fuel + 1, _, _, _, _, at_, _, _ => string_needs plain at_
  | .array values, plain, fuel + 1, room, start, after, rest, at_, _, enough => by
    have inside : js.drop (start + 1) = elementText p values ++ ']' :: after := by
      rw [text_array] at at_
      exact drop_append (a := ['[']) (by simpa using at_)
    have loop := fun fits : 1 ≤ room => (parse_elements_needs p js values plain fuel (room - 1)
      (start + 1) 0 (']' :: after) rest (elementTokens p values (start + 1) ++ rest) [] rfl
      (fun _ => inside) (stops_cons rfl) (by simpa [Value.tokens] using enough)).above fits
    have slots : max 1 (readElementSlots values + 1) = (Value.array values).readSlots := by
      rw [Value.readSlots]; omega
    rw [Value.tokens, Value.reread, List.cons_append, parse_level, ← slots]
    refine (Needs.push 1).bind fun fits => ?_
    simpa using (loop fits).map fun r => (r.1 + 1, Value.array r.2)
  | .table members, plain, fuel + 1, room, start, after, rest, at_, _, enough => by
    have inside : js.drop (start + 1) = memberText p members ++ '}' :: after := by
      rw [text_table] at at_
      exact drop_append (a := ['{']) (by simpa using at_)
    have loop := fun fits : 1 ≤ room => (parse_members_needs p js members plain.1 fuel (room - 1)
      (start + 1) 0 ('}' :: after) rest (memberTokens p members (start + 1) ++ rest) [] rfl
      (fun _ => inside) (stops_cons rfl) plain.2 (by simpa [Value.tokens] using enough)).above fits
    have slots : max 1 (readMemberSlots members + 1) = (Value.table members).readSlots := by
      rw [Value.readSlots]; omega
    rw [Value.tokens, Value.reread, List.cons_append, parse_level, ← slots]
    refine (Needs.push 1).bind fun fits => ?_
    simpa using (loop fits).map fun r => (r.1 + 1, Value.table r.2)

theorem parse_members_needs (p : Platform) (js : List Char) :
    ∀ (members : List (Value × Value)) (_ : PlainMembers members) (fuel room start j : Nat)
      (after : List Char) (rest tokens : List JsmnToken) (done : List (Value × Value))
      (_ : tokens.drop j = memberTokens p members start ++ rest)
      (_ : members ≠ [] → js.drop start = memberText p members ++ after) (_ : Stops after)
      (_ : (keys (done ++ members)).Nodup) (_ : (memberTokens p members start).length ≤ fuel),
      Needs room (readMemberSlots members)
        (parse_members (parse_level p js fuel) room tokens members.length j done)
        (j + (memberTokens p members start).length, done ++ rereadMembers p members after)
  | [], _, _, _, _, j, _, _, _, done, _, _, _, _, _ => by
    simpa [parse_members, memberTokens, rereadMembers, readMemberSlots] using
      Needs.ok (a := (j, done))
  | (k, value) :: members, plain, fuel, room, start, j, after, rest, tokens, done, there, at_,
      stops, distinct, enough => by
    obtain ⟨⟨s, rfl, null⟩, plain₁, plain₂⟩ := id plain
    have text : js.drop start = (Value.string s).text p ++ ':' ::
        (value.text p ++ follow members (memberText p members) after) := by
      rw [at_ (List.cons_ne_nil _ _), memberText_cons plain]
      simp [follow]
    have text₁ : js.drop (start + ((Value.string s).text p).length + 1) =
        value.text p ++ follow members (memberText p members) after :=
      drop_append (a := [':']) (drop_append text)
    have next : members ≠ [] →
        js.drop (start + ((Value.string s).text p).length + 1 + (value.text p).length + 1) =
          memberText p members ++ after := by
      intro more
      have behind := drop_append text₁
      rw [follow, separator, if_neg more, List.append_assoc] at behind
      exact drop_append (a := [',']) behind
    have count := congrArg List.length (memberTokens_cons (p := p) s value members start)
    rw [List.length_cons, List.length_append, Nat.add_comm _ 1] at count
    rw [count] at enough
    rw [memberTokens_cons, List.cons_append, List.append_assoc] at there
    obtain ⟨fuel, rfl⟩ : ∃ n, fuel = n + 1 := Nat.exists_eq_add_of_le' (by omega)
    have behind := drop_append (a := [_]) (b := value.tokens p _ ++ _) there
    rw [List.length_singleton] at behind
    have first := fun rest => parse_level_needs p js value plain₁ (fuel + 1) (room - 1) _ _ rest
      text₁ (stops_follow members _ stops (by rintro rfl; rfl)) (by omega)
    have fresh : Value.string s ∉ keys done := by
      rw [keys, List.map_append, List.nodup_append] at distinct
      exact fun mem => distinct.2.2 _ mem _ (List.mem_cons_self ..) rfl
    have loop := parse_members_needs p js members plain₂ (fuel + 1) room _ _ after rest tokens
      (done ++ [(.string s, value.reread p (follow members (memberText p members) after))])
      (drop_append behind) next stops (by simpa [keys] using distinct) (by omega)
    rw [List.length_cons, parse_members, there]
    have order : max 1 (max (value.readSlots + 1) (readMemberSlots members)) =
        readMemberSlots ((.string s, value) :: members) := by rw [readMemberSlots]; omega
    rw [← order]
    refine (string_needs null text).bind fun fits => ?_
    dsimp only
    rw [behind]
    refine ((first _).above fits).bind fun _ => ?_
    dsimp only
    rw [rawset_fresh fresh]
    simpa [count, rereadMembers, Nat.add_assoc] using loop

theorem parse_elements_needs (p : Platform) (js : List Char) :
    ∀ (values : List Value) (_ : PlainElements values) (fuel room start j : Nat)
      (after : List Char) (rest tokens : List JsmnToken) (done : List Value)
      (_ : tokens.drop j = elementTokens p values start ++ rest)
      (_ : values ≠ [] → js.drop start = elementText p values ++ after) (_ : Stops after)
      (_ : (elementTokens p values start).length ≤ fuel),
      Needs room (readElementSlots values)
        (parse_elements (parse_level p js fuel) room tokens values.length j done)
        (j + (elementTokens p values start).length, done ++ rereadElements p values after)
  | [], _, _, _, _, j, _, _, _, done, _, _, _, _ => by
    simpa [parse_elements, elementTokens, rereadElements, readElementSlots] using
      Needs.ok (a := (j, done))
  | value :: values, plain, fuel, room, start, j, after, rest, tokens, done, there, at_,
      stops, enough => by
    have text : js.drop start =
        value.text p ++ follow values (elementText p values) after := by
      rw [at_ (List.cons_ne_nil _ _), elementText_cons, List.append_assoc]
      rfl
    have next : values ≠ [] → js.drop (start + (value.text p).length + 1) =
        elementText p values ++ after := by
      intro more
      have behind := drop_append text
      rw [follow, separator, if_neg more, List.append_assoc] at behind
      exact drop_append (a := [',']) behind
    rw [elementTokens, List.append_assoc] at there
    rw [elementTokens, List.length_append] at enough
    have first := fun rest => parse_level_needs p js value plain.1 fuel room start _ rest text
      (stops_follow values _ stops (by rintro rfl; rfl)) (Nat.le_of_add_right_le enough)
    rw [List.length_cons, parse_elements, there, readElementSlots]
    refine (first _).bind fun _ => ?_
    have loop := parse_elements_needs p js values plain.2 fuel room _ _ after rest tokens
      (done ++ [value.reread p (follow values (elementText p values) after)])
      (drop_append there) next stops (Nat.le_of_add_left_le enough)
    simpa [elementTokens, rereadElements, Nat.add_assoc] using loop

end

end Lavril.Json
