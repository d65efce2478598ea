import Lavril.JsonReading
import Mathlib.Data.List.Nodup

/-!
# The round trip of a value

A plain value comes back when its strings are well formed as they are, no integer has a
dot behind it in the text, and the buffer and the stack have enough room.
-/

namespace Lavril.Json

variable {p : Platform} {js : List Char}

/-! ## Integers that become floats -/

def Value.isInteger : Value → Bool
  | .integer _ => true
  | _ => false

def Value.isDotted : Value → Bool
  | .string s => '.' ∈ s
  | _ => false

/-- No string with a dot comes after an integer. -/
def DotsFirst (leaves : List Value) : Prop :=
  leaves.Pairwise fun a b => a.isInteger → ¬b.isDotted

theorem dot_mem_iff {leaves : List Value} :
    (∃ s, .string s ∈ leaves ∧ '.' ∈ s) ↔ ∃ a ∈ leaves, a.isDotted := by
  constructor
  · rintro ⟨s, mem, dot⟩
    exact ⟨_, mem, decide_eq_true dot⟩
  · rintro ⟨a, mem, dotted⟩
    cases a with
    | string s => exact ⟨s, mem, of_decide_eq_true dotted⟩
    | _ => cases dotted

/-- Whether integers stay what they are, in a part and in what follows it. -/
theorem dotsFirst_append {first rest : List Value} {dot : Prop} :
    (DotsFirst first ∧ ((∃ a ∈ rest, a.isDotted) ∨ dot → ∀ a ∈ first, ¬a.isInteger)) ∧
        (DotsFirst rest ∧ (dot → ∀ a ∈ rest, ¬a.isInteger)) ↔
      DotsFirst (first ++ rest) ∧ (dot → ∀ a ∈ first ++ rest, ¬a.isInteger) := by
  simp only [DotsFirst, List.pairwise_append, List.mem_append]
  constructor
  · rintro ⟨⟨h₁, h₂⟩, h₃, h₄⟩
    refine ⟨⟨h₁, h₃, fun a ha b hb int dotted => h₂ (Or.inl ⟨b, hb, dotted⟩) a ha int⟩, ?_⟩
    intro dot a mem
    rcases mem with mem | mem
    · exact h₂ (Or.inr dot) a mem
    · exact h₄ dot a mem
  · rintro ⟨⟨h₁, h₂, h₃⟩, h₄⟩
    refine ⟨⟨h₁, ?_⟩, h₂, fun dot a mem => h₄ dot a (Or.inr mem)⟩
    rintro (⟨b, hb, dotted⟩ | dot) a ha int
    · exact h₃ a ha b hb int dotted
    · exact h₄ dot a (Or.inl ha) int

theorem keys_rereadMembers (members : List (Value × Value)) (after : List Char) :
    keys (rereadMembers p members after) = keys members := by
  induction members with
  | nil => rfl
  | cons m members ih => exact congrArg (m.1 :: ·) ih

theorem length_rereadMembers (members : List (Value × Value)) (after : List Char) :
    (rereadMembers p members after).length = members.length := by
  have same := congrArg List.length (keys_rereadMembers (p := p) members after)
  simpa [keys] using same

/-- A key is bound but once. -/
theorem same_at_key {s : List Char} {value value' : Value} {done rest : List (Value × Value)}
    (distinct : (keys (done ++ (.string s, value') :: rest)).Nodup) :
    (∃ m ∈ done ++ (.string s, value') :: rest, Same (.string s) m.1 ∧ Same value m.2) ↔
      Same value value' := by
  have here : (Value.string s, value') ∈ done ++ (.string s, value') :: rest := by simp
  constructor
  · rintro ⟨m, mem, key, same⟩
    obtain rfl := List.inj_on_of_nodup_map distinct mem here (by simpa [Same] using key)
    exact same
  · exact fun same => ⟨_, here, by simp [Same], same⟩

theorem memberLeaves_string (s : List Char) (value : Value) (members : List (Value × Value)) :
    memberLeaves ((.string s, value) :: members) =
      .string s :: (value.leaves ++ memberLeaves members) := by
  simp [memberLeaves, Value.leaves]

theorem dotsFirst_string {s : List Char} {leaves : List Value} {dot : Prop} :
    DotsFirst (.string s :: leaves) ∧ (dot → ∀ a ∈ Value.string s :: leaves, ¬a.isInteger) ↔
      DotsFirst leaves ∧ (dot → ∀ a ∈ leaves, ¬a.isInteger) := by
  simp [DotsFirst, Value.isInteger]

mutual

theorem same_reread_iff (p : Platform) :
    ∀ (value : Value) (_ : value.Plain) (after : List Char),
      Same value (value.reread p after) ↔
        DotsFirst value.leaves ∧ ('.' ∈ after → ∀ a ∈ value.leaves, ¬a.isInteger)
  | .null, _, _ => by simp [Same, Value.reread, Value.leaves, DotsFirst, Value.isInteger]
  | .bool _, _, _ => by simp [Same, Value.reread, Value.leaves, DotsFirst, Value.isInteger]
  | .string _, _, _ => by simp [Same, Value.reread, Value.leaves, DotsFirst, Value.isInteger]
  | .integer i, _, after => by
    by_cases dot : '.' ∈ after <;>
      simp [Same, Value.reread, Value.leaves, DotsFirst, Value.isInteger, dot]
  | .array values, plain, after => by
    have parts := sameElements_reread_iff p values plain (']' :: after)
    simpa [Same, Value.reread, Value.leaves] using parts
  | .table members, plain, after => by
    have parts := sameMembers_reread_iff p members plain.1 ('}' :: after) [] plain.2
    simpa [Same, Value.reread, Value.leaves, length_rereadMembers] using parts

theorem sameMembers_reread_iff (p : Platform) :
    ∀ (members : List (Value × Value)) (_ : PlainMembers members) (after : List Char)
      (done : List (Value × Value)) (_ : (keys (done ++ members)).Nodup),
      SameMembers members (done ++ rereadMembers p members after) ↔
        DotsFirst (memberLeaves members) ∧
          ('.' ∈ after → ∀ a ∈ memberLeaves members, ¬a.isInteger)
  | [], _, _, _, _ => by simp [SameMembers, memberLeaves, DotsFirst]
  | (k, value) :: members, plain, after, done, distinct => by
    obtain ⟨⟨s, rfl, -⟩, plain₁, plain₂⟩ := id plain
    have first := same_reread_iff p value plain₁ (follow members (memberText p members) after)
    have rest := sameMembers_reread_iff p members plain₂ after
      (done ++ [(.string s, value.reread p (follow members (memberText p members) after))])
      (by simpa [keys] using distinct)
    have dots : '.' ∈ follow members (memberText p members) after ↔
        (∃ a ∈ memberLeaves members, a.isDotted) ∨ '.' ∈ after := by
      rw [← dot_mem_iff, ← mem_memberText (p := p) foreign_dot members plain₂]
      simp [follow, mem_separator foreign_dot]
    have once : (keys (done ++ (.string s,
        value.reread p (follow members (memberText p members) after)) ::
          rereadMembers p members after)).Nodup := by
      have known := keys_rereadMembers (p := p) members after
      simp only [keys, List.map_append, List.map_cons] at distinct known ⊢
      rwa [known]
    rw [rereadMembers, SameMembers, same_at_key once, first, dots, memberLeaves_string, dotsFirst_string,
      ← dotsFirst_append, ← rest, List.append_assoc, List.singleton_append]

theorem sameElements_reread_iff (p : Platform) :
    ∀ (values : List Value) (_ : PlainElements values) (after : List Char),
      SameElements values (rereadElements p values after) ↔
        DotsFirst (elementLeaves values) ∧
          ('.' ∈ after → ∀ a ∈ elementLeaves values, ¬a.isInteger)
  | [], _, _ => by simp [SameElements, rereadElements, elementLeaves, DotsFirst]
  | value :: values, plain, after => by
    have first := same_reread_iff p value plain.1 (follow values (elementText p values) after)
    have rest := sameElements_reread_iff p values plain.2 after
    have dots : '.' ∈ follow values (elementText p values) after ↔
        (∃ a ∈ elementLeaves values, a.isDotted) ∨ '.' ∈ after := by
      rw [← dot_mem_iff, ← mem_elementText (p := p) foreign_dot values plain.2]
      simp [follow, mem_separator foreign_dot]
    rw [elementLeaves, ← dotsFirst_append, ← rest, ← dots, ← first]
    simp [SameElements, rereadElements]

end

/-! ## Where the strings come from -/

/-- What a computation gives, if it gives anything. -/
def Gives {α : Type} (x : Except Failure α) (Q : α → Prop) : Prop := ∀ a, x = .ok a → Q a

namespace Gives

variable {α β : Type} {x : Except Failure α} {f : α → Except Failure β} {Q : α → Prop}
  {R : β → Prop}

theorem ok {a : α} (h : Q a) : Gives (.ok a) Q := by
  intro a' eq
  cases eq
  exact h

theorem bind (first : Gives x Q) (next : ∀ a, Q a → Gives (f a) R) : Gives (x >>= f) R := by
  intro b eq
  cases x with
  | error e => cases eq
  | ok a => exact next a (first a rfl) b eq

end Gives

theorem mem_elementLeaves {a : Value} {values : List Value} :
    a ∈ elementLeaves values ↔ ∃ value ∈ values, a ∈ value.leaves := by
  induction values with
  | nil => simp [elementLeaves]
  | cons value values ih => simp [elementLeaves, ih]

theorem mem_memberLeaves {a : Value} {members : List (Value × Value)} :
    a ∈ memberLeaves members ↔ ∃ m ∈ members, a ∈ m.1.leaves ∨ a ∈ m.2.leaves := by
  induction members with
  | nil => simp [memberLeaves]
  | cons m members ih => simp [memberLeaves, ih, or_assoc]

/-- Every string of a value is that of a string token. -/
def FromTokens (js : List Char) (tokens : List JsmnToken) (value : Value) : Prop :=
  ∀ s, .string s ∈ value.leaves → ∃ t ∈ tokens, t.type = .string ∧ s = t.slice js

theorem FromTokens.mono {tokens tokens' : List JsmnToken} {value : Value} (sub : tokens ⊆ tokens')
    (h : FromTokens js tokens value) : FromTokens js tokens' value := by
  intro s mem
  obtain ⟨t, there, type, eq⟩ := h s mem
  exact ⟨t, sub there, type, eq⟩

theorem rawset_parts {Q : Value → Prop} {members : List (Value × Value)} {key value : Value}
    (old : ∀ m ∈ members, Q m.1 ∧ Q m.2) (newKey : Q key) (newValue : Q value) :
    ∀ m ∈ rawset members key value, Q m.1 ∧ Q m.2 := by
  intro m mem
  unfold rawset at mem
  split at mem
  · exact old m mem
  · split at mem
    · obtain ⟨m', mem', rfl⟩ := List.mem_map.mp mem
      split
      · exact ⟨(old m' mem').1, newValue⟩
      · exact old m' mem'
    · rcases List.mem_append.mp mem with mem | mem
      · exact old m mem
      · obtain rfl := List.mem_singleton.mp mem
        exact ⟨newKey, newValue⟩

section

variable {parse : Nat → List JsmnToken → Except Failure (Nat × Value)} {tokens : List JsmnToken}

theorem parse_members_from
    (each : ∀ room j, Gives (parse room (tokens.drop j)) fun r => FromTokens js tokens r.2)
    (room size j : Nat) (done : List (Value × Value))
    (old : ∀ m ∈ done, FromTokens js tokens m.1 ∧ FromTokens js tokens m.2) :
    Gives (parse_members parse room tokens size j done) fun r =>
      ∀ m ∈ r.2, FromTokens js tokens m.1 ∧ FromTokens js tokens m.2 := by
  induction size generalizing j done with
  | zero => exact Gives.ok old
  | succ size ih =>
    exact (each room j).bind fun key fromKey =>
      (each (room - 1) _).bind fun value fromValue =>
        ih _ _ (rawset_parts old fromKey fromValue)

theorem parse_elements_from
    (each : ∀ room j, Gives (parse room (tokens.drop j)) fun r => FromTokens js tokens r.2)
    (room size j : Nat) (done : List Value) (old : ∀ value ∈ done, FromTokens js tokens value) :
    Gives (parse_elements parse room tokens size j done) fun r =>
      ∀ value ∈ r.2, FromTokens js tokens value := by
  induction size generalizing j done with
  | zero => exact Gives.ok old
  | succ size ih =>
    refine (each room j).bind fun value fromValue => ih _ _ fun value' mem => ?_
    rcases List.mem_append.mp mem with mem | mem
    · exact old value' mem
    · obtain rfl := List.mem_singleton.mp mem
      exact fromValue

end

theorem primitive_from (t : JsmnToken) (tokens : List JsmnToken) :
    FromTokens js tokens (primitive p js t) := by
  intro s mem
  unfold primitive at mem
  simp only at mem
  split at mem
  · simp [Value.leaves] at mem
  split at mem
  · simp [Value.leaves] at mem
  split at mem
  · simp [Value.leaves] at mem
  split at mem <;> simp [Value.leaves] at mem

theorem push_gives {α : Type} {room n : Nat} {f : Unit → Except Failure α} {Q : α → Prop}
    (next : Gives (f ()) Q) : Gives (push room n >>= f) Q :=
  Gives.bind (Q := fun _ => True) (fun _ _ => trivial) fun _ _ => next

theorem parse_level_from (fuel room : Nat) (tokens : List JsmnToken) :
    Gives (parse_level p js fuel room tokens) fun r => FromTokens js tokens r.2 := by
  induction fuel generalizing room tokens with
  | zero => intro r eq; cases eq
  | succ fuel ih =>
    cases tokens with
    | nil => intro r eq; cases eq
    | cons t tokens =>
      have sub : tokens ⊆ t :: tokens := fun a mem => List.mem_cons_of_mem t mem
      have each : ∀ room j, Gives (parse_level p js fuel room (tokens.drop j)) fun r =>
          FromTokens js tokens r.2 := fun room j r eq =>
        (ih room _ r eq).mono (List.drop_subset j tokens)
      rw [parse_level]
      cases type : t.type with
      | primitive => exact push_gives (Gives.ok (primitive_from t _))
      | string =>
        refine push_gives (Gives.ok ?_)
        intro s mem
        have same : s = t.slice js := by simpa [Value.leaves] using mem
        exact ⟨t, List.mem_cons_self .., type, same⟩
      | object =>
        refine push_gives ((parse_members_from each _ _ _ [] (by simp)).bind fun r from_ => ?_)
        refine Gives.ok fun s mem => ?_
        obtain ⟨m, there, mem⟩ := mem_memberLeaves.mp mem
        rcases mem with mem | mem
        · exact ((from_ m there).1.mono sub) s mem
        · exact ((from_ m there).2.mono sub) s mem
      | array =>
        refine push_gives ((parse_elements_from each _ _ _ [] (by simp)).bind fun r from_ => ?_)
        refine Gives.ok fun s mem => ?_
        obtain ⟨value, there, mem⟩ := mem_elementLeaves.mp mem
        exact ((from_ value there).mono sub) s mem

mutual

/-- A value that is the same has the same strings. -/
theorem Same.strings {s : List Char} :
    ∀ (value w : Value) (_ : Same value w), .string s ∈ value.leaves → .string s ∈ w.leaves
  | .null, _, same, mem => by simp [Value.leaves] at mem
  | .bool _, _, same, mem => by simp [Value.leaves] at mem
  | .integer _, _, same, mem => by simp [Value.leaves] at mem
  | .float _, _, same, mem => by simp [Value.leaves] at mem
  | .other _, _, same, mem => by simp [Value.leaves] at mem
  | .string s', w, same, mem => by
    obtain rfl : w = .string s' := same
    exact mem
  | .array values, w, same, mem => by
    obtain ⟨values', rfl, each⟩ := same
    exact SameElements.strings values values' each mem
  | .table members, w, same, mem => by
    obtain ⟨members', rfl, -, each⟩ := same
    exact SameMembers.strings members members' each mem

theorem SameMembers.strings {s : List Char} :
    ∀ (members members' : List (Value × Value)) (_ : SameMembers members members'),
      .string s ∈ memberLeaves members → .string s ∈ memberLeaves members'
  | [], _, _, mem => by simp [memberLeaves] at mem
  | (k, value) :: members, members', ⟨⟨m, there, key, same⟩, rest⟩, mem => by
    rw [memberLeaves, List.mem_append, List.mem_append] at mem
    rcases mem with (mem | mem) | mem
    · exact mem_memberLeaves.mpr ⟨m, there, Or.inl (Same.strings k m.1 key mem)⟩
    · exact mem_memberLeaves.mpr ⟨m, there, Or.inr (Same.strings value m.2 same mem)⟩
    · exact SameMembers.strings members members' rest mem

theorem SameElements.strings {s : List Char} :
    ∀ (values values' : List Value) (_ : SameElements values values'),
      .string s ∈ elementLeaves values → .string s ∈ elementLeaves values'
  | [], _, _, mem => by simp [elementLeaves] at mem
  | value :: values, _, ⟨w, rest, eq, same, each⟩, mem => by
    subst eq
    rw [elementLeaves, List.mem_append] at mem ⊢
    rcases mem with mem | mem
    · exact Or.inl (Same.strings value w same mem)
    · exact Or.inr (SameElements.strings values rest each mem)

end

/-! ## The round trip -/

/-- Encoding a value, with the slots that there are, and decoding the string it gives. -/
def RoundTrips (p : Platform) (room room' : Nat) (value : Value) : Prop :=
  ∃ out w, json_encode p room value = .ok out ∧ out.overrun = false ∧
    json_decode p room' (cstring out.dest) = .ok w ∧ Same value w

theorem mem_strings {s : List Char} {value : Value} :
    s ∈ value.strings ↔ .string s ∈ value.leaves := by
  simp only [Value.strings, List.mem_filterMap]
  constructor
  · rintro ⟨a, mem, eq⟩
    split at eq
    · cases eq
      exact mem
    · cases eq
  · exact fun mem => ⟨_, mem, rfl⟩

mutual

theorem plain_strings {s : List Char} :
    ∀ (value : Value) (_ : value.Plain), .string s ∈ value.leaves → '\x00' ∉ s
  | .null, _, mem => by simp [Value.leaves] at mem
  | .bool _, _, mem => by simp [Value.leaves] at mem
  | .integer _, _, mem => by simp [Value.leaves] at mem
  | .string s', plain, mem => by
    obtain rfl : s = s' := by simpa [Value.leaves] using mem
    exact plain
  | .array values, plain, mem => plain_elementStrings values plain mem
  | .table members, plain, mem => plain_memberStrings members plain.1 mem

theorem plain_memberStrings {s : List Char} :
    ∀ (members : List (Value × Value)) (_ : PlainMembers members),
      .string s ∈ memberLeaves members → '\x00' ∉ s
  | [], _, mem => by simp [memberLeaves] at mem
  | (k, value) :: members, plain, mem => by
    obtain ⟨⟨key, rfl, null⟩, plain₁, plain₂⟩ := plain
    rw [memberLeaves_string, List.mem_cons, List.mem_append] at mem
    rcases mem with eq | mem | mem
    · exact Value.string.inj eq ▸ null
    · exact plain_strings value plain₁ mem
    · exact plain_memberStrings members plain₂ mem

theorem plain_elementStrings {s : List Char} :
    ∀ (values : List Value) (_ : PlainElements values),
      .string s ∈ elementLeaves values → '\x00' ∉ s
  | [], _, mem => by simp [elementLeaves] at mem
  | value :: values, plain, mem => by
    rcases List.mem_append.mp mem with mem | mem
    · exact plain_strings value plain.1 mem
    · exact plain_elementStrings values plain.2 mem

end

theorem cstring_text {value : Value} (plain : value.Plain) :
    cstring (value.text p) = value.text p := by
  refine cstring_of_not_mem fun mem => ?_
  obtain ⟨s, leaf, null⟩ := (mem_text foreign_null value plain).mp mem
  exact plain_strings value plain leaf null

theorem encoded_dest (value : Value) : (value.encoded p).dest = value.text p := by
  simp [Value.encoded, JsonBuffer.finish, write_dest, Value.text]

theorem encoded_overrun (value : Value) :
    (value.encoded p).overrun = false ↔ Fits (value.pieces p) 0 32 := by
  simp [Value.encoded, write_overrun]

/-- Decoding a text that is split into the tokens of a value. -/
theorem json_decode_needs {value : Value} (plain : value.Plain) (room : Nat)
    (split : p.jsmn (value.text p) = some (value.tokens p 0)) :
    Needs room value.readSlots (json_decode p room (value.text p)) (value.reread p []) := by
  have read := parse_level_needs p (value.text p) value plain _ room 0 [] []
    (by simp) stops_nil (Nat.le_refl _)
  rw [json_decode, cstring_text plain, split]
  rw [List.append_nil] at read
  cases tokens : value.tokens p 0 with
  | nil => cases value <;> simp [Value.tokens] at tokens
  | cons t rest =>
    rw [tokens] at read
    exact read.map (·.2)

/-- A text that is read back as itself would be the text of itself. -/
theorem not_same_text {value : Value} (plain : value.Plain) :
    ¬Same value (.string (value.text p)) := by
  intro same
  cases value with
  | string s =>
    have eq : (Value.string s).text p = s := by simpa [Same] using same
    have length := congrArg List.length eq
    rw [text_string plain, List.length_cons, List.length_append] at length
    omega
  | _ => simp [Same] at same

/-- The strings of a value that comes back are well formed. -/
theorem escaped_of_same {room : Nat} {value w : Value} (plain : value.Plain)
    (splits : p.Splits value) (decoded : json_decode p room (value.text p) = .ok w)
    (same : Same value w) : ∀ s ∈ value.strings, escaped s := by
  intro s mem
  have there := Same.strings value w same (mem_strings.mp mem)
  rw [json_decode, cstring_text plain] at decoded
  split at decoded
  · cases decoded
  · cases decoded
    exact absurd same (not_same_text plain)
  · next tokens _ split =>
    cases read : parse_level p (value.text p) tokens.length room tokens with
    | error e =>
      rw [read] at decoded
      cases decoded
    | ok r =>
      rw [read] at decoded
      cases decoded
      obtain ⟨t, token, type, rfl⟩ := parse_level_from _ _ _ r read s there
      exact splits.strings tokens split t token type

/-- A plain value comes back exactly when each of its strings is well formed between
quotes as it is, no string with a dot comes after an integer, every piece of the text
finds room in the buffer, and the walks stay within the stack. -/
theorem roundTrips_iff {room room' : Nat} {value : Value} (plain : value.Plain)
    (splits : p.Splits value) :
    RoundTrips p room room' value ↔
      (∀ s ∈ value.strings, escaped s) ∧ DotsFirst value.leaves ∧ Fits (value.pieces p) 0 32 ∧
        max value.slots 1 ≤ room ∧ value.readSlots ≤ room' := by
  constructor
  · rintro ⟨out, w, encoded, overrun, decoded, same⟩
    obtain ⟨fits, rfl⟩ := json_encode_needs.ok_iff.mp encoded
    rw [encoded_dest, cstring_text plain] at decoded
    have strings := escaped_of_same plain splits decoded same
    obtain ⟨fits', rfl⟩ := (json_decode_needs plain room' (splits.tokens strings)).ok_iff.mp decoded
    have dots := ((same_reread_iff p value plain []).mp same).1
    exact ⟨strings, dots, (encoded_overrun value).mp overrun, fits, fits'⟩
  · rintro ⟨strings, dots, pieces, fits, fits'⟩
    have same := (same_reread_iff p value plain []).mpr ⟨dots, by simp⟩
    refine ⟨_, _, json_encode_needs.ok_iff.mpr ⟨fits, rfl⟩, (encoded_overrun value).mpr pieces,
      ?_, same⟩
    rw [encoded_dest, cstring_text plain]
    exact (json_decode_needs plain room' (splits.tokens strings)).ok_iff.mpr ⟨fits', rfl⟩

/-- A tokenizer for the texts `[7,"a"]` and, which it refuses, every other one. -/
def small : Platform where
  jsmn text :=
    if text = "[7,\"a\"]".toList then
      some [⟨.array, 0, 7, 2⟩, ⟨.primitive, 1, 2, 0⟩, ⟨.string, 4, 5, 0⟩]
    else none
  printFloat _ := []
  atof _ := 0
  unset := []

theorem roundTrips_small : RoundTrips small 15 15 (.array [.integer 7, .string ['a']]) := by
  have plain : (Value.array [.integer 7, .string ['a']]).Plain := 
    ⟨trivial, (by decide : '\x00' ∉ ['a']), trivial⟩
  have splits : small.Splits (.array [.integer 7, .string ['a']]) := by
    refine ⟨fun _ => rfl, fun tokens split => ?_⟩
    obtain rfl := Option.some.inj split
    decide
  refine (roundTrips_iff plain splits).mpr ⟨by decide, ?_, by decide, by decide, by decide⟩
  simp [DotsFirst, Value.leaves, elementLeaves, Value.isInteger, Value.isDotted]

/-- A quote within a string is not written as an escape sequence. -/
theorem quote_not_roundTrips :
    ¬∀ (p : Platform) (room room' : Nat) (value : Value), value.Plain → p.Splits value →
      max value.slots 1 ≤ room → value.readSlots ≤ room' → RoundTrips p room room' value := by
  intro claim
  have splits : small.Splits (.string ['"']) :=
    ⟨fun strings => absurd (strings ['"'] (by decide)) (by decide), by rintro _ ⟨⟩⟩
  obtain ⟨out, w, encoded, -, decoded, -⟩ := claim small 15 15 (.string ['"'])
    (by decide : '\x00' ∉ ['"']) splits (by decide) (by decide)
  cases encoded
  cases decoded

end Lavril.Json
