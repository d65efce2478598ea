import Lavril.Frames
import Lavril.JsonEncoding

/-!
# How deep the walks of the JSON module go

Entering a native function leaves `MIN_STACK_OVERHEAD` slots. The encoder takes three
slots or two for each level of a value, the decoder one or two for each level of a text,
and neither asks for more.
-/

namespace Lavril.Json

variable {p : Platform} {js : List Char} {room : Nat}

/-! ## The outline of a text -/

/-- What the tokens say of a text. A part that no token is left for is `missing`. -/
inductive Outline where
  | missing
  | leaf
  | object (members : List (Outline × Outline))
  | array (elements : List Outline)

section

variable (level : List JsmnToken → Nat × Outline)

def outlineMembers (tokens : List JsmnToken) : Nat → Nat → Nat × List (Outline × Outline)
  | 0, j => (j, [])
  | size + 1, j =>
    let (n, key) := level (tokens.drop j)
    let (m, value) := level (tokens.drop (j + n))
    let (j, members) := outlineMembers tokens size (j + n + m)
    (j, (key, value) :: members)

def outlineElements (tokens : List JsmnToken) : Nat → Nat → Nat × List Outline
  | 0, j => (j, [])
  | size + 1, j =>
    let (n, value) := level (tokens.drop j)
    let (j, elements) := outlineElements tokens size (j + n)
    (j, value :: elements)

end

/-- The outline of the first value in a list of tokens, with the number of its tokens. -/
def outline : Nat → List JsmnToken → Nat × Outline
  | fuel + 1, t :: tokens =>
    match t.type with
    | .primitive | .string => (1, .leaf)
    | .object =>
      let (j, members) := outlineMembers (outline fuel) tokens t.size 0
      (j + 1, .object members)
    | .array =>
      let (j, elements) := outlineElements (outline fuel) tokens t.size 0
      (j + 1, .array elements)
  | _, _ => (0, .missing)

mutual

/-- The slots that `parse_level` needs. -/
def Outline.slots : Outline → Nat
  | .missing => 0
  | .leaf => 1
  | .object members => 1 + Outline.memberSlots members
  | .array elements => 1 + Outline.elementSlots elements

/-- A value that is there has its key below it. -/
def Outline.memberSlots : List (Outline × Outline) → Nat
  | [] => 0
  | (key, value) :: members =>
    max (max key.slots (if value.slots = 0 then 0 else value.slots + 1))
      (Outline.memberSlots members)

def Outline.elementSlots : List Outline → Nat
  | [] => 0
  | element :: elements => max element.slots (Outline.elementSlots elements)

end

/-- The slots that the tokens of a text need. -/
def textSlots (p : Platform) (s : List Char) : Nat :=
  match p.jsmn (cstring s) with
  | none => 0
  | some tokens => (outline tokens.length tokens).2.slots

/-- What becomes of a part of a text with so many tokens, so many of which it is given,
which needs so many slots. Where the tokens end too early they have all been read. -/
def Reads {α : Type} (x : Except Failure (Nat × α)) (room given tokens slots : Nat) : Prop :=
  match x with
  | .ok (n, _) => n = tokens ∧ slots ≤ room
  | .error .overflow => room < slots
  | .error .outside => given ≤ tokens ∧ slots ≤ room
  | .error (.raised _) => False

namespace Reads

variable {α β : Type} {x : Except Failure (Nat × α)} {f : Nat × α → Except Failure (Nat × β)}
  {given given' tokens tokens' slots slots' : Nat}

theorem max (read : Reads x room given tokens slots') (fits : slots ≤ room) :
    Reads x room given tokens (max slots slots') := by
  unfold Reads at *
  split at read
  · exact ⟨read.1, Nat.max_le.mpr ⟨fits, read.2⟩⟩
  · exact Nat.lt_of_lt_of_le read (Nat.le_max_right _ _)
  · exact ⟨read.1, Nat.max_le.mpr ⟨fits, read.2⟩⟩
  · exact read

/-- One part after another. Behind the last token there is nothing to read. -/
theorem bind (first : Reads x room given tokens slots)
    (next : ∀ a, Reads (f (tokens, a)) room given' tokens' slots')
    (late : given ≤ tokens → given' ≤ tokens' ∧ slots' = 0) :
    Reads (x >>= f) room given' tokens' (Nat.max slots slots') := by
  cases x with
  | ok r =>
    obtain ⟨rfl, fits⟩ := first
    exact (next r.2).max fits
  | error failure =>
    cases failure with
    | overflow => exact Nat.lt_of_lt_of_le first (Nat.le_max_left _ _)
    | outside =>
      obtain ⟨past, none⟩ := late first.1
      exact ⟨past, by rw [none]; exact Nat.max_le.mpr ⟨first.2, Nat.zero_le _⟩⟩
    | raised _ => exact first.elim

/-- What is read on top of one value. -/
theorem above (read : Reads x (room - 1) given tokens slots) :
    Reads x room given tokens (if slots = 0 then 0 else slots + 1) := by
  unfold Reads at *
  split at read
  · exact ⟨read.1, by split <;> omega⟩
  · split <;> omega
  · exact ⟨read.1, by split <;> omega⟩
  · exact read

/-- The container and, on top of it, its parts. -/
theorem container (make : α → Value) (fits : 1 ≤ room)
    (read : Reads x (room - 1) given tokens slots) :
    Reads (x >>= fun r => pure (r.1 + 1, make r.2)) room (given + 1) (tokens + 1) (1 + slots) := by
  cases x with
  | ok r => exact ⟨congrArg (· + 1) read.1, by have := read.2; omega⟩
  | error failure =>
    cases failure with
    | overflow => exact (by have : room - 1 < slots := read; omega : room < 1 + slots)
    | outside => exact ⟨Nat.succ_le_succ read.1, by have := read.2; omega⟩
    | raised _ => exact read

/-- What starts with a push needs a slot. -/
theorem pushed {k : Unit → Except Failure (Nat × α)} (pos : 1 ≤ slots)
    (next : 1 ≤ room → Reads (k ()) room given tokens slots) :
    Reads (push room 1 >>= k) room given tokens slots := by
  by_cases fits : 1 ≤ room
  · rw [push, if_pos fits]
    exact next fits
  · rw [push, if_neg fits]
    exact (by omega : room < slots)

end Reads

/-! ## Behind the last token -/

section

variable {level : List JsmnToken → Nat × Outline} {tokens : List JsmnToken}

theorem outlineMembers_past (nothing : level [] = (0, .missing)) (size : Nat) {j : Nat}
    (past : tokens.length ≤ j) :
    (outlineMembers level tokens size j).1 = j ∧
      Outline.memberSlots (outlineMembers level tokens size j).2 = 0 := by
  have none : level (tokens.drop j) = (0, .missing) := by
    rw [List.drop_eq_nil_of_le past, nothing]
  induction size with
  | zero => exact ⟨rfl, rfl⟩
  | succ size ih =>
    simp only [outlineMembers, none, Nat.add_zero, Outline.memberSlots, Outline.slots, ih]
    simp

theorem outlineElements_past (nothing : level [] = (0, .missing)) (size : Nat) {j : Nat}
    (past : tokens.length ≤ j) :
    (outlineElements level tokens size j).1 = j ∧
      Outline.elementSlots (outlineElements level tokens size j).2 = 0 := by
  have none : level (tokens.drop j) = (0, .missing) := by
    rw [List.drop_eq_nil_of_le past, nothing]
  induction size with
  | zero => exact ⟨rfl, rfl⟩
  | succ size ih =>
    simp only [outlineElements, none, Nat.add_zero, Outline.elementSlots, Outline.slots, ih]
    simp

/-! ## Reading the tokens -/

variable {parse : Nat → List JsmnToken → Except Failure (Nat × Value)}

theorem parse_members_reads (nothing : level [] = (0, .missing))
    (each : ∀ room j, Reads (parse room (tokens.drop j)) room (tokens.drop j).length
      (level (tokens.drop j)).1 (level (tokens.drop j)).2.slots)
    (room size j : Nat) (members : List (Value × Value)) :
    Reads (parse_members parse room tokens size j members) room tokens.length
      (outlineMembers level tokens size j).1
      (Outline.memberSlots (outlineMembers level tokens size j).2) := by
  induction size generalizing j members with
  | zero => exact ⟨rfl, Nat.zero_le _⟩
  | succ size ih =>
    rw [parse_members, outlineMembers, Outline.memberSlots, Nat.max_assoc]
    have behind : ∀ {n j : Nat}, (tokens.drop j).length ≤ n → tokens.length ≤ j + n := by
      intro n j past
      rw [List.length_drop] at past
      omega
    refine (each room j).bind (fun key => ?_) fun past => ?_
    · refine (each (room - 1) _).above.bind (fun value => ih _ _) fun past => ?_
      obtain ⟨same, none⟩ := outlineMembers_past nothing size (behind past)
      exact ⟨by rw [same]; exact behind past, none⟩
    · have value : level (tokens.drop (j + (level (tokens.drop j)).1)) = (0, .missing) := by
        rw [List.drop_eq_nil_of_le (behind past), nothing]
      obtain ⟨same, none⟩ := outlineMembers_past nothing size (behind past)
      simp only [value, Nat.add_zero, Outline.slots, if_pos, same, none]
      exact ⟨behind past, Nat.max_self 0⟩

theorem parse_elements_reads (nothing : level [] = (0, .missing))
    (each : ∀ room j, Reads (parse room (tokens.drop j)) room (tokens.drop j).length
      (level (tokens.drop j)).1 (level (tokens.drop j)).2.slots)
    (room size j : Nat) (values : List Value) :
    Reads (parse_elements parse room tokens size j values) room tokens.length
      (outlineElements level tokens size j).1
      (Outline.elementSlots (outlineElements level tokens size j).2) := by
  induction size generalizing j values with
  | zero => exact ⟨rfl, Nat.zero_le _⟩
  | succ size ih =>
    rw [parse_elements, outlineElements, Outline.elementSlots]
    refine (each room j).bind (fun value => ih _ _) fun past => ?_
    have past' : tokens.length ≤ j + (level (tokens.drop j)).1 := by
      rw [List.length_drop] at past; omega
    obtain ⟨same, none⟩ := outlineElements_past nothing size past'
    exact ⟨by rw [same]; exact past', none⟩

end

theorem parse_level_reads (js : List Char) (fuel room : Nat) (tokens : List JsmnToken)
    (enough : tokens.length ≤ fuel) :
    Reads (parse_level p js fuel room tokens) room tokens.length (outline fuel tokens).1
      (outline fuel tokens).2.slots := by
  induction fuel generalizing room tokens with
  | zero =>
    obtain rfl := List.length_eq_zero_iff.mp (Nat.le_zero.mp enough)
    exact ⟨Nat.zero_le _, Nat.zero_le _⟩
  | succ fuel ih =>
    cases tokens with
    | nil => exact ⟨Nat.zero_le _, Nat.zero_le _⟩
    | cons t tokens =>
      have nothing : outline fuel [] = (0, .missing) := by cases fuel <;> rfl
      have each : ∀ room j, Reads (parse_level p js fuel room (tokens.drop j)) room
          (tokens.drop j).length (outline fuel (tokens.drop j)).1
          (outline fuel (tokens.drop j)).2.slots := by
        intro room j
        refine ih room (tokens.drop j) ?_
        rw [List.length_drop]
        simp only [List.length_cons] at enough
        omega
      rw [parse_level, outline]
      cases t.type with
      | primitive => exact Reads.pushed (Nat.le_refl 1) fun fits => ⟨rfl, fits⟩
      | string => exact Reads.pushed (Nat.le_refl 1) fun fits => ⟨rfl, fits⟩
      | object =>
        have loop := fun room => parse_members_reads nothing each room t.size 0 []
        simp only [Outline.slots]
        exact Reads.pushed (Nat.le_add_right 1 _) fun fits => (loop _).container .table fits
      | array =>
        have loop := fun room => parse_elements_reads nothing each room t.size 0 []
        simp only [Outline.slots]
        exact Reads.pushed (Nat.le_add_right 1 _) fun fits => (loop _).container .array fits

/-! ## The room that is needed -/

theorem json_encode_overflow {value : Value} :
    json_encode p room value = .error .overflow ↔ room < max value.slots 1 :=
  json_encode_needs.overflow_iff

theorem json_decode_overflow {s : List Char} :
    json_decode p room s = .error .overflow ↔ room < textSlots p s := by
  simp only [json_decode, textSlots]
  cases p.jsmn (cstring s) with
  | none => simp
  | some tokens =>
    cases tokens with
    | nil => simp [outline, Outline.slots]
    | cons t tokens =>
      have read := parse_level_reads (p := p) (cstring s) _ room (t :: tokens) (Nat.le_refl _)
      unfold Reads at read
      split at read <;> simp_all [Except.map]

end Lavril.Json

namespace Lavril

namespace LVVM

/-- The slots from `_top` to the end of the stack. -/
def room (v : LVVM) : Nat := (v.stacksize - v.top).toNat

theorem enterFrame_room {v v' : LVVM} {newbase newtop : Int}
    (run : v.enterFrame newbase newtop false = some v') : MIN_STACK_OVERHEAD ≤ v'.room := by
  have top := (enterFrame_spec run).top
  simp only [enterFrame, Bool.false_eq_true, if_false, Option.bind_some] at run
  unfold room
  split at run
  · split at run
    · cases run
    · cases run
      simp only [nullSlots, pushFrame, MIN_STACK_OVERHEAD]
      omega
  · cases run
    simp only [pushFrame, MIN_STACK_OVERHEAD] at *
    omega

/-- A frame without arguments that ends `MIN_STACK_OVERHEAD` slots below the end of the
stack. -/
def full : LVVM where
  stack _ := .null
  stacksize := MIN_STACK_OVERHEAD
  stackbase := 0
  top := 0
  callsstack := []
  alloccallsstacksize := 4
  nmetamethodscall := 0
  nnativecalls := 0
  etraps := []
  openouters := []
  heap _ := none
  next := 0

theorem full_enterFrame : full.enterFrame 0 0 false = some (full.pushFrame 0 0) := by
  simp [enterFrame, full, pushFrame]

end LVVM

namespace Json

/-- A native function that fails with no push outside the stack, whatever frame it has
been entered in. -/
def WithinFrame {α : Type} (native : Nat → Except Failure α) : Prop :=
  ∀ (v v' : LVVM) (newbase newtop : Int), v.enterFrame newbase newtop false = some v' →
    native v'.room ≠ .error .overflow

theorem withinFrame_iff {α : Type} {native : Nat → Except Failure α} {slots : Nat}
    (overflow : ∀ room, native room = .error .overflow ↔ room < slots) :
    WithinFrame native ↔ slots ≤ MIN_STACK_OVERHEAD := by
  constructor
  · intro within
    have fits := within _ _ 0 0 LVVM.full_enterFrame
    rw [Ne, overflow] at fits
    have room : (LVVM.full.pushFrame 0 0).room = 15 := rfl
    rw [room] at fits
    rw [MIN_STACK_OVERHEAD]
    omega
  · intro fits v v' newbase newtop run failed
    have room := LVVM.enterFrame_room run
    rw [overflow] at failed
    omega

/-- The slots that a value and a text need at their deepest point are all that decides. -/
theorem pushes_within_iff (p : Platform) :
    (∀ value, WithinFrame (json_encode p · value) ↔ value.slots ≤ MIN_STACK_OVERHEAD) ∧
      ∀ s, WithinFrame (json_decode p · s) ↔ textSlots p s ≤ MIN_STACK_OVERHEAD := by
  constructor
  · intro value
    have overflow : ∀ room, json_encode p room value = .error .overflow ↔
        room < max value.slots 1 := fun _ => json_encode_overflow
    rw [withinFrame_iff overflow, MIN_STACK_OVERHEAD]
    omega
  · intro s
    exact withinFrame_iff fun _ => json_decode_overflow

/-- Arrays within arrays, the innermost one empty. -/
def nested : Nat → Value
  | 0 => .array []
  | n + 1 => .array [nested n]

theorem nested_slots (n : Nat) : (nested n).slots = 3 * n + 1 := by
  induction n with
  | zero => rfl
  | succ n ih =>
    simp only [nested, Value.slots, elementSlots, ih]
    omega

/-- Six levels need one slot more than there are. -/
theorem nested_overflow : ¬∀ p value, WithinFrame (json_encode p · value) := by
  intro within
  have fits := within ⟨fun _ => none, fun _ => [], fun _ => 0, []⟩ (nested 5) _ _ 0 0
    LVVM.full_enterFrame
  exact fits rfl

end Json

end Lavril
