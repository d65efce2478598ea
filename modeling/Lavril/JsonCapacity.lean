import Lavril.JsonText
import Mathlib.Data.Nat.Log

/-!
# The memory of the encoder

The buffer starts with 32 bytes and is doubled at most once for a reservation. So it has,
as long as nothing was written behind it, the least capacity of that kind that covers what
was reserved so far, and the bytes that are not reserved must lie within that.
-/

namespace Lavril.Json

/-- The least of 32, 64, 128 and so on that is not less than a number. -/
def capacity (n : Nat) : Nat := 32 * 2 ^ Nat.clog 2 ((n + 31) / 32)

theorem capacity_le_iff {n k : Nat} : capacity n ≤ 32 * 2 ^ k ↔ n ≤ 32 * 2 ^ k := by
  have exponent : capacity n ≤ 32 * 2 ^ k ↔ Nat.clog 2 ((n + 31) / 32) ≤ k := by
    rw [capacity, Nat.mul_le_mul_left_iff (by decide), Nat.pow_le_pow_iff_right (by decide)]
  rw [exponent, Nat.clog_le_iff_le_pow (by decide)]
  omega

theorem le_capacity (n : Nat) : n ≤ capacity n := capacity_le_iff.mp (le_refl (capacity n))

theorem capacity_pos (n : Nat) : 32 ≤ capacity n := by
  have := Nat.one_le_two_pow (n := Nat.clog 2 ((n + 31) / 32))
  rw [capacity]
  omega

theorem capacity_mono {m n : Nat} (le : m ≤ n) : capacity m ≤ capacity n :=
  capacity_le_iff.mpr (le_trans le (le_capacity n))

/-- What is reserved within the capacity leaves it as it is. -/
theorem capacity_max_of_le {m n : Nat} (le : n ≤ capacity m) : capacity (max m n) = capacity m := by
  refine le_antisymm ?_ (capacity_mono (le_max_left m n))
  exact capacity_le_iff.mpr (max_le (le_capacity m) le)

/-- What is reserved behind the capacity, but not behind twice of it, doubles it. -/
theorem capacity_max_of_lt {m n : Nat} (lt : capacity m < n) (le : n ≤ 2 * capacity m) :
    capacity (max m n) = capacity m * 2 := by
  have double : capacity m * 2 = 32 * 2 ^ (Nat.clog 2 ((m + 31) / 32) + 1) := by
    rw [capacity, pow_succ, Nat.mul_assoc]
  refine le_antisymm ?_ ?_
  · rw [double]
    refine capacity_le_iff.mpr (max_le ?_ ?_)
    · have := le_capacity m
      omega
    · omega
  · -- a capacity that is larger is at least twice as large
    have more : capacity m < capacity (max m n) :=
      lt_of_lt_of_le lt (le_trans (le_max_right m n) (le_capacity _))
    rw [capacity, capacity, Nat.mul_lt_mul_left (by decide), Nat.pow_lt_pow_iff_right (by decide)] at more
    rw [double]
    exact Nat.mul_le_mul_left 32 (Nat.pow_le_pow_right (by decide) more)

/-! ## Pieces -/

def written (pieces : List Piece) : Nat := (textOf pieces).length

/-- Where the farthest reservation ends, for pieces from a position on. -/
def reservedFrom : Nat → List Piece → Nat
  | _, [] => 0
  | pos, .reserve sz :: pieces => max (pos + sz) (reservedFrom pos pieces)
  | pos, .text s :: pieces => reservedFrom (pos + s.length) pieces

def reserved (pieces : List Piece) : Nat := reservedFrom 0 pieces

variable {before pieces pieces' : List Piece} {pos sz : Nat} {s : List Char}

@[simp] theorem written_append : written (pieces ++ pieces') = written pieces + written pieces' := by
  simp [written]

theorem reservedFrom_append :
    reservedFrom pos (pieces ++ pieces') =
      max (reservedFrom pos pieces) (reservedFrom (pos + written pieces) pieces') := by
  induction pieces generalizing pos with
  | nil => simp [reservedFrom, written]
  | cons piece pieces ih =>
    cases piece with
    | reserve sz => simp [reservedFrom, ih, written, Nat.max_assoc]
    | text s => simp [reservedFrom, ih, written, Nat.add_assoc]

theorem reserved_reserve :
    reserved (before ++ [.reserve sz]) = max (reserved before) (written before + sz) := by
  simp [reserved, reservedFrom_append, reservedFrom]

theorem reserved_text : reserved (before ++ [.text s]) = reserved before := by
  simp [reserved, reservedFrom_append, reservedFrom]

/-- A reservation reaches at most to twice the capacity for those before it, and what is
written stays within that capacity. -/
def Piece.FitsAfter (before : List Piece) : Piece → Prop
  | .reserve sz => written before + sz ≤ 2 * capacity (reserved before)
  | .text s => written before + s.length ≤ capacity (reserved before)

/-- Every piece of a text fits after those before it, and so does the character that ends
the text. -/
structure InBounds (pieces : List Piece) : Prop where
  each {before piece after} : pieces = before ++ piece :: after → piece.FitsAfter before
  finish : written pieces < capacity (reserved pieces)

/-- What is written up to the next reservation. -/
def upcoming : List Piece → Nat
  | .text s :: pieces => s.length + upcoming pieces
  | _ => 0

/-- What is reserved is little, or is then written. -/
def Honest : List Piece → Prop
  | [] => True
  | .reserve sz :: pieces => (sz ≤ 32 ∨ sz ≤ upcoming pieces) ∧ Honest pieces
  | .text _ :: pieces => Honest pieces

theorem upcoming_append (pieces pieces' : List Piece) :
    upcoming pieces ≤ upcoming (pieces ++ pieces') := by
  induction pieces with
  | nil => exact Nat.zero_le _
  | cons piece pieces ih =>
    cases piece with
    | reserve sz => exact Nat.zero_le _
    | text s =>
      rw [List.cons_append, upcoming, upcoming]
      omega

theorem Honest.append (first : Honest pieces) (rest : Honest pieces') : Honest (pieces ++ pieces') := by
  induction pieces with
  | nil => exact rest
  | cons piece pieces ih =>
    cases piece with
    | reserve sz =>
      have more := upcoming_append pieces pieces'
      refine ⟨first.1.imp_right fun le => le_trans le more, ih first.2⟩
    | text s => exact ih first

theorem fits_upcoming {allocated : Nat} (fits : Fits pieces pos allocated) (le : pos ≤ allocated) :
    pos + upcoming pieces ≤ allocated := by
  induction pieces generalizing pos with
  | nil => exact le
  | cons piece pieces ih =>
    cases piece with
    | reserve sz => exact le
    | text s =>
      have rest := ih fits.2 fits.1
      rw [upcoming]
      omega

theorem split_cons {piece : Piece} {C : List Piece → Piece → Prop} :
    (∀ mid p after, piece :: pieces = mid ++ p :: after → C (before ++ mid) p) ↔
      C before piece ∧
        ∀ mid p after, pieces = mid ++ p :: after → C ((before ++ [piece]) ++ mid) p := by
  constructor
  · intro each
    refine ⟨?_, fun mid p after eq => ?_⟩
    · have here := each [] piece pieces rfl
      rwa [List.append_nil] at here
    · have later := each (piece :: mid) p after (by rw [eq, List.cons_append])
      rwa [List.append_assoc, List.singleton_append]
  · rintro ⟨here, later⟩ mid p after eq
    cases mid with
    | nil =>
      cases eq
      rwa [List.append_nil]
    | cons first mid =>
      cases eq
      have rest := later mid p after rfl
      rwa [List.append_assoc, List.singleton_append] at rest

/-- The buffer has the capacity for what is reserved when the rest is written. -/
theorem fits_iff (honest : Honest pieces) (inside : written before ≤ capacity (reserved before)) :
    Fits pieces (written before) (capacity (reserved before)) ↔
      (∀ mid piece after, pieces = mid ++ piece :: after → piece.FitsAfter (before ++ mid)) ∧
        written (before ++ pieces) < capacity (reserved (before ++ pieces)) := by
  induction pieces generalizing before with
  | nil =>
    rw [List.append_nil, Fits]
    refine (and_iff_right fun mid piece after eq => ?_).symm
    simp at eq
  | cons piece pieces ih =>
    have joined : before ++ piece :: pieces = (before ++ [piece]) ++ pieces := by simp
    rw [split_cons (C := fun before piece => piece.FitsAfter before), joined, and_assoc]
    cases piece with
    | reserve sz =>
      have none : written (before ++ [.reserve sz]) = written before := by simp [written]
      rw [Fits, Piece.FitsAfter]
      by_cases near : written before + sz ≤ 2 * capacity (reserved before)
      · have allocated : (if written before + sz > capacity (reserved before) then
            capacity (reserved before) * 2 else capacity (reserved before)) =
            capacity (reserved (before ++ [.reserve sz])) := by
          rw [reserved_reserve]
          split
          · rename_i more
            exact (capacity_max_of_lt more near).symm
          · rename_i enough
            exact (capacity_max_of_le (by omega)).symm
        have rest := @ih (before ++ [.reserve sz]) honest.2 (by
          rw [none, reserved_reserve]
          exact le_trans inside (capacity_mono (le_max_left _ _)))
        rw [none] at rest
        rw [allocated, rest]
        exact (and_iff_right near).symm
      · refine iff_of_false (fun fits => near ?_) fun h => near h.1
        rw [if_pos (by omega)] at fits
        have room := capacity_pos (reserved before)
        have later := fits_upcoming fits (by omega)
        rcases honest.1 with little | then_ <;> omega
    | text s =>
      have more : written (before ++ [.text s]) = written before + s.length := by simp [written]
      rw [Fits, Piece.FitsAfter]
      refine and_congr_right fun near => ?_
      have rest := @ih (before ++ [.text s]) honest (by rw [more, reserved_text]; exact near)
      rw [more, reserved_text] at rest
      exact rest

/-! ## Values -/

theorem honest_quoted (s : List Char) : Honest (quoted s) := by
  refine ⟨.inr ?_, trivial⟩
  simp only [upcoming]
  omega

theorem honest_plain (text : List Char) : Honest (plain text) := ⟨.inr (Nat.le_refl _), trivial⟩

theorem honest_text (s : List Char) : Honest [.text s] := trivial

theorem honest_separator {α : Type} (rest : List α) : Honest (separator rest) := by
  rw [separator]
  split
  · trivial
  · trivial

mutual

theorem honest_pieces (p : Platform) : ∀ value : Value, Honest (value.pieces p)
  | .null => ⟨.inl (by decide), trivial⟩
  | .other _ => trivial
  | .bool _ => honest_plain _
  | .integer _ => honest_plain _
  | .float _ => honest_plain _
  | .string s => honest_quoted s
  | .array values =>
    ⟨.inl (by decide), (honest_elements p values).append (honest_text [']'])⟩
  | .table members =>
    ⟨.inl (by decide), (honest_members p members p.unset).append (honest_text ['}'])⟩

theorem honest_members (p : Platform) :
    ∀ (members : List (Value × Value)) (key : List Char), Honest (memberPieces p members key)
  | [], _ => trivial
  | (_, value) :: members, _ =>
    (honest_quoted _).append (((honest_pieces p value).append (honest_separator members)).append
      (honest_members p members _))

theorem honest_elements (p : Platform) : ∀ values : List Value, Honest (elementPieces p values)
  | [] => trivial
  | value :: values =>
    ((honest_pieces p value).append (honest_separator values)).append (honest_elements p values)

end

variable {p : Platform}

/-- Nothing is written behind the buffer. -/
def WritesInside (p : Platform) (value : Value) : Prop :=
  ∀ room out, json_encode p room value = .ok out → out.overrun = false

/-- The encoder writes inside its buffer exactly if every reservation and everything that is
written fits into the capacity that the reservations before it make. -/
theorem writesInside_iff (p : Platform) (value : Value) :
    WritesInside p value ↔ InBounds (value.pieces p) := by
  have encoded : WritesInside p value ↔ (value.encoded p).overrun = false := by
    constructor
    · intro inside
      exact inside (max value.slots 1) _ (json_encode_needs.ok_iff.mpr ⟨le_refl _, rfl⟩)
    · intro inside room out run
      obtain ⟨-, rfl⟩ := json_encode_needs.ok_iff.mp run
      exact inside
  have start : capacity (reserved []) = 32 := by
    rw [reserved, reservedFrom, capacity, Nat.clog_of_right_le_one (by decide), pow_zero, Nat.mul_one]
  have fits : Fits (value.pieces p) (written []) (capacity (reserved [])) ↔ _ :=
    fits_iff (honest_pieces p value) (Nat.zero_le _)
  rw [start] at fits
  rw [encoded, Value.encoded, write_overrun]
  refine (and_iff_right rfl).trans (fits.trans ⟨fun h => ⟨h.1 _ _ _, h.2⟩, fun h => ⟨?_, h.finish⟩⟩)
  exact fun mid piece after eq => h.each eq

/-- A string of thirty-one characters takes thirty-three bytes with its quotes. -/
theorem string_overruns : ¬∀ (p : Platform) (value : Value), WritesInside p value := by
  intro inside
  have p : Platform := ⟨fun _ => none, fun _ => [], fun _ => 0, []⟩
  have run : json_encode p 1 (.string (List.replicate 31 'a')) =
      .ok ((Value.string (List.replicate 31 'a')).encoded p) := rfl
  have overruns : ((Value.string (List.replicate 31 'a')).encoded p).overrun = true := rfl
  have none := inside p _ 1 _ run
  rw [overruns] at none
  cases none

end Lavril.Json
