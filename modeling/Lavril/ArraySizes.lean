import Lavril.Arrays
import Lavril.Operators

/-!
# Sizes of arrays given by a script

`lv_arrayresize` refuses a negative size. The script functions `array` and `resize` convert
the number they are given to an integer and hand it to the array, whose vector takes an
unsigned size.

`none` as the result is an access outside the storage. How a float is converted and
whether it is negative are parameters.
-/

namespace Lavril

namespace Arrays

/-- The representation of floats. -/
structure Floats where
  toInteger : BitVec 64 → BitVec 64
  negative : BitVec 64 → Bool

variable (F : Floats)

/-- `tointeger`. -/
def tointeger (num : LVObject) : BitVec 64 :=
  match num.unVal with
  | .raw bits => if num.type = .OT_FLOAT then F.toInteger bits else bits
  | .pString _ => 0

/-- Whether a number is below zero. -/
def Negative (num : LVObject) : Prop :=
  match num.unVal with
  | .raw bits => if num.type = .OT_FLOAT then F.negative bits = true else bits.toInt < 0
  | .pString _ => False

/-- What a call comes to: the signed sizes that vectors have taken as unsigned ones, the
error raised, if there is one, and the arrays. -/
structure Outcome where
  converted : List (BitVec 64)
  result : Option (Option String × Arrays)

/-- `LVArray::Create`, of the array `a`. -/
def createArray (w : Arrays) (a : Nat) (nInitialSize : BitVec 64) : Outcome :=
  ⟨[nInitialSize], (LVVector.empty.resize w.memory nInitialSize.toNat .null).map fun r =>
    (none, w.put a r)⟩

/-- `LVArray::Resize`. -/
def resizeArray (w : Arrays) (a : Nat) (size : BitVec 64) (fill : LVObject) : Outcome :=
  ⟨[size], (w.on a fun m v => (LVArray.resize m v size.toInt fill).map (true, ·)).map fun r =>
    (none, r.2)⟩

def throwerror (w : Arrays) (err : String) : Outcome := ⟨[], some (some err, w)⟩

def lv_arrayresize (w : Arrays) (a : Nat) (newsize : BitVec 64) : Outcome :=
  if newsize.toInt ≥ 0 then w.resizeArray a newsize .null else w.throwerror "negative size"

def base_array (w : Arrays) (a : Nat) (size : LVObject) (fill : Option LVObject) : Outcome :=
  match fill with
  | none => w.createArray a (tointeger F size)
  | some fill =>
    match w.createArray a 0 with
    | ⟨converted, some (_, w)⟩ =>
      let o := w.resizeArray a (tointeger F size) fill
      ⟨converted ++ o.converted, o.result⟩
    | failed => failed

def array_resize (w : Arrays) (a : Nat) (nsize : LVObject) (fill : Option LVObject) : Outcome :=
  if isNumeric nsize then w.resizeArray a (tointeger F nsize) (fill.getD .null)
  else w.throwerror "size must be a number"

/-- A call of `array`, which makes the array `a`, or of its method `resize`. -/
inductive SizedCall where
  | array (a : Nat) (size : LVObject) (fill : Option LVObject)
  | resize (a : Nat) (nsize : LVObject) (fill : Option LVObject)

namespace SizedCall

variable (w : Arrays)

/-- The number that is given for the size. -/
def num : SizedCall → LVObject
  | array _ size _ => size
  | resize _ nsize _ => nsize

def target : SizedCall → Nat
  | array a _ _ => a
  | resize a _ _ => a

def perform : SizedCall → Outcome
  | array a size fill => w.base_array F a size fill
  | resize a nsize fill => w.array_resize F a nsize fill

/-- A negative size raises an error and changes nothing, no negative size reaches a vector,
and the sizes refused are those that `lv_arrayresize` refuses. -/
structure Agrees (call : SizedCall) : Prop where
  negative : Negative F call.num → ∃ err, (call.perform F w).result = some (some err, w)
  signed : ∀ size ∈ (call.perform F w).converted, 0 ≤ size.toInt
  refused : (∃ err w', (call.perform F w).result = some (some err, w')) ↔
    ∃ err w', (w.lv_arrayresize call.target (tointeger F call.num)).result = some (some err, w')

variable {F w}

/-- `lv_arrayresize` refuses the negative sizes. -/
theorem lv_arrayresize_refuses_iff (a : Nat) (newsize : BitVec 64) :
    (∃ err w', (w.lv_arrayresize a newsize).result = some (some err, w')) ↔ newsize.toInt < 0 := by
  rw [lv_arrayresize]
  by_cases accepted : newsize.toInt ≥ 0
  · rw [if_pos accepted]
    refine iff_of_false ?_ (by omega)
    rintro ⟨err, w', run⟩
    obtain ⟨r, -, eq⟩ := Option.map_eq_some_iff.mp run
    cases eq
  · rw [if_neg accepted]
    exact iff_of_true ⟨_, w, rfl⟩ (by omega)

theorem resizeArray_accepts (a : Nat) (size : BitVec 64) (fill : LVObject) (err : String)
    (w' : Arrays) : (w.resizeArray a size fill).result ≠ some (some err, w') := by
  intro run
  obtain ⟨r, -, eq⟩ := Option.map_eq_some_iff.mp run
  cases eq

/-- A script's call hands its size to the array, whatever it is. -/
theorem perform_converts (call : SizedCall) (numeric : isNumeric call.num = true) :
    (∀ size ∈ (call.perform F w).converted, size = 0 ∨ size = tointeger F call.num) ∧
    tointeger F call.num ∈ (call.perform F w).converted ∧
    ∀ err w', (call.perform F w).result ≠ some (some err, w') := by
  cases call with
  | array a size fill =>
    cases fill with
    | none =>
      refine ⟨fun n mem => .inr (List.mem_singleton.mp mem), List.mem_singleton_self _, ?_⟩
      intro err w' run
      obtain ⟨r, -, eq⟩ := Option.map_eq_some_iff.mp run
      cases eq
    | some fill =>
      -- no element is constructed in an array of size zero
      have made : w.createArray a 0 = ⟨[0], some (none, w.put a (w.memory, .empty))⟩ := rfl
      have performed : (SizedCall.array a size (some fill)).perform F w =
          ⟨[0] ++ [tointeger F size], ((w.put a (w.memory, .empty)).resizeArray a
            (tointeger F size) fill).result⟩ := by
        rw [perform, base_array, made]
        rfl
      rw [performed]
      refine ⟨fun n mem => ?_, by simp [num], fun err w' => resizeArray_accepts _ _ _ err w'⟩
      simpa [num] using mem
  | resize a nsize fill =>
    have performed : (SizedCall.resize a nsize fill).perform F w =
        w.resizeArray a (tointeger F nsize) (fill.getD .null) := if_pos numeric
    rw [performed]
    exact ⟨fun n mem => .inr (List.mem_singleton.mp mem), List.mem_singleton_self _,
      fun err w' => resizeArray_accepts _ _ _ err w'⟩

/-- The script functions agree with `lv_arrayresize` exactly for the numbers that are not
negative and are not converted to negative integers. -/
theorem array_sizes_agree_iff (call : SizedCall) (numeric : isNumeric call.num = true) :
    call.Agrees F w ↔ ¬ Negative F call.num ∧ 0 ≤ (tointeger F call.num).toInt := by
  obtain ⟨sizes, given, accepts⟩ := @perform_converts F w call numeric
  constructor
  · intro agrees
    refine ⟨fun negative => ?_, agrees.signed _ given⟩
    obtain ⟨err, run⟩ := agrees.negative negative
    exact accepts err w run
  · rintro ⟨notNegative, nonneg⟩
    refine ⟨fun negative => absurd negative notNegative, fun size mem => ?_, ?_⟩
    · rcases sizes size mem with rfl | rfl
      · decide
      · exact nonneg
    · rw [lv_arrayresize_refuses_iff]
      refine iff_of_false ?_ (by omega)
      rintro ⟨err, w', run⟩
      exact accepts err w' run

/-- Floats that are all zero. -/
def zeros : Floats := ⟨fun _ => 0, fun _ => false⟩

theorem array_sizes_agree_three : (SizedCall.array 0 (.integer 3) none).Agrees zeros initial :=
  (array_sizes_agree_iff (.array 0 (.integer 3) none) rfl).mpr
    ⟨show ¬ (3#64).toInt < 0 by decide, show 0 ≤ (3#64).toInt by decide⟩

/-- `array(-1)` asks for 2^64 - 1 elements and raises no error. -/
theorem array_sizes_negative : ¬ (SizedCall.array 0 (.integer (-1)) none).Agrees zeros initial ∧
    ((SizedCall.array 0 (.integer (-1)) none).perform zeros initial).converted = [-1] := by
  refine ⟨fun agrees => ?_, rfl⟩
  exact absurd (agrees.signed (-1) List.mem_cons_self) (by decide)

end SizedCall

end Arrays

end Lavril
