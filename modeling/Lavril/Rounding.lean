import Mathlib.Algebra.Order.Field.Power
import Mathlib.Algebra.Order.Floor.Ring
import Mathlib.Data.Int.Log
import Mathlib.Data.Rat.Floor
import Mathlib.Tactic.Linarith
import Mathlib.Tactic.Ring

/-!
# Rounding to a binary format

Numbers that are not negative are rounded to the nearest number of a format, from the middle
to the even one. What would round to `2 ^ maxExp` or more is infinite.
-/

namespace Rounding

/-- The nearest integer. -/
def toEven (x : ℚ) : ℤ :=
  if x - ⌊x⌋ < 1 / 2 then ⌊x⌋ else if 1 / 2 < x - ⌊x⌋ then ⌊x⌋ + 1 else ⌊x⌋ + ⌊x⌋ % 2

theorem toEven_error (x : ℚ) : |(toEven x : ℚ) - x| ≤ 1 / 2 := by
  have low := Int.floor_le x
  have high := Int.lt_floor_add_one x
  rw [abs_le]
  unfold toEven
  split_ifs with down up
  · constructor <;> linarith
  · push_cast
    constructor <;> linarith
  · rcases Int.emod_two_eq_zero_or_one ⌊x⌋ with even | odd
    · rw [even]
      push_cast
      constructor <;> linarith
    · rw [odd]
      push_cast
      constructor <;> linarith

@[simp] theorem toEven_intCast (k : ℤ) : toEven k = k := by simp [toEven]

/-- No integer is nearer. -/
theorem toEven_nearest (x : ℚ) (k : ℤ) : |(toEven x : ℚ) - x| ≤ |(k : ℚ) - x| := by
  by_cases same : toEven x = k
  · rw [same]
  · have apart : (1 : ℚ) ≤ |(toEven x : ℚ) - k| := by
      have : 1 ≤ |toEven x - k| := Int.one_le_abs (sub_ne_zero.mpr same)
      exact_mod_cast this
    have error := toEven_error x
    have triangle := abs_sub_le (toEven x : ℚ) x k
    rw [abs_sub_comm x] at triangle
    linarith

structure Format where
  precision : ℕ
  minExp : ℤ
  maxExp : ℤ
  positive : 0 < precision

def binary32 : Format := ⟨24, -149, 128, by decide⟩

def binary64 : Format := ⟨53, -1074, 1024, by decide⟩

namespace Format

variable (f : Format) (q : ℚ)

/-- The exponent of the last place. -/
def exponent : ℤ := max f.minExp (Int.log 2 q - (f.precision - 1))

/-- A number in that place. -/
def place : ℚ := toEven (q / 2 ^ f.exponent q) * 2 ^ f.exponent q

def round : WithTop ℚ := if f.place q < 2 ^ f.maxExp then f.place q else ⊤

/-- From a number that is rounded to another format. -/
def convert : WithTop ℚ → WithTop ℚ
  | ⊤ => ⊤
  | (v : ℚ) => f.round v

/-- The numbers of the format, their size apart. -/
def Represents (v : ℚ) : Prop :=
  ∃ k e : ℤ, v = k * 2 ^ e ∧ 0 ≤ k ∧ k ≤ 2 ^ f.precision ∧ f.minExp ≤ e

variable {f q}

theorem scale_pos (e : ℤ) : (0 : ℚ) < 2 ^ e := zpow_pos (by norm_num) e

theorem lt_scale (nonneg : 0 ≤ q) : q < 2 ^ (f.exponent q + f.precision) := by
  rcases nonneg.eq_or_lt with rfl | positive
  · exact scale_pos _
  · have log := Int.lt_zpow_succ_log_self (b := 2) (by decide) q
    refine log.trans_le (zpow_le_zpow_right₀ (by norm_num) ?_)
    have := le_max_right f.minExp (Int.log 2 q - (f.precision - 1))
    unfold exponent
    omega

/-- Above the least exponent the place is chosen by the first digit. -/
theorem scale_le (normal : f.minExp < f.exponent q) (positive : 0 < q) :
    2 ^ (f.exponent q + (f.precision - 1)) ≤ q := by
  have log := Int.zpow_log_le_self (b := 2) (by decide) positive
  have chosen : f.exponent q = Int.log 2 q - (f.precision - 1) := by
    unfold exponent at normal ⊢
    omega
  rwa [chosen, sub_add_cancel]

theorem represents_place (nonneg : 0 ≤ q) : f.Represents (f.place q) := by
  have scale := scale_pos (f.exponent q)
  refine ⟨toEven (q / 2 ^ f.exponent q), f.exponent q, rfl, ?_, ?_, le_max_left _ _⟩
  · have below := toEven_nearest (q / 2 ^ f.exponent q) 0
    have quotient : 0 ≤ q / 2 ^ f.exponent q := by positivity
    by_contra negative
    have one : (toEven (q / 2 ^ f.exponent q) : ℚ) ≤ -1 := by
      exact_mod_cast Int.le_sub_one_of_lt (not_le.mp negative)
    have error := (abs_le.mp (toEven_error (q / 2 ^ f.exponent q))).1
    linarith
  · have small : q / 2 ^ f.exponent q < 2 ^ f.precision := by
      rw [div_lt_iff₀ scale, ← zpow_natCast, ← zpow_add₀ (by norm_num), add_comm]
      exact lt_scale nonneg
    have error := (abs_le.mp (toEven_error (q / 2 ^ f.exponent q))).2
    have : (toEven (q / 2 ^ f.exponent q) : ℚ) < 2 ^ f.precision + 1 := by linarith
    have : toEven (q / 2 ^ f.exponent q) < 2 ^ f.precision + 1 := by exact_mod_cast this
    omega

/-- No number of the format is nearer. -/
theorem place_nearest {w : ℚ} (nonneg : 0 ≤ q) (represents : f.Represents w) :
    |f.place q - q| ≤ |w - q| := by
  obtain ⟨k, e, rfl, -, le, least⟩ := represents
  have scale := scale_pos (f.exponent q)
  have scaled : ∀ x : ℚ, |x * 2 ^ f.exponent q - q| = |x - q / 2 ^ f.exponent q| * 2 ^ f.exponent q := by
    intro x
    rw [← abs_of_pos scale, ← abs_mul, abs_of_pos scale, sub_mul, div_mul_cancel₀ q scale.ne']
  have nearest := toEven_nearest (q / 2 ^ f.exponent q)
  rw [place, scaled]
  by_cases coarse : f.exponent q ≤ e
  · obtain ⟨n, rfl⟩ := Int.le.dest coarse
    have multiple : (k : ℚ) * 2 ^ (f.exponent q + n) = ((k * 2 ^ n : ℤ) : ℚ) * 2 ^ f.exponent q := by
      rw [zpow_add₀ (by norm_num), zpow_natCast]
      push_cast
      ring
    rw [multiple, scaled]
    exact mul_le_mul_of_nonneg_right (nearest _) scale.le
  · rcases nonneg.eq_or_lt with rfl | positive
    · have zero : (toEven (0 / 2 ^ f.exponent 0) : ℚ) = 0 := by simp [toEven]
      rw [zero, zero_div, sub_zero, abs_zero, zero_mul]
      exact abs_nonneg _
    have first := scale_le (lt_of_le_of_lt least (not_le.mp coarse)) positive
    have split : (2 : ℚ) ^ (f.exponent q + (f.precision - 1 : ℤ)) =
        ((2 ^ (f.precision - 1) : ℤ) : ℚ) * 2 ^ f.exponent q := by
      have exponents : (f.precision : ℤ) - 1 = (f.precision - 1 : ℕ) := by
        have := f.positive
        omega
      rw [exponents, zpow_add₀ (by norm_num), zpow_natCast, mul_comm]
      push_cast
      rfl
    have below : (k : ℚ) * 2 ^ e ≤ 2 ^ (f.exponent q + (f.precision - 1 : ℤ)) := by
      have bound : (k : ℚ) ≤ 2 ^ (f.precision : ℤ) := by exact_mod_cast le
      calc (k : ℚ) * 2 ^ e
        _ ≤ 2 ^ (f.precision : ℤ) * 2 ^ e := mul_le_mul_of_nonneg_right bound (scale_pos e).le
        _ = 2 ^ ((f.precision : ℤ) + e) := (zpow_add₀ (by norm_num) _ _).symm
        _ ≤ 2 ^ (f.exponent q + (f.precision - 1 : ℤ)) :=
          zpow_le_zpow_right₀ (by norm_num) (by omega)
    calc |(toEven (q / 2 ^ f.exponent q) : ℚ) - q / 2 ^ f.exponent q| * 2 ^ f.exponent q
      _ ≤ |((2 ^ (f.precision - 1) : ℤ) : ℚ) - q / 2 ^ f.exponent q| * 2 ^ f.exponent q :=
        mul_le_mul_of_nonneg_right (nearest _) scale.le
      _ = |2 ^ (f.exponent q + (f.precision - 1 : ℤ)) - q| := by rw [← scaled, split]
      _ = q - 2 ^ (f.exponent q + (f.precision - 1 : ℤ)) := by
        rw [abs_sub_comm, abs_of_nonneg (sub_nonneg.mpr first)]
      _ ≤ q - k * 2 ^ e := by linarith
      _ ≤ |(k : ℚ) * 2 ^ e - q| := by
        rw [abs_sub_comm]
        exact le_abs_self _

/-- Rounding keeps the numbers of the format. -/
theorem place_of_represents (represents : f.Represents q) : f.place q = q := by
  have zero := place_nearest (q := q) ?_ represents
  · rw [sub_self, abs_zero] at zero
    exact sub_eq_zero.mp (abs_nonpos_iff.mp zero)
  · obtain ⟨k, e, rfl, nonneg, -, -⟩ := represents
    have : (0 : ℚ) ≤ k := by exact_mod_cast nonneg
    exact mul_nonneg this (scale_pos e).le

/-- A number that is rounded already is kept. -/
theorem convert_round (nonneg : 0 ≤ q) : f.convert (f.round q) = f.round q := by
  unfold round
  split
  · rename_i finite
    have kept := place_of_represents (represents_place (f := f) nonneg)
    simp only [convert, round, kept, if_pos finite]
  · rfl

end Format

end Rounding
