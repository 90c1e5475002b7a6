import Mathlib
import LabBench.Quantity.Basic
/-!
# Exact magnitudes

The definitions of quantities can be read over the real numbers, where sums and products are exact and
no power of ten is too large. Only the cut to ten significant digits is a loss: it moves a number by at
most half a unit of its last digit.
-/

noncomputable section

namespace LabBench

namespace Magnitude

/-! ### Rounding -/

/-- The nearest whole number; a half goes to the even neighbour. -/
def nearestEven (x : ℝ) : ℤ :=
  if Int.fract x = 1 / 2 ∧ Even ⌊x⌋ then ⌊x⌋ else round x

theorem abs_nearestEven_sub_le (x : ℝ) : |nearestEven x - x| ≤ 1 / 2 := by
  unfold nearestEven
  split
  · rename_i h
    have hfract : x - ⌊x⌋ = 1 / 2 := h.1
    rw [abs_sub_comm, hfract, abs_of_pos (by norm_num)]
  · rw [abs_sub_comm]
    exact abs_sub_round x

theorem nearestEven_intCast (n : ℤ) : nearestEven n = n := by
  unfold nearestEven
  split
  · exact Int.floor_intCast n
  · exact round_intCast n

theorem nearestEven_mono : Monotone nearestEven := by
  intro x y hxy
  by_contra hlt
  have hx := abs_le.mp (abs_nearestEven_sub_le x)
  have hy := abs_le.mp (abs_nearestEven_sub_le y)
  have hstep : (nearestEven y : ℝ) + 1 ≤ nearestEven x := mod_cast not_le.mp hlt
  have heq : x = y := by linarith
  exact hlt (heq ▸ le_rfl)

/-- The exponent of the last of ten significant digits. -/
def lastPlace (x : ℝ) : ℤ :=
  Int.log 10 |x| - 9

/-- The nearest number with ten significant digits. -/
def cutReal (x : ℝ) : ℝ :=
  nearestEven (x / 10 ^ lastPlace x) * 10 ^ lastPlace x

/-- A number with at most ten significant digits. -/
def TenDigits (x : ℝ) : Prop :=
  ∃ n e : ℤ, |n| < 10 ^ 10 ∧ x = n * 10 ^ e

theorem ten_zpow_lastPlace_le {x : ℝ} (hx : x ≠ 0) : (10 : ℝ) ^ lastPlace x ≤ 1e-9 * |x| := by
  have hfst : ((10 : ℕ) : ℝ) ^ Int.log 10 |x| ≤ |x| := Int.zpow_log_le_self (by norm_num) (abs_pos.mpr hx)
  have hplaces : (10 : ℝ) ^ lastPlace x = 1e-9 * 10 ^ Int.log 10 |x| := by
    rw [lastPlace, zpow_sub₀ (by norm_num), div_eq_inv_mul]
    norm_num
  rw [hplaces]
  push_cast at hfst
  linarith

theorem abs_cutReal_sub_le (x : ℝ) : |cutReal x - x| ≤ 5e-10 * |x| := by
  by_cases hx : x = 0
  · have hzero : cutReal 0 = 0 := by
      have hround : nearestEven 0 = 0 := mod_cast nearestEven_intCast 0
      rw [cutReal, zero_div, hround, Int.cast_zero, zero_mul]
    rw [hx, hzero]
    norm_num
  · have hunit : (0 : ℝ) < 10 ^ lastPlace x := by positivity
    have hcut : cutReal x - x = (nearestEven (x / 10 ^ lastPlace x) - x / 10 ^ lastPlace x) * 10 ^ lastPlace x := by
      rw [cutReal, sub_mul, div_mul_cancel₀ _ hunit.ne']
    have hround := abs_nearestEven_sub_le (x / 10 ^ lastPlace x)
    have hplace := ten_zpow_lastPlace_le hx
    rw [hcut, abs_mul, abs_of_pos hunit]
    nlinarith

theorem cutReal_eq_zero_iff {x : ℝ} : cutReal x = 0 ↔ x = 0 := by
  have hcut := abs_cutReal_sub_le x
  constructor
  · intro h
    rw [h, zero_sub, abs_neg] at hcut
    have hnn := abs_nonneg x
    exact abs_eq_zero.mp (by linarith)
  · rintro rfl
    rw [abs_zero, mul_zero, sub_zero] at hcut
    exact abs_eq_zero.mp (le_antisymm hcut (abs_nonneg _))

theorem cutReal_one : cutReal 1 = 1 := by
  have hplace : lastPlace 1 = -9 := by
    rw [lastPlace, abs_one, Int.log_one_right]
    norm_num
  have hround : nearestEven (1 / 10 ^ (-9 : ℤ)) = 10 ^ 9 := by
    have h : (1 / 10 ^ (-9 : ℤ) : ℝ) = ((10 ^ 9 : ℤ) : ℝ) := by norm_num
    rw [h, nearestEven_intCast]
  rw [cutReal, hplace, hround]
  norm_num

end Magnitude

/-! ### Real magnitudes -/

/-- The exact value of a written number. Numerals that are no numbers have no exact value. -/
def Number.Numeral.toReal : Number.Numeral → ℝ
  | .decimal negative digits exponent => (if negative then -1 else 1) * digits * 10 ^ exponent
  | .infinite _ | .nan => 0

instance : Magnitude ℝ where
  ofInt n := n
  ofNumeral := Number.Numeral.toReal
  tenPow? n := some (10 ^ n)
  tenToThe? x := some (10 ^ x)
  logTen? x := if x = 0 then none else some (Real.logb 10 x)
  power x y := x ^ y
  abs x := |x|
  less a b := decide (a < b)
  same a b := decide (a = b)
  isFinite _ := true
  truncate? x := some (if 0 ≤ x then ⌊x⌋ else ⌈x⌉)
  nearest? x := some (Magnitude.nearestEven x)
  cutTen := Magnitude.cutReal

namespace Magnitude

theorem same_iff {a b : ℝ} : same a b = true ↔ a = b :=
  decide_eq_true_iff

theorem logTen?_of_ne_zero {x : ℝ} (hx : x ≠ 0) : logTen? x = some (Real.logb 10 x) :=
  if_neg hx

end Magnitude

theorem Unit.Symbol.factor_pos (u : Unit.Symbol) : (0 : ℝ) < u.factor := by
  cases u <;> norm_num [factor]

namespace Quantity

private theorem foldl_mul_power_pos {powers : List (Unit.Symbol × ℝ)} {f : ℝ} (hf : 0 < f) :
    0 < powers.foldl (fun f (p : Unit.Symbol × ℝ) => f * Magnitude.power p.1.factor p.2) f := by
  induction powers generalizing f with
  | nil => exact hf
  | cons p rest ih => exact ih (mul_pos hf (Real.rpow_pos_of_pos p.1.factor_pos p.2))

theorem unitFactor_pos (terms : List (Unit.Term ℝ)) : 0 < unitFactor terms := by
  refine foldl_mul_power_pos ?_
  change (0 : ℝ) < ((1 : ℤ) : ℝ)
  norm_num

def unitValue (terms : List (Unit.Term ℝ)) : ℝ :=
  unitFactor terms * 10 ^ Unit.decade terms

theorem unitValue_ne_zero (terms : List (Unit.Term ℝ)) : unitValue terms ≠ 0 :=
  mul_ne_zero (unitFactor_pos terms).ne' (by positivity)

/-- The scale of a number of units leads back to the number, unless the number is zero: then it
contains the decades of the unit only. -/
def scaleOf (terms : List (Unit.Term ℝ)) (v : ℝ) : ℝ :=
  if v = 0 then 10 ^ Unit.decade terms else unitValue terms

end Quantity

end LabBench

end
