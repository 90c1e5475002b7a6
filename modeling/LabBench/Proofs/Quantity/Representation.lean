import Mathlib
import LabBench.Proofs.Quantity.Conversion
/-!
# Representation of quantities

A quantity is shown as a number of units. The number is found from the magnitude by the scale, and the
scale is found only when a quantity is made from a number: sums, differences, multiples and quotients
are made from a copy of their first operand and keep its scale while their magnitude changes. A number
of units that is zero says nothing about the factor of the unit, so that a quantity that goes on from
zero is shown as if its unit were coherent.

## Main results

* `represents`
-/

namespace LabBench

open Magnitude

namespace Magnitude

/-- The last of ten digits of a number stands no higher than the last digit that is written. -/
theorem lastPlace_le {n e : ℤ} (hn : |n| < 10 ^ 10) (hne : n ≠ 0) : lastPlace (n * 10 ^ e) ≤ e := by
  have hpow : (0 : ℝ) < 10 ^ e := by positivity
  have hsize : |(n : ℝ) * 10 ^ e| < ((10 : ℕ) : ℝ) ^ (10 + e) := by
    have hbound : |(n : ℝ)| < 10 ^ 10 := mod_cast hn
    rw [abs_mul, abs_of_pos hpow, Nat.cast_ofNat, zpow_add₀ (by norm_num)]
    exact mul_lt_mul_of_pos_right (mod_cast hbound) hpow
  have hpos : 0 < |(n : ℝ) * 10 ^ e| := abs_pos.mpr (mul_ne_zero (Int.cast_ne_zero.mpr hne) hpow.ne')
  have hlog := (Int.lt_zpow_iff_log_lt (by norm_num) hpos).mp hsize
  rw [lastPlace]
  omega

theorem cutReal_of_tenDigits {x : ℝ} (h : TenDigits x) : cutReal x = x := by
  obtain ⟨n, e, hn, rfl⟩ := h
  by_cases hne : n = 0
  · rw [hne, Int.cast_zero, zero_mul]
    exact cutReal_eq_zero_iff.mpr rfl
  obtain ⟨k, hk⟩ := Int.eq_ofNat_of_zero_le (sub_nonneg.mpr (lastPlace_le hn hne))
  have hten : (10 : ℝ) ≠ 0 := by norm_num
  have hwhole : (n : ℝ) * 10 ^ e / 10 ^ lastPlace (n * 10 ^ e) = ((n * 10 ^ k : ℤ) : ℝ) := by
    rw [mul_div_assoc, ← zpow_sub₀ hten, hk, zpow_natCast]
    push_cast
    rfl
  rw [cutReal, hwhole, nearestEven_intCast, ← hwhole, div_mul_cancel₀ _ (zpow_ne_zero _ hten)]

end Magnitude

namespace Quantity

/-- The quantities that can be reckoned from numbers with units. Quantities that are added or subtracted
have the same dimension, since there is no result otherwise. The proposition says whether a quantity goes
on from zero: whether the number of units from which its scale was found is zero. -/
inductive Reckoned : Quantity ℝ → Prop → Prop
  | made {v : ℝ} {units : String} {q : Quantity ℝ} (h : make v units = .ok q) : Reckoned q (v = 0)
  | sum {a b c : Quantity ℝ} {fromZero fromZero' : Prop} (ha : Reckoned a fromZero)
      (hb : Reckoned b fromZero') (h : a.add b = .ok c) : Reckoned c (a.magnitude = 0)
  | difference {a b c : Quantity ℝ} {fromZero fromZero' : Prop} (ha : Reckoned a fromZero)
      (hb : Reckoned b fromZero') (h : a.sub b = .ok c) : Reckoned c (a.magnitude = 0)
  | multiple {a c : Quantity ℝ} {x : ℝ} {fromZero : Prop} (ha : Reckoned a fromZero)
      (h : a.mul x = .ok c) : Reckoned c (a.magnitude = 0)
  | quotient {a c : Quantity ℝ} {x : ℝ} {fromZero : Prop} (ha : Reckoned a fromZero) (hx : x ≠ 0)
      (h : a.div x = .ok c) : Reckoned c (a.magnitude = 0)
  | absolute {a c : Quantity ℝ} {fromZero : Prop} (ha : Reckoned a fromZero) (h : a.abs = .ok c) :
      Reckoned c (0 ≤ a.magnitude ∧ fromZero)

/-- A quantity in a unit, with a scale that contains the factor of the unit unless it goes on from zero. -/
structure Scaled (terms : List (Unit.Term ℝ)) (fromZero : Prop) (q : Quantity ℝ) : Prop where
  units : Unit.parse q.units = .ok terms
  scale : ∃ v, (v = 0 ↔ fromZero) ∧ q.scale.tenTo? = some (scaleOf terms v)

variable {terms : List (Unit.Term ℝ)} {fromZero : Prop} {q : Quantity ℝ} {c : Quantity ℝ}

theorem scaleOf_ne_zero (terms : List (Unit.Term ℝ)) (v : ℝ) : scaleOf terms v ≠ 0 := by
  unfold scaleOf
  split
  · positivity
  · exact unitValue_ne_zero terms

theorem measures_of_make {v : ℝ} {units : String} (h : make v units = .ok q) :
    ∃ terms, Unit.parse units = .ok terms ∧ q.Measures terms v ∧ q.scale.tenTo? = some (scaleOf terms v) := by
  cases hparse : Unit.parse (K := ℝ) units with
  | error p =>
    rw [make, hparse] at h
    cases h
  | ok terms =>
    obtain ⟨q', hmake, hmeas, hscal⟩ := exists_make hparse v
    cases hmake.symm.trans h
    exact ⟨terms, rfl, hmeas, hscal⟩

theorem Scaled.withMagnitude (h : q.Scaled terms fromZero) (m : ℝ) : Scaled terms fromZero { q with magnitude := m } :=
  ⟨h.units, h.scale⟩

theorem Scaled.exists_copy (h : q.Scaled terms fromZero) :
    ∃ v x copy, (v = 0 ↔ fromZero) ∧ q.inUnits = .ok x ∧ x = q.magnitude / scaleOf terms v ∧
      q.renew = .ok copy ∧ copy.Measures terms (cutReal x) ∧ copy.Scaled terms (q.magnitude = 0) := by
  obtain ⟨v, hv, hscal⟩ := h.scale
  obtain ⟨copy, hmake, hmeas, hten⟩ := exists_make (Unit.parse_trimLeft h.units)
    (cutReal (q.magnitude / scaleOf terms v))
  refine ⟨v, _, copy, hv, ?_, rfl, ?_, hmeas, hmeas.units, _, ?_, hten⟩
  · rw [inUnits, hscal]
  · rw [renew_eq hscal, ← hmake]
    rfl
  · rw [cutReal_eq_zero_iff, div_eq_zero_iff, or_iff_left (scaleOf_ne_zero terms v)]

theorem Scaled.of_renew_bind (h : q.Scaled terms fromZero) {f : ℝ → ℝ}
    (hc : (q.renew >>= fun copy => pure { copy with magnitude := f copy.magnitude }) = .ok c) :
    c.Scaled terms (q.magnitude = 0) := by
  obtain ⟨v, x, copy, -, -, -, hcopy, -, hscal⟩ := h.exists_copy
  rw [hcopy] at hc
  cases hc
  exact hscal.withMagnitude _

theorem of_checkDimension {a b : Quantity ℝ} {rest : Outcome (Quantity ℝ)}
    (h : (a.checkDimension b >>= fun _ => rest) = .ok c) : rest = .ok c := by
  obtain ⟨_, -, h⟩ := Outcome.bind_eq_ok.mp h
  exact h

theorem Scaled.abs (h : q.Scaled terms fromZero) (hc : q.abs = .ok c) :
    c.Scaled terms (0 ≤ q.magnitude ∧ fromZero) := by
  by_cases hneg : q.magnitude < 0
  · obtain ⟨v, x, -, -, hx, hquot, -⟩ := h.exists_copy
    have hless : Magnitude.less q.magnitude (ofInt 0) = true := by
      change decide (q.magnitude < ((0 : ℤ) : ℝ)) = true
      rw [Int.cast_zero]
      exact decide_eq_true hneg
    rw [Quantity.abs, if_pos hless, hx] at hc
    change make |x| q.units = .ok c at hc
    obtain ⟨terms', hparse, hmeas, hten⟩ := measures_of_make hc
    cases hparse.symm.trans h.units
    refine ⟨hmeas.units, |x|, iff_of_false ?_ ?_, hten⟩
    · rw [hquot]
      exact abs_ne_zero.mpr (div_ne_zero hneg.ne (scaleOf_ne_zero terms v))
    · rintro ⟨hle, -⟩
      exact absurd hneg (not_lt.mpr hle)
  · have hless : ¬Magnitude.less q.magnitude (ofInt 0) = true := by
      change ¬decide (q.magnitude < ((0 : ℤ) : ℝ)) = true
      rw [Int.cast_zero]
      simpa using hneg
    rw [Quantity.abs, if_neg hless] at hc
    cases hc
    obtain ⟨v, hv, hscal⟩ := h.scale
    exact ⟨h.units, v, hv.trans (and_iff_right (not_lt.mp hneg)).symm, hscal⟩

/-- Every quantity that can be reckoned has a scale that fits its unit, as far as it does not go on from
zero. -/
theorem Reckoned.exists_scaled (h : Reckoned q fromZero) : ∃ terms, q.Scaled terms fromZero := by
  induction h with
  | @made v _ _ h =>
    obtain ⟨terms, -, hmeas, hten⟩ := measures_of_make h
    exact ⟨terms, hmeas.units, v, Iff.rfl, hten⟩
  | @sum _ b _ _ _ _ _ h ih _ =>
    obtain ⟨terms, hscal⟩ := ih
    exact ⟨terms, hscal.of_renew_bind (f := (· + b.magnitude)) (of_checkDimension h)⟩
  | @difference _ b _ _ _ _ _ h ih _ =>
    obtain ⟨terms, hscal⟩ := ih
    exact ⟨terms, hscal.of_renew_bind (f := (· - b.magnitude)) (of_checkDimension h)⟩
  | @multiple _ _ x _ _ h ih =>
    obtain ⟨terms, hscal⟩ := ih
    exact ⟨terms, hscal.of_renew_bind (f := (· * x)) h⟩
  | @quotient _ _ x _ _ _ h ih =>
    obtain ⟨terms, hscal⟩ := ih
    exact ⟨terms, hscal.of_renew_bind (f := (· / x)) h⟩
  | absolute _ h ih =>
    obtain ⟨terms, hscal⟩ := ih
    exact ⟨terms, hscal.abs h⟩

/-- A reckoned quantity is its number times its unit, unless it goes on from zero: then the factor of the unit is
counted twice. Its copy is the number cut to ten digits times the unit. -/
theorem Reckoned.represents (h : Reckoned q fromZero) :
    ∃ terms one x copy, Unit.parse q.units = .ok terms ∧ make 1 q.units = .ok one ∧
      q.inUnits = .ok x ∧ q.renew = .ok copy ∧
      (¬fromZero → x * one.magnitude = q.magnitude) ∧
      (fromZero → x * one.magnitude = unitFactor terms * q.magnitude) ∧
      (TenDigits x → copy.magnitude = x * one.magnitude) := by
  obtain ⟨terms, hscaled⟩ := h.exists_scaled
  obtain ⟨v, x, copy, hv, hx, hquotient, hcopy, hmeasures, -⟩ := hscaled.exists_copy
  obtain ⟨one, hone, hunit, -⟩ := exists_make hscaled.units 1
  have hunit : one.magnitude = unitValue terms := by rw [hunit.magnitude, one_mul]
  refine ⟨terms, one, x, copy, hscaled.units, hone, hx, hcopy, fun hnot => ?_, fun hzero => ?_, fun hdigits => ?_⟩
  · have hscale : scaleOf terms v = unitValue terms := if_neg (mt hv.mp hnot)
    rw [hquotient, hscale, hunit, div_mul_cancel₀ _ (unitValue_ne_zero terms)]
  · have hscale : scaleOf terms v = 10 ^ Unit.decade terms := if_pos (hv.mpr hzero)
    have hten : (10 : ℝ) ^ Unit.decade terms ≠ 0 := by positivity
    rw [hquotient, hscale, hunit, unitValue, mul_left_comm, div_mul_cancel₀ _ hten]
  · rw [hmeasures.magnitude, cutReal_of_tenDigits hdigits, hunit]

/-- Zero kilogauss and one more are one kilogauss, which is shown as a ten thousandth of one, and so are
its copies. -/
theorem represents_kilogauss : ∃ zero one sum copy : Quantity ℝ, make 0 "kG" = .ok zero ∧
    make 1 "kG" = .ok one ∧ zero.add one = .ok sum ∧ Reckoned sum (zero.magnitude = 0) ∧
    zero.magnitude = 0 ∧ sum.magnitude = one.magnitude ∧ sum.inUnits = .ok 1e-4 ∧
    sum.renew = .ok copy ∧ copy.magnitude = 1e-4 * one.magnitude := by
  obtain ⟨zero, hzero, hmeasures, hscale⟩ := exists_make parse_kilogauss 0
  obtain ⟨one, hone, hunit, -⟩ := exists_make parse_kilogauss 1
  have hmagnitude : zero.magnitude = 0 := by rw [hmeasures.magnitude, zero_mul]
  have hzeroScaled : zero.Scaled _ (0 = 0) := ⟨hmeasures.units, 0, by simp, hscale⟩
  obtain ⟨v, x, copy, -, -, hx, hcopy, hcopied, -⟩ := hzeroScaled.exists_copy
  have hsum := add_eq_ok (hmeasures.sameDimension hunit.dimension) hcopy
  have hequal : copy.magnitude + one.magnitude = one.magnitude := by
    rw [hcopied.magnitude, hx, hmagnitude, zero_div, cutReal_eq_zero_iff.mpr rfl, zero_mul, zero_add]
  have hreckoned := Reckoned.sum (.made hzero) (.made hone) hsum
  obtain ⟨terms, one', y, copy', hparse, hone', hy, hcopy', -, hlost, hdigits⟩ := hreckoned.represents
  cases hparse.symm.trans hcopied.units
  have hunit' : one'.magnitude = one.magnitude := by
    obtain ⟨terms', hparse', hmeasures', -⟩ := measures_of_make hone'
    cases hparse'.symm.trans hparse
    rw [hmeasures'.magnitude, hunit.magnitude]
  have hnumber : y = 1e-4 := by
    have hlost := hlost hmagnitude
    rw [hunit', unitFactor_gauss] at hlost
    refine mul_right_cancel₀ ?_ (hlost.trans (congrArg _ hequal))
    rw [hunit.magnitude, one_mul]
    exact unitValue_ne_zero _
  have hten : TenDigits y := ⟨1, -4, by norm_num, by rw [hnumber]; norm_num⟩
  refine ⟨zero, one, _, copy', hzero, hone, hsum, hreckoned, hmagnitude, hequal, hnumber ▸ hy, hcopy', ?_⟩
  rw [hdigits hten, hnumber, hunit']

end Quantity

end LabBench
