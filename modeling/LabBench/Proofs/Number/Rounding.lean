import Mathlib
import LabBench.Proofs.Number.Binary
/-!
# Rounding of binary numbers

A mantissa that is too long loses its last bits and is rounded. Sums, products and quotients are found exactly and then
rounded in this way. Hence no binary number lies between the exact result and the rounded one: a result that is at most
some binary number is still at most this number after it has been rounded.
-/

namespace LabBench.Number

open Float.Model Float.Model.UnpackedFloat Format

/-! ### Mantissas -/

/-- What is left over a mantissa, in units of its last place, by the two bits that stand for it. -/
inductive Residue : Bool → Bool → ℚ → Prop
  | exact : Residue false false 0
  | below {r : ℚ} (hpos : 0 < r) (hlt : r < 1 / 2) : Residue false true r
  | half : Residue true false (1 / 2)
  | above {r : ℚ} (hgt : 1 / 2 < r) (hlt : r < 1) : Residue true true r

theorem Residue.nonneg {roundBit stickyBit : Bool} {r : ℚ} (h : Residue roundBit stickyBit r) : 0 ≤ r := by
  cases h with
  | exact => exact le_rfl
  | below hpos _ => exact hpos.le
  | half => norm_num
  | above hgt _ => linarith

theorem Residue.lt_one {roundBit stickyBit : Bool} {r : ℚ} (h : Residue roundBit stickyBit r) : r < 1 := by
  cases h with
  | exact => norm_num
  | below _ hlt => linarith
  | half => norm_num
  | above _ hlt => exact hlt

/-- A number is within half of a whole number; an odd one does not take the halves. -/
structure IsNearest (x : ℚ) (k : ℕ) : Prop where
  ge : k - 1 / 2 ≤ x
  le : x ≤ k + 1 / 2
  strict : k % 2 = 1 → k - 1 / 2 < x ∧ x < k + 1 / 2

namespace IsNearest

variable {x : ℚ} {k n : ℕ}

theorem le_of_le (h : IsNearest x k) (hn : x ≤ n) : k ≤ n := by
  by_contra! hlt
  have hk : (n : ℚ) + 1 ≤ k := mod_cast hlt
  linarith [h.ge]

theorem le_of_ge (h : IsNearest x k) (hn : n ≤ x) : n ≤ k := by
  by_contra! hlt
  have hk : (k : ℚ) + 1 ≤ n := mod_cast hlt
  linarith [h.le]

theorem le_of_isNearest (h : IsNearest x k) (h' : IsNearest x n) : k ≤ n := by
  by_contra! hlt
  have hk : (n : ℚ) + 1 ≤ k := mod_cast hlt
  have hge := h.ge
  have hle := h'.le
  have hk' : k ≤ n + 1 := by exact_mod_cast (show (k : ℚ) ≤ n + 1 by linarith)
  -- of two neighbours one is odd, and does not take the half between them
  rcases Nat.mod_two_eq_zero_or_one k with heven | hodd
  · linarith [(h'.strict (by omega)).2]
  · linarith [(h.strict hodd).1]

end IsNearest

/-- A mantissa with two more bits that stands for a number. -/
def Describes (em : ExtendedMantissa) (x : ℚ) : Prop :=
  Residue em.roundBit em.stickyBit (x - em.mantissa)

variable {em : ExtendedMantissa} {x t : ℚ}

section

variable (h : Describes em x)

include h

theorem Describes.shiftRightOne : Describes em.shiftRightOne (x / 2) := by
  obtain ⟨m, roundBit, stickyBit⟩ := em
  have hm : (m : ℚ) = 2 * (m / 2 : ℕ) + (m % 2 : ℕ) := by
    exact_mod_cast (Nat.div_add_mod m 2).symm
  have hx : x / 2 - (m / 2 : ℕ) = ((m % 2 : ℕ) + (x - m)) / 2 := by
    rw [hm]
    ring
  unfold Describes at h ⊢
  simp only [ExtendedMantissa.shiftRightOne] at h ⊢
  rw [hx]
  generalize x - (m : ℚ) = r at h
  rcases Nat.mod_two_eq_zero_or_one m with hmod | hmod <;> rw [hmod]
  · cases h with
    | exact => simpa using Residue.exact
    | below hpos hlt => exact .below (by norm_num; linarith) (by norm_num; linarith)
    | half => exact .below (by norm_num) (by norm_num)
    | above hgt hlt => exact .below (by norm_num; linarith) (by norm_num; linarith)
  · cases h with
    | exact => simpa using Residue.half
    | below hpos hlt => exact .above (by norm_num; linarith) (by norm_num; linarith)
    | half => exact .above (by norm_num) (by norm_num)
    | above hgt hlt => exact .above (by norm_num; linarith) (by norm_num; linarith)

theorem Describes.shiftRight (n : ℕ) : Describes (em >>> n) (x / 2 ^ n) := by
  induction n with
  | zero =>
    rw [pow_zero, div_one]
    exact h
  | succ n ih =>
    have hx : x / 2 ^ (n + 1) = x / 2 ^ n / 2 := by
      rw [pow_succ, div_div]
    rw [hx]
    exact ih.shiftRightOne

theorem Describes.mantissa_le : em.mantissa ≤ x := by
  have hnn := h.nonneg
  linarith

theorem Describes.lt_mantissa : x < em.mantissa + 1 := by
  have hlt := h.lt_one
  linarith

theorem Describes.isNearest : IsNearest x em.roundedMantissa := by
  obtain ⟨m, roundBit, stickyBit⟩ := em
  have hx : x = m + (x - m) := by ring
  unfold Describes at h
  dsimp only at h
  generalize x - (m : ℚ) = r at h hx
  subst hx
  cases h with
  | exact | below =>
    change IsNearest _ m
    exact ⟨by linarith, by linarith, fun _ => ⟨by linarith, by linarith⟩⟩
  | half =>
    change IsNearest _ (m + m % 2)
    rcases Nat.mod_two_eq_zero_or_one m with hmod | hmod <;> rw [hmod] <;>
      exact ⟨by push_cast; linarith, by push_cast; linarith, fun hodd => by omega⟩
  | above =>
    change IsNearest _ (m + 1)
    exact ⟨by push_cast; linarith, by push_cast; linarith, fun _ => ⟨by push_cast; linarith, by push_cast; linarith⟩⟩

end

/-! ### Rounding to a multiple of a power of two -/

/-- A number `t` is rounded to `n` times a power of two: this is the nearest multiple, and the power is as small as 53
bits allow, but not below the smallest one. -/
structure Rounds (t : ℚ) (n : ℕ) (f : ℤ) : Prop where
  lowest : -1074 ≤ f
  lt : t < 2 ^ 53 * 2 ^ f
  large : 2 ^ 52 * 2 ^ f ≤ t ∨ f = -1074
  nearest : IsNearest (t / 2 ^ f) n

theorem two_zpow_pos (f : ℤ) : (0 : ℚ) < 2 ^ f :=
  zpow_pos (by norm_num) f

theorem targetExponent_eq (t : ℤ) : binary64.targetExponent t = max (t - 53) (-1074) := rfl

namespace Rounds

variable {n k : ℕ} {f g : ℤ}

theorem le_of_le (h : Rounds t n f) (hk : t ≤ k * 2 ^ f) : n ≤ k :=
  h.nearest.le_of_le ((div_le_iff₀ (two_zpow_pos f)).mpr hk)

theorem le_of_ge (h : Rounds t n f) (hk : k * 2 ^ f ≤ t) : k ≤ n :=
  h.nearest.le_of_ge ((le_div_iff₀ (two_zpow_pos f)).mpr hk)

theorem le_full (h : Rounds t n f) : n ≤ 2 ^ 53 := by
  refine h.le_of_le ?_
  push_cast
  exact h.lt.le

theorem large_or (h : Rounds t n f) : 2 ^ 52 ≤ n ∨ f = -1074 := by
  refine h.large.imp_left fun hlarge => h.le_of_ge ?_
  push_cast
  exact hlarge

theorem lt_of_exponent_lt (h : Rounds t n f) (hk : k < 2 ^ 53) (hg : -1074 ≤ g) (hlt : g < f) :
    (k : ℚ) * 2 ^ g < 2 ^ 52 * 2 ^ f ∧ 2 ^ 52 * 2 ^ f ≤ t := by
  have hk' : (k : ℚ) < 2 ^ 53 := mod_cast hk
  have hpow : (2 : ℚ) * 2 ^ g ≤ 2 ^ f := by
    rw [← zpow_one_add₀ (by norm_num)]
    exact zpow_le_zpow_right₀ (by norm_num) (by omega)
  have hpos := two_zpow_pos g
  refine ⟨by nlinarith, h.large.resolve_right (by omega)⟩

theorem mul_zpow_eq (hge : f ≤ g) : (k : ℚ) * 2 ^ g = (k * 2 ^ (g - f).toNat : ℕ) * 2 ^ f := by
  have hg : g = (g - f).toNat + f := by omega
  conv_lhs => rw [hg, zpow_add₀ (by norm_num), zpow_natCast]
  push_cast
  ring

theorem mul_le (h : Rounds t n f) (hk : k < 2 ^ 53) (hg : -1074 ≤ g) (hle : t ≤ k * 2 ^ g) :
    (n : ℚ) * 2 ^ f ≤ k * 2 ^ g := by
  rcases le_or_gt f g with hge | hlt
  · rw [mul_zpow_eq hge] at hle ⊢
    exact mul_le_mul_of_nonneg_right (mod_cast h.le_of_le hle) (two_zpow_pos f).le
  · obtain ⟨hsmall, hlarge⟩ := h.lt_of_exponent_lt hk hg hlt
    linarith

theorem le_mul (h : Rounds t n f) (hk : k < 2 ^ 53) (hg : -1074 ≤ g) (hge : k * 2 ^ g ≤ t) :
    (k : ℚ) * 2 ^ g ≤ n * 2 ^ f := by
  rcases le_or_gt f g with hfg | hlt
  · rw [mul_zpow_eq hfg] at hge ⊢
    exact mul_le_mul_of_nonneg_right (mod_cast h.le_of_ge hge) (two_zpow_pos f).le
  · obtain ⟨hsmall, hlarge⟩ := h.lt_of_exponent_lt hk hg hlt
    have hn : (2 ^ 52 : ℚ) ≤ n := mod_cast h.large_or.resolve_right (by omega)
    exact hsmall.le.trans (mul_le_mul_of_nonneg_right hn (two_zpow_pos f).le)

end Rounds

@[simp]
theorem mantissa_ofMantissaAndAccuracy (m : ℕ) (a : Accuracy) :
    (ExtendedMantissa.ofMantissaAndAccuracy m a).mantissa = m := by
  rcases a with _ | (_ | _ | _) <;> rfl

variable {m : ℕ} {e : ℤ} {a : Accuracy}

theorem shiftToTargetExponent_snd (he : e ≤ binary64.targetExponent (totalExponent m e)) :
    (shiftToTargetExponent binary64 m e a).2 = binary64.targetExponent (totalExponent m e) := by
  simp only [shiftToTargetExponent, shiftToExponent]
  omega

theorem mul_zpow_lt_totalExponent (h : x < m + 1) : x * 2 ^ e < 2 ^ totalExponent m e := by
  have hm : (m : ℚ) + 1 ≤ 2 ^ (m.log2 + 1) := mod_cast Nat.lt_log2_self
  calc x * 2 ^ e < 2 ^ (m.log2 + 1) * 2 ^ e := mul_lt_mul_of_pos_right (h.trans_le hm) (two_zpow_pos e)
    _ = 2 ^ totalExponent m e := by
        rw [totalExponent, zpow_add₀ (by norm_num)]
        norm_cast

theorem totalExponent_le_mul_zpow (hm : m ≠ 0) (h : m ≤ x) : 2 ^ (totalExponent m e - 1) ≤ x * 2 ^ e := by
  have hle : (2 : ℚ) ^ m.log2 ≤ m := mod_cast Nat.log2_self_le hm
  have htot : totalExponent m e - 1 = m.log2 + e := by
    rw [totalExponent]
    omega
  calc (2 : ℚ) ^ (totalExponent m e - 1) = 2 ^ m.log2 * 2 ^ e := by
        rw [htot, zpow_add₀ (by norm_num), zpow_natCast]
    _ ≤ x * 2 ^ e := mul_le_mul_of_nonneg_right (hle.trans h) (two_zpow_pos e).le

/-- Bits are dropped until 53 are left, and the mantissa is rounded. -/
theorem rounds_first (h : Describes (.ofMantissaAndAccuracy m a) x)
    (he : e ≤ binary64.targetExponent (totalExponent m e)) :
    Rounds (x * 2 ^ e) (shiftToTargetExponent binary64 m e a).1.roundedMantissa
      (shiftToTargetExponent binary64 m e a).2 := by
  have hlo := h.mantissa_le
  have hup := h.lt_mantissa
  rw [mantissa_ofMantissaAndAccuracy] at hlo hup
  rw [shiftToTargetExponent_snd he]
  simp only [shiftToTargetExponent, shiftToExponent]
  have htarget := targetExponent_eq (totalExponent m e)
  have htot : totalExponent m e = m.log2 + 1 + e := rfl
  generalize binary64.targetExponent (totalExponent m e) = f at he htarget ⊢
  have hpos := two_zpow_pos f
  have hx : x * 2 ^ e = x / 2 ^ (f - e).toNat * 2 ^ f := by
    have hf : f = (f - e).toNat + e := by omega
    conv_rhs => rw [hf, zpow_add₀ (by norm_num), zpow_natCast]
    field_simp
    congr
    omega
  have hpow (k : ℕ) : (2 : ℚ) ^ k * 2 ^ f = 2 ^ (k + f) := by
    rw [zpow_add₀ (by norm_num), zpow_natCast]
  have hshifted := h.shiftRight (f - e).toNat
  refine ⟨by omega, ?_, ?_, ?_⟩
  · rw [hpow]
    exact (mul_zpow_lt_totalExponent hup).trans_le (zpow_le_zpow_right₀ (by norm_num) (by omega))
  · -- the exponent is as small as possible, unless the mantissa is zero
    rcases eq_or_ne f (-1074) with hf | hf
    · exact .inr hf
    · have hm : m ≠ 0 := by
        rintro rfl
        simp only [Nat.log2_zero] at htot
        omega
      left
      rw [hpow]
      exact (zpow_le_zpow_right₀ (by norm_num) (by omega)).trans (totalExponent_le_mul_zpow hm hlo)
  · rw [hx, mul_div_cancel_right₀ _ hpos.ne']
    exact hshifted.isNearest

/-! ### Numbers with an exponent of any size -/

/-- A mantissa of at most 53 bits with the smallest exponent that it can have. -/
structure Fits (m : ℕ) (e : ℤ) : Prop where
  lt : m < 2 ^ 53
  lowest : -1074 ≤ e
  large_or : 2 ^ 52 ≤ m ∨ e = -1074

theorem Fits.mul_lt_mul {m m' : ℕ} {e e' : ℤ} (h : Fits m e) (h' : Fits m' e') (hlt : e < e') :
    (m : ℚ) * 2 ^ e < m' * 2 ^ e' := by
  have hlowest := h.lowest
  have hm : (m : ℚ) < 2 ^ 53 := mod_cast h.lt
  have hm' : (2 ^ 52 : ℚ) ≤ m' := mod_cast h'.large_or.resolve_right (by omega)
  have hpos := two_zpow_pos e
  have hpow : (2 : ℚ) * 2 ^ e ≤ 2 ^ e' := by
    rw [← zpow_one_add₀ two_ne_zero]
    exact zpow_le_zpow_right₀ (by norm_num) (by omega)
  calc (m : ℚ) * 2 ^ e < 2 ^ 53 * 2 ^ e := mul_lt_mul_of_pos_right hm hpos
    _ = 2 ^ 52 * (2 * 2 ^ e) := by ring
    _ ≤ m' * 2 ^ e' := mul_le_mul hm' hpow (by positivity) (by positivity)

theorem Fits.mul_le_mul_iff {m m' : ℕ} {e e' : ℤ} (h : Fits m e) (h' : Fits m' e') :
    (m : ℚ) * 2 ^ e ≤ m' * 2 ^ e' ↔ e < e' ∨ e = e' ∧ m ≤ m' := by
  rcases lt_trichotomy e e' with hlt | rfl | hgt
  · exact iff_of_true (h.mul_lt_mul h' hlt).le (.inl hlt)
  · rw [mul_le_mul_iff_left₀ (two_zpow_pos e), Nat.cast_le]
    simp
  · exact iff_of_false (h'.mul_lt_mul h hgt).not_ge (by omega)

/-- A finite number in the form that is stored. -/
def Canonical : UnpackedFloat → Prop
  | .zero _ => True
  | .finite _ m e _ => Fits m e
  | .infinity _ | .notANumber => False

def signed : Sign → ℚ → ℚ
  | .positive, t => t
  | .negative, t => -t

def worth : UnpackedFloat → ℚ
  | .finite s m e _ => signed s (m * 2 ^ e)
  | .zero _ | .infinity _ | .notANumber => 0

/-- The number with a sign, a mantissa and an exponent. -/
def composed (s : Sign) (m : ℕ) (e : ℤ) : UnpackedFloat :=
  if h : m = 0 then .zero s else .finite s m e (Nat.pos_of_ne_zero h)

theorem signed_mul (s s' : Sign) (t t' : ℚ) : signed s t * signed s' t' = signed (s * s') (t * t') := by
  cases s with
  | positive => cases s' with
    | positive => rfl
    | negative => exact mul_neg t t'
  | negative => cases s' with
    | positive => exact neg_mul t t'
    | negative => exact neg_mul_neg t t'

theorem signed_div (s s' : Sign) (t t' : ℚ) : signed s t / signed s' t' = signed (s / s') (t / t') := by
  cases s with
  | positive => cases s' with
    | positive => rfl
    | negative => exact div_neg t
  | negative => cases s' with
    | positive => exact neg_div t' t
    | negative => exact neg_div_neg_eq t t'

theorem apply_mul (s : Sign) (m : ℕ) (r : ℚ) : (s.apply m : ℚ) * r = signed s (m * r) := by
  cases s <;> simp [signed, Sign.apply]

theorem worth_composed (s : Sign) (m : ℕ) (e : ℤ) : worth (composed s m e) = signed s (m * 2 ^ e) := by
  unfold composed
  split
  · rename_i hm
    subst hm
    cases s <;> simp [worth, signed]
  · rfl

theorem Fits.canonical_composed (h : Fits m e) (s : Sign) : Canonical (composed s m e) := by
  unfold composed
  split
  · trivial
  · exact h

/-- A mantissa that was rounded is put in the form that is stored: if it was rounded up to a power of two, then it has
one bit too many. -/
theorem exists_composed {n : ℕ} {f : ℤ} (h : Rounds t n f) (s : Sign) :
    ∃ k g, Fits k g ∧ (k : ℚ) * 2 ^ g = n * 2 ^ f ∧ composed s (shiftToTargetExponent binary64 n f .exact).1.mantissa
        (shiftToTargetExponent binary64 n f .exact).2 = composed s k g := by
  have hlowest := h.lowest
  rcases h.le_full.lt_or_eq with hlt | rfl
  · have hlog : n.log2 < 53 := by
      rcases eq_or_ne n 0 with rfl | hn
      · norm_num
      · exact (Nat.log2_lt hn).mpr hlt
    have hshift : (binary64.targetExponent (totalExponent n f) - f).toNat = 0 := by
      rw [targetExponent_eq, totalExponent]
      omega
    refine ⟨n, f, ⟨hlt, hlowest, h.large_or⟩, rfl, ?_⟩
    simp only [shiftToTargetExponent, shiftToExponent, hshift]
    exact congrArg (composed s n) (add_zero f)
  · have htot : totalExponent (2 ^ 53) f = 54 + f := by
      rw [totalExponent, Nat.log2_two_pow]
      norm_num
    have hshift : (binary64.targetExponent (totalExponent (2 ^ 53) f) - f).toNat = 1 := by
      rw [targetExponent_eq, htot]
      omega
    refine ⟨2 ^ 52, f + 1, ⟨by norm_num, by omega, .inl le_rfl⟩, ?_, ?_⟩
    · rw [zpow_add_one₀ (by norm_num)]
      push_cast
      ring
    · simp only [shiftToTargetExponent, shiftToExponent, hshift]
      rfl

/-- A number in the form that is stored to which `t` is rounded: no other one separates them. -/
structure Faithful (t : ℚ) (u : UnpackedFloat) : Prop where
  canonical : Canonical u
  worth_le : ∀ v, Canonical v → t ≤ worth v → worth u ≤ worth v
  le_worth : ∀ v, Canonical v → worth v ≤ t → worth v ≤ worth u

variable {u v : UnpackedFloat}

theorem Canonical.faithful (h : Canonical u) : Faithful (worth u) u :=
  ⟨h, fun _ _ hle => hle, fun _ _ hle => hle⟩

/-- A value that a binary number has is not changed by rounding. -/
theorem Faithful.worth_eq (h : Faithful t u) (hv : Canonical v) (ht : worth v = t) : worth u = t := by
  subst ht
  exact le_antisymm (h.worth_le v hv le_rfl) (h.le_worth v hv le_rfl)

theorem worth_neg (u : UnpackedFloat) : worth u.neg = -worth u := by
  cases u with
  | finite s m e hm =>
    have hneg : -Sign.negative = .positive := rfl
    have hpos : -Sign.positive = .negative := rfl
    cases s <;> simp [worth, UnpackedFloat.neg, signed, hneg, hpos]
  | zero | infinity | notANumber => simp [worth, UnpackedFloat.neg]

theorem Canonical.neg (h : Canonical u) : Canonical u.neg := by
  cases u with
  | zero => trivial
  | finite | infinity | notANumber => exact h

theorem Faithful.neg (h : Faithful t u) : Faithful (-t) u.neg := by
  refine ⟨h.canonical.neg, fun v hv hle => ?_, fun v hv hle => ?_⟩
  · have := h.le_worth v.neg hv.neg (by rw [worth_neg]; linarith)
    rw [worth_neg] at this ⊢
    linarith
  · have := h.worth_le v.neg hv.neg (by rw [worth_neg]; linarith)
    rw [worth_neg] at this ⊢
    linarith

theorem neg_composed (m : ℕ) (e : ℤ) : (composed .positive m e).neg = composed .negative m e := by
  unfold composed
  split <;> rfl

/-- No binary number lies between a number that is not negative and the rounded one. -/
theorem Rounds.faithful {n k : ℕ} {f g : ℤ} (h : Rounds t n f) (ht : 0 ≤ t) (hfits : Fits k g)
    (heq : (k : ℚ) * 2 ^ g = n * 2 ^ f) : Faithful t (composed .positive k g) := by
  have hworth : worth (composed .positive k g) = n * 2 ^ f := by
    rw [worth_composed, ← heq]
    rfl
  have hnn : (0 : ℚ) ≤ n * 2 ^ f := mul_nonneg (Nat.cast_nonneg n) (two_zpow_pos f).le
  refine ⟨hfits.canonical_composed .positive, fun v hv hle => ?_, fun v hv hle => ?_⟩ <;> rw [hworth]
  · cases v with
    | zero =>
      have := h.mul_le (k := 0) (g := -1074) (by norm_num) le_rfl (by simpa [worth] using hle)
      simpa [worth] using this
    | finite s m e hm =>
      have hpos : (0 : ℚ) < m * 2 ^ e := mul_pos (mod_cast hm) (two_zpow_pos e)
      cases s with
      | positive => exact h.mul_le hv.lt hv.lowest hle
      | negative =>
        rw [worth, signed] at hle
        linarith
    | infinity | notANumber => exact hv.elim
  · cases v with
    | zero => exact hnn
    | finite s m e hm =>
      have hpos : (0 : ℚ) < m * 2 ^ e := mul_pos (mod_cast hm) (two_zpow_pos e)
      cases s with
      | positive => exact h.le_mul hv.lt hv.lowest hle
      | negative =>
        rw [worth, signed]
        linarith
    | infinity | notANumber => exact hv.elim

end LabBench.Number
