import LabBench.Proofs.Number.Exact
/-!
# The shortest decimals

The exponent of the first digit of a number is found from the lengths of its binary parts, since a hundred thousand
binary digits are as many as 30103 decimal ones. Of the decimals with 17 digits at least one lies in the interval around
a binary number, so that there is always a decimal to be found that is read back.
-/

namespace LabBench.Number

open Ratio

/-! ### Fractions -/

namespace Ratio

def worth (r : Ratio) : ℚ :=
  r.num / r.den

variable {a b r : Ratio}

theorem worth_ofBinary (m : ℕ) (e : ℤ) : (ofBinary m e).worth = m * 2 ^ e :=
  num_div_den m e

theorem worth_whole (n : ℕ) : (⟨n, 1⟩ : Ratio).worth = n := by
  rw [worth, Nat.cast_one, div_one]

theorem den_shift_pos (h : 0 < r.den) (e : ℤ) : 0 < (r.shift e).den := by
  unfold shift
  split
  · exact Nat.mul_pos h (Nat.pow_pos (by norm_num))
  · exact h

theorem worth_shift (r : Ratio) (e : ℤ) : (r.shift e).worth = r.worth * 10 ^ e := by
  unfold shift worth
  simp only [Nat.pow_eq]
  split
  · rename_i hneg
    have he : e = -(e.natAbs : ℤ) := by omega
    conv_rhs => rw [he, zpow_neg, zpow_natCast]
    push_cast
    rw [← div_div, div_eq_mul_inv]
  · rename_i hneg
    have he : e = e.natAbs := by omega
    conv_rhs => rw [he, zpow_natCast]
    push_cast
    ring

theorem cross_le_iff (ha : 0 < a.den) (hb : 0 < b.den) : a.num * b.den ≤ b.num * a.den ↔ a.worth ≤ b.worth := by
  have ha' : (0 : ℚ) < a.den := mod_cast ha
  have hb' : (0 : ℚ) < b.den := mod_cast hb
  rw [worth, worth, div_le_div_iff₀ ha' hb']
  exact_mod_cast Iff.rfl

theorem compare_ne_gt_iff (ha : 0 < a.den) (hb : 0 < b.den) : (a.compare b != .gt) = true ↔ a.worth ≤ b.worth := by
  rw [← cross_le_iff ha hb, compare, bne_iff_ne, Nat.compare_ne_gt]

theorem compare_eq_lt_iff (ha : 0 < a.den) (hb : 0 < b.den) : (a.compare b == .lt) = true ↔ a.worth < b.worth := by
  rw [← not_le, ← cross_le_iff hb ha, compare, beq_iff_eq, Nat.compare_eq_lt, not_le]

theorem div_worth (h : 0 < r.den) : ((r.num / r.den : ℕ) : ℚ) ≤ r.worth ∧ r.worth < (r.num / r.den : ℕ) + 1 := by
  have hden : (0 : ℚ) < r.den := mod_cast h
  rw [worth, le_div_iff₀ hden, div_lt_iff₀ hden]
  constructor
  · exact_mod_cast Nat.div_mul_le_self r.num r.den
  · rw [mul_comm]
    exact_mod_cast Nat.lt_mul_div_succ r.num h

end Ratio

/-! ### The first digit -/

section Logarithm

variable {c k : ℤ} {n l : ℕ}

theorem zpow_le_of_pow_le {x y : ℚ} (hx : 0 < x) (hy : 0 < y) (hn : 0 < n) (h : x ^ (c * n) ≤ y ^ (k * n)) :
    x ^ c ≤ y ^ k := by
  rw [zpow_mul, zpow_mul, zpow_natCast, zpow_natCast] at h
  exact (pow_le_pow_iff_left₀ (zpow_pos hx c).le (zpow_pos hy k).le hn.ne').mp h

/-- If `n` binary digits are almost as many as `l` decimal ones, then a power of ten is found for a power of two. -/
theorem ten_zpow_le_two_zpow (hn : 0 < n) (hlo : 2 ^ n ≤ 10 ^ l) (hup : 10 ^ l ≤ 2 ^ (n + 1)) (hk : k ≤ n)
    (hc : c * n ≤ k * l) : (10 : ℚ) ^ c ≤ 2 ^ (k + 1) := by
  refine zpow_le_of_pow_le (by norm_num) (by norm_num) hn ?_
  have hlo' : (2 : ℚ) ^ n ≤ 10 ^ l := mod_cast hlo
  have hup' : (10 : ℚ) ^ l ≤ 2 ^ (n + 1) := mod_cast hup
  refine (zpow_le_zpow_right₀ (by norm_num) hc).trans ?_
  rcases Int.le_total 0 k with hpos | hneg
  · obtain ⟨j, rfl⟩ := Int.eq_ofNat_of_zero_le hpos
    calc (10 : ℚ) ^ ((j : ℤ) * l) = (10 ^ l) ^ j := by rw [← pow_mul, ← zpow_natCast]; congr 1; push_cast; ring
      _ ≤ (2 ^ (n + 1)) ^ j := pow_le_pow_left₀ (by positivity) hup' j
      _ = 2 ^ (((n + 1) * j : ℕ) : ℤ) := by rw [← pow_mul, zpow_natCast]
      _ ≤ 2 ^ ((j + 1 : ℤ) * n) := zpow_le_zpow_right₀ (by norm_num) (by push_cast; nlinarith)
  · obtain ⟨j, rfl⟩ : ∃ j : ℕ, k = -j := ⟨k.natAbs, by omega⟩
    calc (10 : ℚ) ^ (-(j : ℤ) * l) = ((10 ^ l) ^ j)⁻¹ := by
          rw [← pow_mul, ← zpow_natCast, ← zpow_neg]; congr 1; push_cast; ring
      _ ≤ ((2 ^ n) ^ j)⁻¹ := inv_anti₀ (by positivity) (pow_le_pow_left₀ (by positivity) hlo' j)
      _ = 2 ^ (-(j : ℤ) * n) := by rw [← pow_mul, ← zpow_natCast, ← zpow_neg]; congr 1; push_cast; ring
      _ ≤ 2 ^ ((-(j : ℤ) + 1) * n) := zpow_le_zpow_right₀ (by norm_num) (by nlinarith)

theorem two_zpow_le_ten_zpow_succ (hn : 0 < n) (hlo : 2 ^ n ≤ 10 ^ l) (hup : 10 ^ l ≤ 2 ^ (n + 1)) (hk : -n ≤ k)
    (hc : k * l ≤ c * n) : (2 : ℚ) ^ (k - 1) ≤ 10 ^ c := by
  have h := ten_zpow_le_two_zpow (c := -c) (k := -k) hn hlo hup (by omega) (by linarith)
  have hneg : (k - 1 : ℤ) = -(-k + 1) := by ring
  rw [hneg, zpow_neg]
  rw [zpow_neg] at h
  exact inv_le_of_inv_le₀ (zpow_pos (by norm_num) c) h

end Logarithm

/-- A positive number lies between powers of two, by the lengths of the parts of a fraction. -/
theorem worth_log2_bounds {r : Ratio} (hnum : 0 < r.num) (hden : 0 < r.den) :
    (2 : ℚ) ^ ((r.num.log2 : ℤ) - r.den.log2 - 1) < r.worth ∧ r.worth < 2 ^ ((r.num.log2 : ℤ) - r.den.log2 + 1) := by
  have hpos : (0 : ℚ) < r.den := mod_cast hden
  have hnum₁ : (2 : ℚ) ^ (r.num.log2 : ℤ) ≤ r.num := mod_cast Nat.log2_self_le hnum.ne'
  have hnum₂ : (r.num : ℚ) < 2 ^ ((r.num.log2 : ℤ) + 1) := mod_cast Nat.lt_log2_self (n := r.num)
  have hden₁ : (2 : ℚ) ^ (r.den.log2 : ℤ) ≤ r.den := mod_cast Nat.log2_self_le hden.ne'
  have hden₂ : (r.den : ℚ) < 2 ^ ((r.den.log2 : ℤ) + 1) := mod_cast Nat.lt_log2_self (n := r.den)
  rw [Ratio.worth, lt_div_iff₀ hpos, div_lt_iff₀ hpos]
  constructor
  · calc (2 : ℚ) ^ ((r.num.log2 : ℤ) - r.den.log2 - 1) * r.den
        < 2 ^ ((r.num.log2 : ℤ) - r.den.log2 - 1) * 2 ^ ((r.den.log2 : ℤ) + 1) :=
          mul_lt_mul_of_pos_left hden₂ (two_zpow_pos _)
      _ = 2 ^ (r.num.log2 : ℤ) := by
          rw [← zpow_add₀ two_ne_zero]
          congr 1
          ring
      _ ≤ r.num := hnum₁
  · calc (r.num : ℚ) < 2 ^ ((r.num.log2 : ℤ) + 1) := hnum₂
      _ = 2 ^ ((r.num.log2 : ℤ) - r.den.log2 + 1) * 2 ^ (r.den.log2 : ℤ) := by
          rw [← zpow_add₀ two_ne_zero]
          congr 1
          ring
      _ ≤ 2 ^ ((r.num.log2 : ℤ) - r.den.log2 + 1) * r.den := mul_le_mul_of_nonneg_left hden₁ (two_zpow_pos _).le

/-- The first digit of a positive number stands for the power of ten that is found. -/
theorem leadingExponent_spec {r : Ratio} (hnum : 0 < r.num) (hden : 0 < r.den) (hnum' : r.num.log2 ≤ 100000)
    (hden' : r.den.log2 ≤ 100000) :
    (10 : ℚ) ^ leadingExponent r ≤ r.worth ∧ r.worth < 10 ^ (leadingExponent r + 1) := by
  obtain ⟨hlo, hup⟩ := worth_log2_bounds hnum hden
  have hdigs : 2 ^ 100000 ≤ 10 ^ 30103 ∧ 10 ^ 30103 ≤ 2 ^ (100000 + 1) := by decide +kernel
  have hreach (e : ℤ) : ((((⟨1, 1⟩ : Ratio).shift e).compare r != .gt) = true) ↔ (10 : ℚ) ^ e ≤ r.worth := by
    rw [compare_ne_gt_iff (den_shift_pos Nat.one_pos e) hden, worth_shift, worth_whole, Nat.cast_one, one_mul]
  generalize hk : (r.num.log2 : ℤ) - r.den.log2 = k at hlo hup
  generalize hc : (k * 30103).fdiv 100000 = c
  have hfloor : c * 100000 ≤ k * 30103 ∧ k * 30103 ≤ (c + 1) * 100000 := by
    rw [Int.fdiv_eq_ediv_of_nonneg _ (by norm_num)] at hc
    omega
  have htwo : (2 : ℚ) ^ (k + 1) = 4 * 2 ^ (k - 1) := by
    rw [show k + 1 = 2 + (k - 1) by ring, zpow_add₀ two_ne_zero]
    norm_num
  have hpos := two_zpow_pos (k - 1)
  -- the estimate is at most two too small
  have hleast : (10 : ℚ) ^ (c - 2) ≤ r.worth := by
    have h := ten_zpow_le_two_zpow (c := c) (k := k) (by norm_num) hdigs.1 hdigs.2 (by push_cast; omega)
      (by push_cast; exact hfloor.1)
    have hten : (10 : ℚ) ^ c = 100 * 10 ^ (c - 2) := by
      rw [zpow_sub₀ (by norm_num), zpow_ofNat]
      field_simp
      norm_num
    linarith
  have hmost : r.worth < 10 ^ (c - 2 + 5) := by
    have h := two_zpow_le_ten_zpow_succ (c := c + 1) (k := k) (by norm_num) hdigs.1 hdigs.2 (by push_cast; omega)
      (by push_cast; exact hfloor.2)
    have hten : (10 : ℚ) ^ (c - 2 + 5) = 100 * 10 ^ (c + 1) := by
      rw [show c - 2 + 5 = 2 + (c + 1) by ring, zpow_add₀ (by norm_num)]
      norm_num
    linarith
  simp only [leadingExponent, hk, hc, hreach]
  generalize c - 2 = e at hleast hmost
  split
  · rename_i h
    exact ⟨h, by rwa [add_assoc]⟩
  · rename_i h₄
    split
    · rename_i h
      exact ⟨h, by rw [add_assoc]; exact not_le.mp h₄⟩
    · rename_i h₃
      split
      · rename_i h
        exact ⟨h, by rw [add_assoc]; exact not_le.mp h₃⟩
      · rename_i h₂
        split
        · rename_i h
          exact ⟨h, by rw [add_assoc]; exact not_le.mp h₂⟩
        · rename_i h₁
          exact ⟨hleast, not_le.mp h₁⟩

/-! ### Candidates -/

variable {m : ℕ} {e : ℤ} {count : ℕ} {d : Digits}

theorem readsBack_iff {decimal : Ratio} (h : 0 < decimal.den) :
    readsBack m e decimal = true ↔ ReadsAs m e decimal.worth := by
  have hlo := den_pos (readingBounds m e).1 (e - 2)
  have hup := den_pos (readingBounds m e).2 (e - 2)
  have hbounds := worth_ofBinary
  unfold readsBack
  dsimp only
  split
  · rename_i heven
    rw [Bool.and_eq_true, compare_ne_gt_iff hlo h, compare_ne_gt_iff h hup, hbounds, hbounds]
    have hodd : ¬m % 2 = 1 := by
      rw [beq_iff_eq] at heven
      omega
    exact ⟨fun ⟨h₁, h₂⟩ => ⟨h₁, h₂, fun h => absurd h hodd⟩, fun h => ⟨h.lower, h.upper⟩⟩
  · rename_i heven
    rw [Bool.and_eq_true, compare_eq_lt_iff hlo h, compare_eq_lt_iff h hup, hbounds, hbounds]
    have hodd : m % 2 = 1 := by
      rw [beq_iff_eq] at heven
      omega
    exact ⟨fun ⟨h₁, h₂⟩ => ⟨h₁.le, h₂.le, fun _ => ⟨h₁, h₂⟩⟩, fun h => h.strict hodd⟩

def Digits.worth (d : Digits) : ℚ :=
  d.value * 10 ^ (d.exponent - (d.count - 1))

/-- Digits that are read back as a binary number. -/
structure Digits.ReadBack (m : ℕ) (e : ℤ) (d : Digits) : Prop where
  value_pos : 0 < d.value
  value_lt : d.value < 10 ^ d.count
  count_pos : 0 < d.count
  readsAs : ReadsAs m e d.worth

/-- The whole part of a number that is brought to some digits before the point. -/
def wholeDigits (m : ℕ) (e : ℤ) (count : ℕ) : ℕ :=
  let scaled := (ofBinary m e).shift (count - 1 - leadingExponent (ofBinary m e))
  scaled.num / scaled.den

def fitsAt (m : ℕ) (e : ℤ) (count n : ℕ) : Bool :=
  n != 0 && readsBack m e ((⟨n, 1⟩ : Ratio).shift (-(count - 1 - leadingExponent (ofBinary m e))))

theorem fitsAt_iff {n : ℕ} : fitsAt m e count n = true ↔
    0 < n ∧ ReadsAs m e (n * 10 ^ (leadingExponent (ofBinary m e) - (count - 1) : ℤ)) := by
  have hexp : -((count : ℤ) - 1 - leadingExponent (ofBinary m e)) =
      leadingExponent (ofBinary m e) - (count - 1) := by ring
  rw [fitsAt, Bool.and_eq_true, bne_iff_ne, readsBack_iff (den_shift_pos Nat.one_pos _), worth_shift,
    worth_whole, hexp, Nat.pos_iff_ne_zero]

theorem candidate?_eq_some (h : candidate? m e count = some d) :
    ∃ n, (n = wholeDigits m e count ∨ n = wholeDigits m e count + 1) ∧ fitsAt m e count n = true ∧
      d = if n == 10 ^ count then ⟨10 ^ (count - 1), count, leadingExponent (ofBinary m e) + 1⟩
        else ⟨n, count, leadingExponent (ofBinary m e)⟩ := by
  unfold candidate? at h
  obtain ⟨n, hn, rfl⟩ := Option.map_eq_some_iff.mp h
  refine ⟨n, ?_⟩
  suffices hchosen : (n = wholeDigits m e count ∨ n = wholeDigits m e count + 1) ∧ fitsAt m e count n = true from
    ⟨hchosen.1, hchosen.2, rfl⟩
  split at hn
  · rename_i hboth
    obtain ⟨hbelow, habove⟩ := (Bool.and_eq_true _ _).mp hboth
    cases hn
    split
    · exact ⟨.inl rfl, hbelow⟩
    · exact ⟨.inr rfl, habove⟩
  · split at hn
    · rename_i hbelow
      cases hn
      exact ⟨.inl rfl, hbelow⟩
    · split at hn
      · rename_i habove
        cases hn
        exact ⟨.inr rfl, habove⟩
      · cases hn

theorem candidate?_isSome (h : fitsAt m e count (wholeDigits m e count) = true ∨
    fitsAt m e count (wholeDigits m e count + 1) = true) : (candidate? m e count).isSome := by
  unfold candidate?
  rw [Option.isSome_map]
  split
  · rfl
  · split
    · rfl
    · rename_i hbelow
      split
      · rfl
      · rename_i habove
        exact absurd h (not_or.mpr ⟨hbelow, habove⟩)

theorem wholeDigits_bounds (m : ℕ) (e : ℤ) (count : ℕ) :
    let unit : ℚ := 10 ^ (leadingExponent (ofBinary m e) - (count - 1) : ℤ)
    wholeDigits m e count * unit ≤ m * 2 ^ e ∧ (m : ℚ) * 2 ^ e < (wholeDigits m e count + 1) * unit := by
  intro unit
  have hpos : 0 < unit := zpow_pos (by norm_num) _
  have hscal := Ratio.div_worth (den_shift_pos (den_pos m e) (count - 1 - leadingExponent (ofBinary m e)))
  rw [worth_shift, worth_ofBinary] at hscal
  have hunit : (10 : ℚ) ^ ((count : ℤ) - 1 - leadingExponent (ofBinary m e)) * unit = 1 := by
    rw [← zpow_add₀ (by norm_num)]
    convert zpow_zero (10 : ℚ) using 2
    ring
  change (wholeDigits m e count : ℚ) ≤ _ ∧ _ < (wholeDigits m e count : ℚ) + 1 at hscal
  generalize (10 : ℚ) ^ ((count : ℤ) - 1 - leadingExponent (ofBinary m e)) = f at hscal hunit
  obtain ⟨hlo, hup⟩ := hscal
  have hback : (m : ℚ) * 2 ^ e = m * 2 ^ e * f * unit := by rw [mul_assoc _ f, hunit, mul_one]
  rw [hback]
  exact ⟨mul_le_mul_of_nonneg_right hlo hpos.le, mul_lt_mul_of_pos_right hup hpos⟩

section Fits

variable (hfits : Fits m e) (hm : 0 < m) (he : e ≤ 971)
include hfits hm he

theorem leadingExponent_ofBinary : (10 : ℚ) ^ leadingExponent (ofBinary m e) ≤ m * 2 ^ e ∧
      (m : ℚ) * 2 ^ e < 10 ^ (leadingExponent (ofBinary m e) + 1) := by
  have hlog : m.log2 < 53 := (Nat.log2_lt hm.ne').mpr hfits.lt
  have hlowest := hfits.lowest
  rw [← worth_ofBinary]
  refine leadingExponent_spec ?_ (den_pos m e) ?_ ?_ <;> unfold ofBinary <;> simp only [Nat.pow_eq]
  · split
    · exact hm
    · exact Nat.mul_pos hm (Nat.two_pow_pos _)
  · split
    · exact (show m.log2 ≤ 100000 by omega)
    · have hprod : (m * 2 ^ e.natAbs).log2 = m.log2 + e.natAbs := by
        rw [← Nat.shiftLeft_eq, log2_shiftLeft hm.ne']
      exact (show (m * 2 ^ e.natAbs).log2 ≤ 100000 by omega)
  · split
    · exact (show (2 ^ e.natAbs).log2 ≤ 100000 by rw [Nat.log2_two_pow]; omega)
    · exact Nat.zero_le _

theorem wholeDigits_lt (count : ℕ) : wholeDigits m e count < 10 ^ count := by
  have hlo := (wholeDigits_bounds m e count).1
  have hup := (leadingExponent_ofBinary hfits hm he).2
  have hpos : (0 : ℚ) < 10 ^ (leadingExponent (ofBinary m e) - (count - 1) : ℤ) := zpow_pos (by norm_num) _
  have hpow : (10 : ℚ) ^ (leadingExponent (ofBinary m e) + 1) =
      10 ^ count * 10 ^ (leadingExponent (ofBinary m e) - (count - 1) : ℤ) := by
    rw [← zpow_natCast, ← zpow_add₀ (by norm_num)]
    congr 1
    ring
  rw [hpow] at hup
  exact_mod_cast lt_of_mul_lt_mul_right (hlo.trans_lt hup) hpos.le

theorem readBack_of_candidate? (hcnt : 0 < count) (h : candidate? m e count = some d) : d.ReadBack m e := by
  obtain ⟨n, hn, hfitsAt, rfl⟩ := candidate?_eq_some h
  obtain ⟨hpos, hreads⟩ := fitsAt_iff.mp hfitsAt
  have hlt := wholeDigits_lt hfits hm he count
  split
  · rename_i hten
    obtain rfl : n = 10 ^ count := beq_iff_eq.mp hten
    refine ⟨Nat.pow_pos (by norm_num), Nat.pow_lt_pow_right (by norm_num) (Nat.sub_lt hcnt Nat.one_pos), hcnt, ?_⟩
    -- a one that is followed by one zero less, one place further to the left
    have hworth : (Digits.mk (10 ^ (count - 1)) count (leadingExponent (ofBinary m e) + 1)).worth =
        (10 ^ count : ℕ) * 10 ^ (leadingExponent (ofBinary m e) - (count - 1) : ℤ) := by
      rw [Digits.worth]
      push_cast
      rw [← zpow_natCast, ← zpow_natCast, ← zpow_add₀ (by norm_num), ← zpow_add₀ (by norm_num)]
      congr 1
      omega
    rwa [hworth]
  · rename_i hten
    have hne : n ≠ 10 ^ count := fun heq => hten (beq_iff_eq.mpr heq)
    exact ⟨hpos, by dsimp only; omega, hcnt, hreads⟩

theorem candidate?_seventeen : (candidate? m e 17).isSome := by
  refine candidate?_isSome ?_
  have hbounds := wholeDigits_bounds m e 17
  have hlead := (leadingExponent_ofBinary hfits hm he).1
  rw [fitsAt_iff, fitsAt_iff]
  generalize hn : wholeDigits m e 17 = n at hbounds
  have hunit : (10 : ℚ) ^ leadingExponent (ofBinary m e) =
      10 ^ 16 * 10 ^ (leadingExponent (ofBinary m e) - ((17 : ℕ) - 1) : ℤ) := by
    rw [← zpow_natCast, ← zpow_add₀ (by norm_num)]
    congr 1
    push_cast
    ring
  rw [hunit] at hlead
  have hpos : (0 : ℚ) < 10 ^ (leadingExponent (ofBinary m e) - ((17 : ℕ) - 1) : ℤ) := zpow_pos (by norm_num) _
  dsimp only at hbounds
  generalize (10 : ℚ) ^ (leadingExponent (ofBinary m e) - ((17 : ℕ) - 1) : ℤ) = unit at hlead hpos hbounds
  obtain ⟨hbelow, habove⟩ := hbounds
  have hpow := two_zpow_pos e
  have hm' : (m : ℚ) + 1 ≤ 2 ^ 53 := mod_cast hfits.lt
  have hnpos : 0 < n := by
    rw [Nat.pos_iff_ne_zero]
    rintro rfl
    rw [Nat.cast_zero, zero_add, one_mul] at habove
    linarith
  have hup (t : ℚ) (ht : t < (m + 1 / 2) * 2 ^ e) (hle : (m : ℚ) * 2 ^ e ≤ t) : ReadsAs m e t := by
    have hself := lower_lt hm e
    have hbound := upper_eq m e
    exact ⟨by linarith, by linarith, fun _ => ⟨by linarith, by linarith⟩⟩
  by_cases hpower : m = 2 ^ 52
  · -- the distance of the decimals is less than half of that of the binary numbers
    right
    refine ⟨Nat.succ_pos n, ?_⟩
    subst hpower
    push_cast at *
    exact hup _ (by nlinarith) (by linarith)
  · by_cases hnear : (m - 1 / 2) * 2 ^ e < n * unit
    · left
      have hlo := lower_eq (e := e) hm (.inl hpower)
      have hbound := upper_eq m e
      refine ⟨hnpos, by linarith, by nlinarith, fun _ => ⟨by linarith, by nlinarith⟩⟩
    · right
      refine ⟨Nat.succ_pos n, ?_⟩
      push_cast
      refine hup _ ?_ (by linarith)
      nlinarith

theorem shortest_spec : (shortest m e).ReadBack m e := by
  have hsome : ((List.range' 1 17).findSome? (candidate? m e)).isSome := by
    rw [List.findSome?_isSome_iff]
    exact ⟨17, by decide, candidate?_seventeen hfits hm he⟩
  obtain ⟨d, hd⟩ := Option.isSome_iff_exists.mp hsome
  rw [shortest, hd, Option.getD_some]
  obtain ⟨count, hcnt, hcandidate⟩ := List.exists_of_findSome?_eq_some hd
  exact readBack_of_candidate? hfits hm he (by rw [List.mem_range'] at hcnt; omega) hcandidate

end Fits

end LabBench.Number
