import LabBench.Number.Numeral
import LabBench.Proofs.Number.Exact
/-!
# Reading of decimals

A decimal is read as the nearest binary number: a few digits by one product or quotient of two numbers that are exact,
and all others by one product or quotient that is found with all digits. A decimal that lies in the interval around a
binary number is therefore read as this number.
-/

namespace LabBench.Number

open Float.Model Float.Model.UnpackedFloat Format

variable {k d : ℕ} {g q : ℤ}

/-! ### Bounds -/

theorem ReadsAs.lt {t : ℚ} (h : ReadsAs k g t) (hfits : Fits k g) (hk : 0 < k) : (2 : ℚ) ^ (-1076 : ℤ) < t := by
  have hone : (1 : ℚ) ≤ k := mod_cast hk
  have hpow : (2 : ℚ) ^ (-1074 : ℤ) ≤ 2 ^ g := zpow_le_zpow_right₀ (by norm_num) hfits.lowest
  have hquarter : (2 : ℚ) ^ (-1074 : ℤ) = 4 * 2 ^ (-1076 : ℤ) := by
    rw [show (-1074 : ℤ) = 2 + -1076 by norm_num, zpow_add₀ two_ne_zero]
    norm_num
  have hpos := two_zpow_pos (-1076)
  have hlo := (lower_ge hk g).trans h.lower
  generalize (2 : ℚ) ^ (-1076 : ℤ) = r at *
  nlinarith

theorem ReadsAs.lt_of_le {t : ℚ} (h : ReadsAs k g t) (hfits : Fits k g) (hg : g ≤ 971) : t < (2 : ℚ) ^ (1024 : ℤ) := by
  have hk : (k : ℚ) + 1 ≤ 2 ^ 53 := mod_cast hfits.lt
  have hpow : (2 : ℚ) ^ g ≤ 2 ^ (971 : ℤ) := zpow_le_zpow_right₀ (by norm_num) hg
  have hpower : (2 : ℚ) ^ (1024 : ℤ) = 2 ^ 53 * 2 ^ (971 : ℤ) := by
    rw [show (1024 : ℤ) = 53 + 971 by norm_num, zpow_add₀ two_ne_zero, zpow_ofNat]
  have hpos := two_zpow_pos g
  have hup := h.upper
  rw [upper_eq] at hup
  rw [hpower]
  generalize (2 : ℚ) ^ (971 : ℤ) = r at hpow
  calc t ≤ (k + 1 / 2) * 2 ^ g := hup
    _ < 2 ^ 53 * 2 ^ g := mul_lt_mul_of_pos_right (by linarith) hpos
    _ ≤ 2 ^ 53 * r := mul_le_mul_of_nonneg_left hpow (by norm_num)

/-! ### Exact numbers -/

theorem exists_canonical (hlt : d < 2 ^ 53) {j : ℤ} (hj : -900 ≤ j) : ∃ v, Canonical v ∧ worth v = d * 2 ^ j := by
  rcases Nat.eq_zero_or_pos d with rfl | hd
  · exact ⟨.zero .positive, trivial, by rw [Nat.cast_zero, zero_mul]; rfl⟩
  have hlog : d.log2 < 53 := (Nat.log2_lt hd.ne').mpr hlt
  have hfits : Fits (d * 2 ^ (52 - d.log2)) (j - (52 - d.log2 : ℕ)) := by
    refine ⟨?_, by omega, .inl ?_⟩
    · calc d * 2 ^ (52 - d.log2) < 2 ^ (d.log2 + 1) * 2 ^ (52 - d.log2) :=
            Nat.mul_lt_mul_of_pos_right Nat.lt_log2_self (Nat.two_pow_pos _)
        _ = 2 ^ 53 := by
            rw [← pow_add]
            congr 1
            omega
    · calc 2 ^ 52 = 2 ^ d.log2 * 2 ^ (52 - d.log2) := by
            rw [← pow_add]
            congr 1
            omega
        _ ≤ d * 2 ^ (52 - d.log2) := Nat.mul_le_mul_right _ (Nat.log2_self_le hd.ne')
  refine ⟨_, hfits.canonical_composed .positive, ?_⟩
  rw [worth_composed, signed, zpow_sub₀ two_ne_zero, zpow_natCast]
  push_cast
  field_simp

theorem Faithful.worth_eq_natCast {u : UnpackedFloat} (h : Faithful d u) (hlt : d < 2 ^ 53) : worth u = d := by
  obtain ⟨v, hv, hworth⟩ := exists_canonical hlt (j := 0) (by norm_num)
  exact h.worth_eq hv (by rw [hworth, zpow_zero, mul_one])

theorem abs_natCast_le (hle : d ≤ 2 ^ 54) : |(d : ℚ)| ≤ worth largest := by
  rw [abs_of_nonneg (Nat.cast_nonneg d)]
  exact le_worth_largest (mod_cast hle)

theorem value_toFloat (hlt : d < 2 ^ 53) : d.toUInt64.toFloat.isFinite ∧ value d.toUInt64.toFloat = d := by
  have htoNat : d.toUInt64.toNat = d := by
    rw [Nat.toUInt64_eq, UInt64.toNat_ofNat_of_lt' (hlt.trans (by decide))]
  have hfaith := faithful_normalize (d : ℤ) 0 .positive
  rw [zpow_zero, mul_one, Int.cast_natCast] at hfaith
  have hparts : parts d.toUInt64.toFloat =
      (Float.Model.pack (UnpackedFloat.normalize binary64 d 0 .positive)).unpack := by
    conv_rhs => rw [← htoNat]
    rfl
  have hnearby := hfaith.nearby (abs_natCast_le (hlt.le.trans (by norm_num))) hparts
  exact ⟨hnearby.isFinite, hnearby.faithful.worth_eq_natCast hlt⟩

theorem value_powersOfTen {i : ℕ} (hi : i < Float.exactlyRepresentablePowersOfTen.size) :
    Float.exactlyRepresentablePowersOfTen[i].isFinite ∧ value Float.exactlyRepresentablePowersOfTen[i] = 10 ^ i := by
  have hall : ∀ i : Fin 23, Float.exactlyRepresentablePowersOfTen[i].isFinite ∧
      Exact.ofFloat Float.exactlyRepresentablePowersOfTen[i] =
        .finite false (10 ^ i.val * 2 ^ 52 / 2 ^ (10 ^ i.val).log2) ((10 ^ i.val).log2 - 52) ∧
      2 ^ (10 ^ i.val).log2 ∣ 10 ^ i.val * 2 ^ 52 := by
    decide +kernel
  obtain ⟨hfin, hexact, hdvd⟩ := hall ⟨i, hi⟩
  refine ⟨hfin, ?_⟩
  obtain ⟨negative, m, e, hparts, hexact', -, -⟩ := exists_parts hfin
  obtain ⟨rfl, rfl, rfl⟩ := Exact.finite.inj (hexact'.symm.trans hexact)
  have hval : value Float.exactlyRepresentablePowersOfTen[i] =
      signed (signOf false) ((10 ^ i * 2 ^ 52 / 2 ^ (10 ^ i).log2 : ℕ) * 2 ^ ((10 ^ i : ℕ).log2 - 52 : ℤ)) := by
    rw [value, ← worth_composed]
    exact congrArg worth hparts
  rw [hval, Nat.cast_div hdvd (by positivity), zpow_sub₀ two_ne_zero, zpow_natCast]
  push_cast
  simp only [signOf, signed, Bool.false_eq_true, if_false]
  field_simp

/-! ### Digits and a power of ten -/

theorem float_mul_one (x : Float) : x * 1.0 = x := by
  apply eq_of_parts_eq
  rw [parts_mul]
  by_cases hx : x.isFinite
  · obtain ⟨negative, m, e, hparts, -, hfits, he⟩ := exists_parts hx
    rcases Nat.eq_zero_or_pos m with rfl | hm
    · have hzero : composed (signOf negative) 0 e = .zero (signOf negative) := rfl
      rw [hparts, hzero]
      cases negative <;> rfl
    · have hone : worth (parts 1.0) = 1 := by
        have hparts : parts 1.0 = composed .positive (2 ^ 52) (-52) := rfl
        rw [hparts, worth_composed]
        norm_num [signed]
      have hnearest := nearest_mul (canonical_parts hx) (canonical_parts (x := 1.0) (by decide +kernel))
      rw [hone, mul_one, hparts, worth_composed] at hnearest
      have hself : signed (signOf negative) (signed (signOf negative) (m * 2 ^ e)) = m * 2 ^ e := by
        cases negative
        · rfl
        · exact neg_neg _
      rw [hparts, hnearest.eq_of_readsAs hfits hm (signOf negative) (hself.symm ▸ readsAs_self hm e)]
      exact unpack_pack_composed hfits he _
  · rcases ofFloat_of_not_isFinite hx with ⟨hparts, -⟩ | ⟨negative, hparts, -⟩
    · rw [hparts]
      rfl
    · rw [hparts]
      cases negative <;> rfl

theorem exponent_bounds (hd : 0 < d) (hfits : Fits k g) (hg : g ≤ 971) (hk : 0 < k)
    (hreads : ReadsAs k g (d * 10 ^ q)) : q ≤ 2 ^ 11 ∧ -(2 ^ 11 + d.log2 : ℤ) ≤ q := by
  have hdpos : (1 : ℚ) ≤ d := mod_cast hd
  constructor
  · by_contra! hlarge
    have hten : (2 : ℚ) ^ (1024 : ℤ) ≤ 10 ^ q :=
      calc (2 : ℚ) ^ (1024 : ℤ) ≤ 2 ^ q := zpow_le_zpow_right₀ (by norm_num) (by omega)
        _ ≤ 10 ^ q := zpow_le_zpow_left₀ (by omega) (by norm_num) (by norm_num)
    have hlt := hreads.lt_of_le hfits hg
    have hpos : (0 : ℚ) < 10 ^ q := zpow_pos (by norm_num) q
    generalize (2 : ℚ) ^ (1024 : ℤ) = r at hten hlt
    nlinarith
  · by_contra! hsmall
    have hlt := hreads.lt hfits hk
    have hd' : (d : ℚ) ≤ 2 ^ ((d.log2 : ℤ) + 1) := by
      exact_mod_cast (Nat.lt_log2_self (n := d)).le
    have hten : (10 : ℚ) ^ q ≤ 2 ^ q := by
      have hneg : q = -((-q).toNat : ℤ) := by omega
      rw [hneg, zpow_neg, zpow_neg, zpow_natCast, zpow_natCast]
      exact inv_anti₀ (by positivity) (pow_le_pow_left₀ (by norm_num) (by norm_num) _)
    have hle : (d : ℚ) * 10 ^ q ≤ 2 ^ (-1076 : ℤ) :=
      calc (d : ℚ) * 10 ^ q ≤ 2 ^ ((d.log2 : ℤ) + 1) * 2 ^ q :=
            mul_le_mul hd' hten (zpow_pos (by norm_num) q).le (two_zpow_pos _).le
        _ = 2 ^ ((d.log2 : ℤ) + 1 + q) := (zpow_add₀ two_ne_zero _ _).symm
        _ ≤ 2 ^ (-1076 : ℤ) := zpow_le_zpow_right₀ (by norm_num) (by omega)
    exact absurd hlt (not_lt.mpr hle)

theorem nearest_ofScientific (hd : 0 < d) (hle : q ≤ 2 ^ 11) (hge : -(2 ^ 11 + d.log2 : ℤ) ≤ q) :
    Nearest (d * 10 ^ q) (UnpackedFloat.ofScientific binary64 d q) := by
  have hbits : binary64.exponentBits = 11 := rfl
  have hman : binary64.mantissaBits = 53 := rfl
  unfold UnpackedFloat.ofScientific
  rw [dif_neg hd.ne', hbits, if_neg (by omega), if_neg (by omega)]
  by_cases hq : 0 ≤ q
  · have hval : (d : ℚ) * 10 ^ q = ((d <<< binary64.mantissaBits : ℕ) : ℚ) * 2 ^ (-(binary64.mantissaBits : ℤ)) *
        ((10 ^ q.toNat : ℕ) * 2 ^ (0 : ℤ)) := by
      have hq' : (10 : ℚ) ^ q = 10 ^ q.toNat := by
        conv_lhs => rw [← Int.toNat_of_nonneg hq, zpow_natCast]
      rw [hman, Nat.shiftLeft_eq, hq', zpow_neg, zpow_zero]
      push_cast
      field_simp
    have hlarge : 2 ^ 53 ≤ d <<< 53 * 10 ^ q.toNat := by
      rw [Nat.shiftLeft_eq, mul_comm d, mul_assoc]
      exact Nat.le_mul_of_pos_right _ (Nat.mul_pos hd (Nat.pow_pos (by norm_num)))
    have hlog := (Nat.le_log2 (by omega)).mpr hlarge
    rw [if_pos hq, hval]
    refine nearest_mul_finite .positive .positive _ _ ?_
    rw [targetExponent_eq, totalExponent, hman]
    omega
  · have hval : (d : ℚ) * 10 ^ q = d * 2 ^ (0 : ℤ) / ((10 ^ (-q).toNat : ℕ) * 2 ^ (0 : ℤ)) := by
      have hq' : q = -((-q).toNat : ℤ) := by omega
      conv_lhs => rw [hq', zpow_neg, zpow_natCast]
      push_cast
      rw [mul_one, mul_one, div_eq_mul_inv]
    rw [if_neg hq, hval]
    exact nearest_div_finite .positive .positive _ _ 0 0

/-- Some digits and a power of ten are read as a binary number that is nearest to them. -/
theorem exists_nearest_ofScientific (hd : 0 < d) (hle : q ≤ 2 ^ 11) (hge : -(2 ^ 11 + d.log2 : ℤ) ≤ q) :
    ∃ u, Nearest (d * 10 ^ q) u ∧ parts (Float.ofScientific d (q < 0) q.natAbs) = (Float.Model.pack u).unpack := by
  unfold Float.ofScientific
  split
  · rename_i hfast
    obtain ⟨hfin, hval⟩ := value_toFloat hfast.1
    have hsize : q.natAbs < Float.exactlyRepresentablePowersOfTen.size := by
      have : Float.exactlyRepresentablePowersOfTen.size = 23 := rfl
      omega
    obtain ⟨hfin', hval'⟩ := value_powersOfTen hsize
    rw [← hval]
    by_cases hq : q < 0
    · have hq' : (10 : ℚ) ^ q = (value Float.exactlyRepresentablePowersOfTen[q.natAbs])⁻¹ := by
        rw [hval', ← zpow_natCast, ← zpow_neg]
        congr 1
        omega
      rw [if_pos (decide_eq_true hq), hq', ← div_eq_mul_inv]
      exact ⟨_, nearest_div (canonical_parts hfin) (canonical_parts hfin') (hval'.trans_ne (by positivity)),
        parts_div _ _⟩
    · have hq' : (10 : ℚ) ^ q = value Float.exactlyRepresentablePowersOfTen[q.natAbs] := by
        rw [hval', ← zpow_natCast]
        congr 1
        omega
      rw [if_neg (by simpa using hq), hq']
      exact ⟨_, nearest_mul (canonical_parts hfin) (canonical_parts hfin'), parts_mul _ _⟩
  · have hexp : (if decide (q < 0) = true then Int.negOfNat q.natAbs else Int.ofNat q.natAbs) = q := by
      split
      · rename_i hq
        rw [decide_eq_true_eq] at hq
        rw [Int.negOfNat_eq, Int.ofNat_eq_natCast]
        omega
      · rename_i hq
        rw [decide_eq_true_eq] at hq
        simp only [Int.ofNat_eq_natCast]
        omega
    rw [hexp]
    exact ⟨_, nearest_ofScientific hd hle hge, rfl⟩

/-! ### Written decimals -/

theorem two_zpow_le_ten_zpow {a b : ℕ} (h : 2 ^ a ≤ 10 ^ b) : (2 : ℚ) ^ (a : ℤ) ≤ 10 ^ (b : ℤ) := by
  rw [zpow_natCast, zpow_natCast]
  exact_mod_cast h

theorem length_toDigits_bounds (hd : 0 < d) :
    (10 : ℚ) ^ ((Nat.toDigits 10 d).length - 1 : ℤ) ≤ d ∧ (d : ℚ) < 10 ^ ((Nat.toDigits 10 d).length : ℤ) := by
  have hlen : 0 < (Nat.toDigits 10 d).length := Nat.length_toDigits_pos
  have hup := (Nat.length_toDigits_le_iff (b := 10) (n := d) (by norm_num) hlen).mp le_rfl
  generalize hn : (Nat.toDigits 10 d).length = n at hlen hup
  obtain ⟨n, rfl⟩ := Nat.exists_eq_succ_of_ne_zero hlen.ne'
  have hlo : 10 ^ n ≤ d := by
    by_contra! hlt
    rcases Nat.eq_zero_or_pos n with rfl | hpos
    · omega
    · have := (Nat.length_toDigits_le_iff (b := 10) (by norm_num) hpos).mpr hlt
      omega
  have hexp : ((n.succ : ℕ) : ℤ) - 1 = n := by omega
  rw [hexp, zpow_natCast, zpow_natCast]
  exact ⟨mod_cast hlo, mod_cast hup⟩

/-- The length of a decimal together with its exponent, if it is in the interval around a binary number. -/
theorem length_bounds (hd : 0 < d) (hfits : Fits k g) (hg : g ≤ 971) (hk : 0 < k) (hreads : ReadsAs k g (d * 10 ^ q)) :
    -330 ≤ (Nat.toDigits 10 d).length + q ∧ (Nat.toDigits 10 d).length + q ≤ 310 := by
  obtain ⟨hlo, hup⟩ := length_toDigits_bounds hd
  have hten (n : ℤ) : (0 : ℚ) < 10 ^ n := zpow_pos (by norm_num) n
  constructor
  · by_contra! hsmall
    have hlt := hreads.lt hfits hk
    have hbound : (2 : ℚ) ^ (1076 : ℤ) ≤ 10 ^ (331 : ℤ) :=
      two_zpow_le_ten_zpow (a := 1076) (b := 331) (by decide +kernel)
    have hle : (d : ℚ) * 10 ^ q ≤ 2 ^ (-1076 : ℤ) :=
      calc (d : ℚ) * 10 ^ q ≤ 10 ^ ((Nat.toDigits 10 d).length : ℤ) * 10 ^ q :=
            mul_le_mul_of_nonneg_right hup.le (hten q).le
        _ = 10 ^ ((Nat.toDigits 10 d).length + q) := (zpow_add₀ (by norm_num) _ _).symm
        _ ≤ 10 ^ (-331 : ℤ) := zpow_le_zpow_right₀ (by norm_num) (by omega)
        _ ≤ 2 ^ (-1076 : ℤ) := by
            rw [zpow_neg, zpow_neg]
            exact inv_anti₀ (two_zpow_pos _) hbound
    exact absurd hlt (not_lt.mpr hle)
  · by_contra! hlarge
    have hlt := hreads.lt_of_le hfits hg
    have hbound : (2 : ℚ) ^ (1024 : ℤ) ≤ 10 ^ (310 : ℤ) :=
      two_zpow_le_ten_zpow (a := 1024) (b := 310) (by decide +kernel)
    have hle : (2 : ℚ) ^ (1024 : ℤ) ≤ d * 10 ^ q :=
      calc (2 : ℚ) ^ (1024 : ℤ) ≤ 10 ^ (310 : ℤ) := hbound
        _ ≤ 10 ^ ((Nat.toDigits 10 d).length - 1 + q : ℤ) := zpow_le_zpow_right₀ (by norm_num) (by omega)
        _ = 10 ^ ((Nat.toDigits 10 d).length - 1 : ℤ) * 10 ^ q := zpow_add₀ (by norm_num) _ _
        _ ≤ d * 10 ^ q := mul_le_mul_of_nonneg_right hlo (hten q).le
    exact absurd hlt (not_lt.mpr hle)

theorem parts_neg (x : Float) : parts (-x) = (Float.Model.pack (parts x).neg).unpack := rfl

/-- A written decimal is read as the binary number in whose interval it is. -/
theorem Numeral.parts_toFloat (hd : 0 < d) (hfits : Fits k g) (hg : g ≤ 971) (hk : 0 < k)
    (hreads : ReadsAs k g (d * 10 ^ q)) (negative : Bool) :
    parts (Numeral.decimal negative d q).toFloat = composed (signOf negative) k g := by
  obtain ⟨hlo, hup⟩ := length_bounds hd hfits hg hk hreads
  have hzero : ¬((d == 0 || decide (((Nat.toDigits 10 d).length : ℤ) + q < -330)) = true) := by
    simp only [Bool.or_eq_true, beq_iff_eq, decide_eq_true_eq]
    omega
  obtain ⟨hle, hge⟩ := exponent_bounds hd hfits hg hk hreads
  obtain ⟨u, hu, hpos⟩ := exists_nearest_ofScientific hd hle hge
  rw [hu.eq_of_readsAs hfits hk .positive hreads, unpack_pack_composed hfits hg] at hpos
  simp only [Numeral.toFloat]
  rw [if_neg hzero, if_neg (not_lt.mpr hup)]
  cases negative with
  | false => exact hpos
  | true =>
    rw [if_pos rfl, parts_neg, hpos, neg_composed]
    exact unpack_pack_composed hfits hg .negative

/-! ### Whole numbers -/

theorem nearby_ofInt (hle : d ≤ 2 ^ 54) : Nearby d (Float.ofInt d) := by
  rcases Nat.eq_zero_or_pos d with rfl | hd
  · exact ⟨rfl, (canonical_parts (x := Float.ofInt 0) rfl).faithful⟩
  · obtain ⟨u, hu, hparts⟩ := exists_nearest_ofScientific (q := 0) hd (by norm_num) (by omega)
    rw [zpow_zero, mul_one] at hu
    exact hu.nearby (abs_natCast_le hle) hparts

theorem value_ofInt (hlt : d < 2 ^ 53) : value (Float.ofInt d) = d :=
  (nearby_ofInt (hlt.le.trans (by norm_num))).faithful.worth_eq_natCast hlt

end LabBench.Number
