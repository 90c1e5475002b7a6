import LabBench.Proofs.Number.Rounding
/-!
# Rounding to the nearest binary number

Sums, products and quotients are found exactly and then rounded to the nearest binary number, where a half goes to the
even one. Around every binary number there is therefore an interval of numbers that are rounded to it, which reaches
half of the way to its neighbours.
-/

namespace LabBench.Number

open Float.Model Float.Model.UnpackedFloat Format

/-! ### Intervals -/

/-- The numbers that are read as `m * 2 ^ e`. The bounds themselves are if `m` is even. -/
structure ReadsAs (m : ℕ) (e : ℤ) (t : ℚ) : Prop where
  lower : (readingBounds m e).1 * 2 ^ (e - 2) ≤ t
  upper : t ≤ (readingBounds m e).2 * 2 ^ (e - 2)
  strict : m % 2 = 1 → (readingBounds m e).1 * 2 ^ (e - 2) < t ∧ t < (readingBounds m e).2 * 2 ^ (e - 2)

variable {m n k : ℕ} {e f g : ℤ} {t : ℚ}

theorem zpow_sub_two (e : ℤ) : (2 : ℚ) ^ (e - 2) = 2 ^ e / 4 := by
  rw [zpow_sub₀ two_ne_zero]
  norm_num

theorem upper_eq (m : ℕ) (e : ℤ) : ((readingBounds m e).2 : ℚ) * 2 ^ (e - 2) = (m + 1 / 2) * 2 ^ e := by
  simp only [readingBounds, zpow_sub_two]
  push_cast
  ring

theorem lower_eq (hm : 0 < m) (h : m ≠ 2 ^ 52 ∨ e ≤ -1074) :
    ((readingBounds m e).1 : ℚ) * 2 ^ (e - 2) = (m - 1 / 2) * 2 ^ e := by
  have hbound : (readingBounds m e).1 = 4 * m - 2 := by
    simp only [readingBounds, Nat.pow_eq, Bool.and_eq_true, beq_iff_eq, decide_eq_true_eq]
    exact if_neg (by omega)
  rw [hbound, zpow_sub_two, Nat.cast_sub (by omega)]
  push_cast
  ring

/-- The way to the number below a power of two is only half as long. -/
theorem lower_eq_of_power (he : -1074 < e) :
    ((readingBounds (2 ^ 52) e).1 : ℚ) * 2 ^ (e - 2) = (2 ^ 52 - 1 / 4) * 2 ^ e := by
  have hbound : (readingBounds (2 ^ 52) e).1 = 4 * 2 ^ 52 - 1 := by
    simp only [readingBounds, Nat.pow_eq, Bool.and_eq_true, beq_iff_eq, decide_eq_true_eq]
    exact if_pos ⟨trivial, he⟩
  rw [hbound, zpow_sub_two]
  norm_num
  ring

theorem lower_ge (hm : 0 < m) (e : ℤ) : (m - 1 / 2) * 2 ^ e ≤ ((readingBounds m e).1 : ℚ) * 2 ^ (e - 2) := by
  have hpos := two_zpow_pos e
  by_cases h : m = 2 ^ 52 ∧ -1074 < e
  · obtain ⟨rfl, he'⟩ := h
    rw [lower_eq_of_power he']
    push_cast
    nlinarith
  · exact (lower_eq hm (by omega)).ge

theorem lower_lt (hm : 0 < m) (e : ℤ) : ((readingBounds m e).1 : ℚ) * 2 ^ (e - 2) < m * 2 ^ e := by
  have hpos := two_zpow_pos e
  have hlt : (readingBounds m e).1 < 4 * m := by
    unfold readingBounds
    dsimp only
    split <;> omega
  have hcast : ((readingBounds m e).1 : ℚ) < 4 * m := mod_cast hlt
  rw [zpow_sub_two]
  nlinarith

theorem readsAs_self (hm : 0 < m) (e : ℤ) : ReadsAs m e (m * 2 ^ e) := by
  have hpos := two_zpow_pos e
  have hlo := lower_lt hm e
  have hup : (m : ℚ) * 2 ^ e < (readingBounds m e).2 * 2 ^ (e - 2) := by
    rw [upper_eq]
    nlinarith
  exact ⟨hlo.le, hup.le, fun _ => ⟨hlo, hup⟩⟩

theorem ReadsAs.isNearest (h : ReadsAs k g t) (hk : 0 < k) : IsNearest (t / 2 ^ g) k := by
  have hpos := two_zpow_pos g
  have hlo := lower_ge hk g
  have hup := upper_eq k g
  have h₁ := h.lower
  have h₂ := h.upper
  rw [hup] at h₂
  refine ⟨?_, ?_, fun hodd => ?_⟩
  · rw [le_div_iff₀ hpos]
    linarith
  · rwa [div_le_iff₀ hpos]
  · obtain ⟨h₃, h₄⟩ := h.strict hodd
    rw [hup] at h₄
    rw [lt_div_iff₀ hpos, div_lt_iff₀ hpos]
    exact ⟨by linarith, h₄⟩

theorem ReadsAs.isNearest_below (h : ReadsAs (2 ^ 52) g t) (hg : -1074 < g) (hlt : t < 2 ^ 53 * 2 ^ (g - 1)) :
    IsNearest (t / 2 ^ (g - 1)) (2 ^ 53) := by
  have hpos := two_zpow_pos (g - 1)
  have hpow : (2 : ℚ) ^ g = 2 * 2 ^ (g - 1) := by
    rw [← zpow_one_add₀ two_ne_zero]
    congr 1
    ring
  have hlo := h.lower
  rw [lower_eq_of_power hg, hpow] at hlo
  refine ⟨?_, ?_, fun hodd => by norm_num at hodd⟩
  · rw [le_div_iff₀ hpos]
    push_cast
    linarith
  · rw [div_le_iff₀ hpos]
    push_cast
    linarith

theorem Rounds.mul_zpow_eq_of_readsAs (h : Rounds t n f)
    (hfits : Fits k g) (hk : 0 < k) (hreads : ReadsAs k g t) : (n : ℚ) * 2 ^ f = k * 2 ^ g := by
  have hnearest {k : ℕ} (hk : IsNearest (t / 2 ^ f) k) : n = k :=
    le_antisymm (h.nearest.le_of_isNearest hk) (hk.le_of_isNearest h.nearest)
  have hlowest := h.lowest
  have hgpos := two_zpow_pos g
  have hfpos := two_zpow_pos f
  have hstep {a b : ℤ} (hab : a < b) : (2 : ℚ) * 2 ^ a ≤ 2 ^ b := by
    rw [← zpow_one_add₀ two_ne_zero]
    exact zpow_le_zpow_right₀ (by norm_num) (by omega)
  rcases lt_trichotomy f g with hlt | rfl | hgt
  · -- the number is below a power of two, and is rounded up to it
    have hlarge := hfits.large_or.resolve_right (by omega)
    have hbelow : t < 2 ^ 52 * 2 ^ g := by
      have := hstep hlt
      linarith [h.lt]
    have hpower : k = 2 ^ 52 := by
      by_contra hne
      have hk' : ((2 ^ 52 + 1 : ℕ) : ℚ) ≤ k := mod_cast (show 2 ^ 52 + 1 ≤ k by omega)
      have hlo := hreads.lower
      rw [lower_eq hk (.inl hne)] at hlo
      push_cast at hk'
      nlinarith
    subst hpower
    have hfg : f = g - 1 := by
      by_contra hne
      have h₁ : (2 : ℚ) * 2 ^ f ≤ 2 ^ (g - 1) := hstep (by omega)
      have h₂ : (2 : ℚ) * 2 ^ (g - 1) ≤ 2 ^ g := hstep (by omega)
      have hlo := hreads.lower
      rw [lower_eq_of_power (by omega)] at hlo
      linarith [h.lt]
    subst hfg
    rw [hnearest (hreads.isNearest_below (by omega) h.lt)]
    have hpow : (2 : ℚ) ^ g = 2 * 2 ^ (g - 1) := by
      rw [← zpow_one_add₀ two_ne_zero]
      congr 1
      ring
    rw [hpow]
    push_cast
    ring
  · rw [hnearest (hreads.isNearest hk)]
  · have hlarge := h.large.resolve_right (by have := hfits.lowest; omega)
    have hk' : (k : ℚ) + 1 ≤ 2 ^ 53 := mod_cast hfits.lt
    have hup := hreads.upper
    rw [upper_eq] at hup
    have := hstep hgt
    nlinarith

theorem Fits.eq_of_mul_zpow_eq (h : Fits m e) (h' : Fits k g) (heq : (m : ℚ) * 2 ^ e = k * 2 ^ g) : m = k ∧ e = g := by
  have hle := (h.mul_le_mul_iff h').mp heq.le
  have hge := (h'.mul_le_mul_iff h).mp heq.ge
  omega

/-- A binary number to which an exact one is rounded: the one in whose interval it is. -/
structure Nearest (t : ℚ) (u : UnpackedFloat) : Prop extends Faithful t u where
  eq_of_readsAs : ∀ {k g}, Fits k g → 0 < k → ∀ s, ReadsAs k g (signed s t) → u = composed s k g

theorem ReadsAs.pos (h : ReadsAs k g t) (hk : 0 < k) : 0 < t := by
  have hone : (1 : ℚ) ≤ k := mod_cast hk
  exact (mul_pos (by linarith) (two_zpow_pos g)).trans_le ((lower_ge hk g).trans h.lower)

theorem nearest_zero (s : Sign) : Nearest 0 (.zero s) := by
  refine ⟨Canonical.faithful (u := .zero s) trivial, fun _ hk s' hreads => ?_⟩
  have hpos := hreads.pos hk
  cases s' <;> simp [signed] at hpos

theorem nearest_roundWithAccuracy {a : Accuracy} {x : ℚ} (h : Describes (.ofMantissaAndAccuracy m a) x)
    (he : e ≤ binary64.targetExponent (totalExponent m e)) (s : Sign) :
    Nearest (signed s (x * 2 ^ e)) (roundWithAccuracy binary64 s m e a) := by
  have hrounds := rounds_first h he
  have hlo := h.mantissa_le
  rw [mantissa_ofMantissaAndAccuracy] at hlo
  have hnn : 0 ≤ x * 2 ^ e := mul_nonneg ((Nat.cast_nonneg m).trans hlo) (two_zpow_pos e).le
  obtain ⟨n, f, hfits, heq, hcomposed⟩ := exists_composed hrounds s
  have hresult : roundWithAccuracy binary64 s m e a = composed s n f := hcomposed
  have hfaith := hrounds.faithful hnn hfits heq
  have hreads {k : ℕ} {g : ℤ} (hfits' : Fits k g) (hk : 0 < k) (hreads : ReadsAs k g (x * 2 ^ e)) :
      composed s n f = composed s k g := by
    obtain ⟨rfl, rfl⟩ := hfits.eq_of_mul_zpow_eq hfits' (heq.trans (hrounds.mul_zpow_eq_of_readsAs hfits' hk hreads))
    rfl
  -- an interval has numbers of its own sign only
  have hneg {k : ℕ} {g : ℤ} (hk : 0 < k) (hreads : ReadsAs k g (-(x * 2 ^ e))) : False := by
    linarith [hreads.pos hk]
  rw [hresult]
  cases s with
  | positive =>
    refine ⟨hfaith, fun hfits' hk s' h => ?_⟩
    cases s' with
    | positive => exact hreads hfits' hk h
    | negative => exact (hneg hk h).elim
  | negative =>
    refine ⟨neg_composed n f ▸ hfaith.neg, fun hfits' hk s' h => ?_⟩
    cases s' with
    | positive => exact (hneg hk h).elim
    | negative =>
      rw [signed, signed, neg_neg] at h
      exact hreads hfits' hk h

variable {u v : UnpackedFloat}

/-! ### Sums -/

theorem decreaseExponent_mul (m : ℕ) (e f : ℤ) :
    ((decreaseExponent m e f).1 : ℚ) * 2 ^ (decreaseExponent m e f).2 = m * 2 ^ e := by
  simp only [decreaseExponent, Nat.shiftLeft_eq]
  push_cast
  rw [mul_assoc, ← zpow_natCast, ← zpow_add₀ (by norm_num)]
  congr 2
  omega

theorem describes_exact (m : ℕ) : Describes (.ofMantissaAndAccuracy m .exact) m := by
  have hzero : (m : ℚ) - m = 0 := sub_self _
  unfold Describes
  rw [mantissa_ofMantissaAndAccuracy, hzero]
  exact Residue.exact

theorem log2_shiftLeft (hm : m ≠ 0) (d : ℕ) : (m <<< d).log2 = m.log2 + d := by
  induction d with
  | zero => rfl
  | succ d ih =>
    have hne : m <<< d ≠ 0 := by simpa [Nat.shiftLeft_eq] using hm
    rw [Nat.shiftLeft_succ, Nat.log2_two_mul hne, ih, add_assoc]

theorem totalExponent_decreaseExponent (hm : m ≠ 0) (e f : ℤ) :
    totalExponent (decreaseExponent m e f).1 (decreaseExponent m e f).2 = totalExponent m e := by
  simp only [decreaseExponent, totalExponent, log2_shiftLeft hm]
  push_cast
  ring

theorem faithful_round (s : Sign) (hm : m ≠ 0) (e : ℤ) :
    Faithful (signed s (m * 2 ^ e)) (UnpackedFloat.round binary64 s m e) := by
  have hexp := totalExponent_decreaseExponent hm e (binary64.targetExponent (totalExponent m e))
  rw [← decreaseExponent_mul m e (binary64.targetExponent (totalExponent m e))]
  refine (nearest_roundWithAccuracy (describes_exact _) ?_ s).toFaithful
  rw [hexp]
  simp only [decreaseExponent]
  omega

theorem faithful_normalize (m : ℤ) (e : ℤ) (s : Sign) :
    Faithful (m * 2 ^ e) (UnpackedFloat.normalize binary64 m e s) := by
  unfold UnpackedFloat.normalize
  rcases lt_trichotomy m 0 with hm | rfl | hm
  · have hcast : ((-m).toNat : ℚ) = -m := by
      exact_mod_cast congrArg (Int.cast (R := ℚ)) (Int.toNat_of_nonneg (show 0 ≤ -m by omega))
    have hround := faithful_round .negative (m := (-m).toNat) (by omega) e
    rw [Int.compare_eq_lt.mpr hm]
    rwa [signed, hcast, neg_mul, neg_neg] at hround
  · rw [Int.cast_zero, zero_mul]
    exact Canonical.faithful (u := .zero s) trivial
  · have hcast : (m.toNat : ℚ) = m := by
      exact_mod_cast congrArg (Int.cast (R := ℚ)) (Int.toNat_of_nonneg hm.le)
    have hround := faithful_round .positive (m := m.toNat) (by omega) e
    rw [Int.compare_eq_gt.mpr hm]
    rwa [signed, hcast] at hround

theorem apply_decreaseExponent (s : Sign) (m : ℕ) {f : ℤ} (h : f ≤ e) :
    (s.apply (decreaseExponent m e f).1 : ℚ) * 2 ^ f = signed s (m * 2 ^ e) := by
  have hmul := decreaseExponent_mul m e f
  have hexp : (decreaseExponent m e f).2 = f := by
    simp only [decreaseExponent]
    omega
  rw [hexp] at hmul
  rw [apply_mul, hmul]

theorem faithful_add (hu : Canonical u) (hv : Canonical v) :
    Faithful (worth u + worth v) (UnpackedFloat.add binary64 u v) := by
  cases u with
  | infinity | notANumber => exact hu.elim
  | zero s =>
    have hworth : worth (.zero s) + worth v = worth v := zero_add _
    rw [hworth]
    cases v with
    | infinity => exact hv.elim
    | notANumber => exact hv.elim
    | zero s' =>
      have hsum (r : Sign) : Faithful (worth (.zero s')) (.zero r) := Canonical.faithful (u := .zero r) trivial
      simp only [UnpackedFloat.add]
      split
      · exact hsum _
      · exact hsum _
    | finite => exact hv.faithful
  | finite s m e hm =>
    cases v with
    | infinity => exact hv.elim
    | notANumber => exact hv.elim
    | zero s' =>
      have hworth : worth (.finite s m e hm) + worth (.zero s') = worth (.finite s m e hm) := add_zero _
      rw [hworth]
      exact hu.faithful
    | finite s' m' e' hm' =>
      have hworth : worth (.finite s m e hm) + worth (.finite s' m' e' hm') =
          ((s.apply (decreaseExponent m e (min e e')).1 + s'.apply (decreaseExponent m' e' (min e e')).1 : ℤ) : ℚ) *
            2 ^ min e e' := by
        push_cast
        rw [add_mul, apply_decreaseExponent s m (min_le_left e e'), apply_decreaseExponent s' m' (min_le_right e e')]
        rfl
      rw [hworth]
      exact faithful_normalize _ _ _

/-! ### Products and quotients -/

/-- The factors of a product have no bits to spare, unless they are very small. -/
theorem le_targetExponent_mul {m' : ℕ} {e' : ℤ} (hm : 0 < m) (hm' : 0 < m') (h : Fits m e) (h' : Fits m' e') :
    e + e' ≤ binary64.targetExponent (totalExponent (m * m') (e + e')) := by
  have hpos : m * m' ≠ 0 := (Nat.mul_pos hm hm').ne'
  rw [targetExponent_eq, totalExponent]
  by_cases hlarge : 2 ^ 52 ≤ m * m'
  · have hlog : 52 ≤ (m * m').log2 := (Nat.le_log2 hpos).mpr hlarge
    omega
  · have hle : m ≤ m * m' := Nat.le_mul_of_pos_right m hm'
    have hle' : m' ≤ m * m' := Nat.le_mul_of_pos_left m' hm
    have he := h.large_or.resolve_left (by omega)
    have he' := h'.large_or.resolve_left (by omega)
    omega

theorem nearest_mul_finite {m' : ℕ} {e' : ℤ} (s s' : Sign) (hm : 0 < m) (hm' : 0 < m')
    (he : e + e' ≤ binary64.targetExponent (totalExponent (m * m') (e + e'))) :
    Nearest (worth (.finite s m e hm) * worth (.finite s' m' e' hm'))
      (UnpackedFloat.mul binary64 (.finite s m e hm) (.finite s' m' e' hm')) := by
  have hworth : worth (.finite s m e hm) * worth (.finite s' m' e' hm') =
      signed (s * s') ((m * m' : ℕ) * 2 ^ (e + e')) := by
    rw [worth, worth, signed_mul, zpow_add₀ (by norm_num)]
    push_cast
    congr 1
    ring
  rw [hworth]
  exact nearest_roundWithAccuracy (describes_exact _) he _

theorem nearest_mul (hu : Canonical u) (hv : Canonical v) :
    Nearest (worth u * worth v) (UnpackedFloat.mul binary64 u v) := by
  cases u with
  | infinity | notANumber => exact hu.elim
  | zero s =>
    have hworth : worth (.zero s) * worth v = 0 := zero_mul _
    rw [hworth]
    cases v with
    | infinity => exact hv.elim
    | notANumber => exact hv.elim
    | zero s' | finite s' => exact nearest_zero (s * s')
  | finite s m e hm =>
    cases v with
    | infinity => exact hv.elim
    | notANumber => exact hv.elim
    | zero s' =>
      have hworth : worth (.finite s m e hm) * worth (.zero s') = 0 := mul_zero _
      rw [hworth]
      exact nearest_zero (s * s')
    | finite s' m' e' hm' => exact nearest_mul_finite s s' hm hm' (le_targetExponent_mul hm hm' hu hv)

theorem describes_div (m : ℕ) {d : ℕ} (hd : 0 < d) :
    Describes (.ofMantissaAndAccuracy (m / d) (accuracyOfFraction (m % d) d)) ((m : ℚ) / d) := by
  have hdpos : (0 : ℚ) < d := mod_cast hd
  have hrest : (m : ℚ) / d - (m / d : ℕ) = (m % d : ℕ) / d := by
    have hm : (m : ℚ) = d * (m / d : ℕ) + (m % d : ℕ) := mod_cast (Nat.div_add_mod m d).symm
    field_simp
    linarith
  have hlt : ((m % d : ℕ) : ℚ) < d := mod_cast Nat.mod_lt m hd
  unfold Describes
  rw [mantissa_ofMantissaAndAccuracy, hrest]
  generalize m % d = r at hlt ⊢
  unfold accuracyOfFraction
  split
  · rename_i hr
    subst hr
    rw [Nat.cast_zero, zero_div]
    exact .exact
  · rename_i hr
    have hrpos : (0 : ℚ) < r := mod_cast Nat.pos_of_ne_zero hr
    rcases lt_trichotomy (2 * r) d with hcmp | hcmp | hcmp
    · have hcast : (2 : ℚ) * r < d := mod_cast hcmp
      rw [Nat.compare_eq_lt.mpr hcmp]
      exact .below (div_pos hrpos hdpos) (by rw [div_lt_div_iff₀ hdpos two_pos]; linarith)
    · have hhalf : (r : ℚ) / d = 1 / 2 := by
        have hcast : (2 : ℚ) * r = d := mod_cast hcmp
        rw [div_eq_div_iff hdpos.ne' two_ne_zero]
        linarith
      rw [Nat.compare_eq_eq.mpr hcmp, hhalf]
      exact .half
    · have hcast : (d : ℚ) < 2 * r := mod_cast hcmp
      rw [Nat.compare_eq_gt.mpr hcmp]
      exact .above (by rw [div_lt_div_iff₀ two_pos hdpos]; linarith) ((div_lt_one hdpos).mpr hlt)

section Quotient

variable {m' : ℕ} {e' : ℤ}

theorem divCore_mul (m m' : ℕ) (e e' : ℤ) : ∃ d : ℕ, (divCore binary64 m e m' e').1 = m * 2 ^ d / m' ∧
      (divCore binary64 m e m' e').2.2 = accuracyOfFraction (m * 2 ^ d % m') m' ∧
      (divCore binary64 m e m' e').2.1 = e - e' - d ∧
      e - e' - d ≤ binary64.targetExponent (totalExponent m e - totalExponent m' e') := by
  refine ⟨(e - e' - min (e - e')
    (binary64.targetExponent (totalExponent m e - totalExponent m' e'))).toNat, ?_, ?_, ?_, ?_⟩
  · simp only [divCore, Nat.shiftLeft_eq]
  · simp only [divCore, Nat.shiftLeft_eq]
  · simp only [divCore]
    omega
  · omega

/-- A quotient is found with at least as many bits as are stored. -/
theorem le_targetExponent_div {d : ℕ} (hm : 0 < m) (hm' : 0 < m')
    (h : e - e' - d ≤ binary64.targetExponent (totalExponent m e - totalExponent m' e')) :
    e - e' - d ≤ binary64.targetExponent (totalExponent (m * 2 ^ d / m') (e - e' - d)) := by
  rw [targetExponent_eq] at h ⊢
  simp only [totalExponent] at h ⊢
  by_cases hsmall : e - e' - d ≤ -1074
  · omega
  · have hlog : m'.log2 + 53 ≤ m.log2 + d + 1 := by omega
    have hpow : 2 ^ (m.log2 + d - m'.log2 - 1) ≤ m * 2 ^ d / m' := by
      rw [Nat.le_div_iff_mul_le hm']
      have hlo : 2 ^ m.log2 ≤ m := Nat.log2_self_le hm.ne'
      have hup : m' < 2 ^ (m'.log2 + 1) := Nat.lt_log2_self
      calc 2 ^ (m.log2 + d - m'.log2 - 1) * m' ≤ 2 ^ (m.log2 + d - m'.log2 - 1) * 2 ^ (m'.log2 + 1) :=
            Nat.mul_le_mul_left _ hup.le
        _ = 2 ^ m.log2 * 2 ^ d := by
            rw [← pow_add, ← pow_add]
            congr 1
            omega
        _ ≤ m * 2 ^ d := Nat.mul_le_mul_right _ hlo
    have hne : m * 2 ^ d / m' ≠ 0 := (Nat.two_pow_pos _).trans_le hpow |>.ne'
    have hquot := (Nat.le_log2 hne).mpr hpow
    omega

theorem nearest_div_finite (s s' : Sign) (hm : 0 < m) (hm' : 0 < m') (e e' : ℤ) :
    Nearest (worth (.finite s m e hm) / worth (.finite s' m' e' hm'))
      (UnpackedFloat.div binary64 (.finite s m e hm) (.finite s' m' e' hm')) := by
  obtain ⟨d, hman, haccuracy, hexp, hle⟩ := divCore_mul m m' e e'
  have hdiv : UnpackedFloat.div binary64 (.finite s m e hm) (.finite s' m' e' hm') = roundWithAccuracy binary64 (s / s')
      (m * 2 ^ d / m') (e - e' - d) (accuracyOfFraction (m * 2 ^ d % m') m') := by
    rw [← hman, ← haccuracy, ← hexp]
    rfl
  have hworth : worth (.finite s m e hm) / worth (.finite s' m' e' hm') =
      signed (s / s') ((m * 2 ^ d : ℕ) / m' * 2 ^ (e - e' - d)) := by
    rw [worth, worth, signed_div, zpow_sub₀ two_ne_zero, zpow_sub₀ two_ne_zero, zpow_natCast]
    congr 1
    push_cast
    field_simp
  rw [hworth, hdiv]
  exact nearest_roundWithAccuracy (describes_div _ hm') (le_targetExponent_div hm hm' hle) _

end Quotient

theorem nearest_div (hu : Canonical u) (hv : Canonical v) (hne : worth v ≠ 0) :
    Nearest (worth u / worth v) (UnpackedFloat.div binary64 u v) := by
  cases v with
  | infinity | notANumber => exact hv.elim
  | zero => exact (hne rfl).elim
  | finite s' m' e' hm' =>
    cases u with
    | infinity | notANumber => exact hu.elim
    | zero s =>
      have hworth : worth (.zero s) / worth (.finite s' m' e' hm') = 0 := zero_div _
      rw [hworth]
      exact nearest_zero (s / s')
    | finite s m e hm => exact nearest_div_finite s s' hm hm' e e'

end LabBench.Number
