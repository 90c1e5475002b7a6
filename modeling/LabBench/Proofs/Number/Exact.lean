import Mathlib
import LabBench.Proofs.Number.Nearest
/-!
# The exact values of binary numbers

A finite binary number has an exact value, which is read off its bits. Numbers are ordered by their values. The value of
a sum, a product or a quotient is the exact one, rounded to a binary number next to it, as long as it is not too large.
-/

namespace LabBench.Number

open Float.Model Float.Model.UnpackedFloat Format Ratio

variable {x y z : Float} {t : ℚ} {u : UnpackedFloat}

/-! ### Bits -/

theorem toNat_unpackMantissa (b : BitVec binary64.numBits) : (unpackMantissa b).toNat = b.toNat % 2 ^ 52 := by
  simp [unpackMantissa]

theorem toNat_unpackExponent (b : BitVec binary64.numBits) : (unpackExponent b).toNat = b.toNat / 2 ^ 52 % 2 ^ 11 := by
  simp [unpackExponent, Nat.shiftRight_eq_div_pow]

theorem toNat_unpackSign (b : BitVec binary64.numBits) : (unpackSign b).toNat = b.toNat / 2 ^ 63 := by
  have hlt : b.toNat < 2 ^ 64 := b.isLt
  have hbits : (unpackSign b).toNat = b.toNat / 2 ^ 63 % 2 := by
    simp [unpackSign, Nat.shiftRight_eq_div_pow]
  omega

/-- The sign of a number by its first bit. -/
def signOf (negative : Bool) : Sign :=
  if negative then .negative else .positive

theorem ofBitVec_unpackSign (b : BitVec binary64.numBits) :
    Sign.ofBitVec (unpackSign b) = signOf (b.toNat / 2 ^ 63 == 1) := by
  rw [← toNat_unpackSign]
  rcases BitVec.eq_zero_or_eq_one (unpackSign b) with hsign | hsign <;> rw [hsign] <;> rfl

theorem unpack_eq (b : BitVec binary64.numBits) : unpack binary64 b =
    if b.toNat / 2 ^ 52 % 2 ^ 11 = 2047 then
      if b.toNat % 2 ^ 52 = 0 then .infinity (signOf (b.toNat / 2 ^ 63 == 1)) else .notANumber
    else if b.toNat / 2 ^ 52 % 2 ^ 11 = 0 then
      composed (signOf (b.toNat / 2 ^ 63 == 1)) (b.toNat % 2 ^ 52) (-1074)
    else
      composed (signOf (b.toNat / 2 ^ 63 == 1)) (b.toNat % 2 ^ 52 + 2 ^ 52)
        ((b.toNat / 2 ^ 52 % 2 ^ 11 : ℕ) - 1075) := by
  have hmantissa := toNat_unpackMantissa b
  have hexponent := toNat_unpackExponent b
  have himplicit := toNat_implicit (unpackMantissa b)
  have hlarge : unpackExponent b = -1#_ ↔ (unpackExponent b).toNat = 2047 := BitVec.toNat_inj.symm
  have hsmall : unpackExponent b = 0#_ ↔ (unpackExponent b).toNat = 0 := BitVec.toNat_inj.symm
  have hzero : unpackMantissa b = 0#_ ↔ (unpackMantissa b).toNat = 0 := BitVec.toNat_inj.symm
  rw [UnpackedFloat.unpack, ofBitVec_unpackSign, ← hmantissa, ← hexponent]
  refine if_congr hlarge (if_congr hzero rfl rfl) ?_
  have hbias : (binary64.exponentBias : ℤ) = 1023 := rfl
  have hbits : (binary64.mantissaBitsWithoutImplicit : ℤ) = 52 := rfl
  by_cases hexp : unpackExponent b = 0#_
  · have hfst : ((unpackExponent b).toNat : ℤ) = 0 := mod_cast hsmall.mp hexp
    rw [if_pos hexp, if_pos (hsmall.mp hexp), hbias, hbits, hfst]
    unfold composed
    by_cases hman : unpackMantissa b = 0#_
    · rw [dif_pos hman, dif_pos (hzero.mp hman)]
    · rw [dif_neg hman, dif_neg (mt hzero.mpr hman)]
      rfl
  · rw [if_neg hexp, if_neg (mt hsmall.mpr hexp), composed, dif_neg (by omega), hbias, hbits]
    congr 1
    exact himplicit.trans (Nat.add_comm _ _)

theorem parts_cases (x : Float) : (∃ negative m e, parts x = composed (signOf negative) m e ∧
      Exact.ofFloat x = .finite negative m e ∧ Fits m e ∧ e ≤ 971) ∨
    parts x = .notANumber ∧ Exact.ofFloat x = .nan ∨
      ∃ negative, parts x = .infinity (signOf negative) ∧ Exact.ofFloat x = .infinite negative := by
  have hparts : parts x = unpack binary64 x.toBits.toBitVec := rfl
  have hbits : x.toBits.toBitVec.toNat = x.toBits.toNat := rfl
  have hman : x.toBits.toNat % 2 ^ 52 < 2 ^ 52 := Nat.mod_lt _ (by norm_num)
  have hexp : x.toBits.toNat / 2 ^ 52 % 2 ^ 11 < 2 ^ 11 := Nat.mod_lt _ (by norm_num)
  rw [hparts, unpack_eq, hbits]
  simp only [Exact.ofFloat, Nat.pow_eq, beq_iff_eq]
  by_cases hlarge : x.toBits.toNat / 2 ^ 52 % 2 ^ 11 = 2047
  · rw [if_pos hlarge, if_pos hlarge]
    by_cases hzero : x.toBits.toNat % 2 ^ 52 = 0
    · rw [if_pos hzero, if_pos hzero]
      exact .inr (.inr ⟨_, rfl, rfl⟩)
    · rw [if_neg hzero, if_neg hzero]
      exact .inr (.inl ⟨rfl, rfl⟩)
  · rw [if_neg hlarge, if_neg hlarge]
    by_cases hsmall : x.toBits.toNat / 2 ^ 52 % 2 ^ 11 = 0
    · rw [if_pos hsmall, if_pos hsmall]
      exact .inl ⟨_, _, _, rfl, rfl, ⟨by omega, le_rfl, .inr rfl⟩, by norm_num⟩
    · rw [if_neg hsmall, if_neg hsmall]
      exact .inl ⟨_, _, _, rfl, rfl, ⟨by omega, by omega, .inl (by omega)⟩, by omega⟩

theorem exists_parts (h : x.isFinite) : ∃ negative m e, parts x = composed (signOf negative) m e ∧
    Exact.ofFloat x = .finite negative m e ∧ Fits m e ∧ e ≤ 971 := by
  rw [isFinite_eq] at h
  rcases parts_cases x with hx | ⟨hx, -⟩ | ⟨negative, hx, -⟩
  · exact hx
  all_goals
    rw [hx] at h
    cases h

theorem ofFloat_of_not_isFinite (h : ¬x.isFinite) : parts x = .notANumber ∧ Exact.ofFloat x = .nan ∨
      ∃ negative, parts x = .infinity (signOf negative) ∧ Exact.ofFloat x = .infinite negative := by
  refine (parts_cases x).resolve_left ?_
  rintro ⟨negative, m, e, hparts, -⟩
  rw [isFinite_eq, hparts, composed] at h
  split at h <;> exact h rfl

/-! ### Values -/

def value (x : Float) : ℚ :=
  worth (parts x)

theorem canonical_parts (h : x.isFinite) : Canonical (parts x) := by
  obtain ⟨negative, m, e, hparts, -, hfits, -⟩ := exists_parts h
  rw [hparts]
  exact hfits.canonical_composed _

def largest : UnpackedFloat :=
  composed .positive (2 ^ 53 - 1) 971

theorem fits_largest : Fits (2 ^ 53 - 1) 971 :=
  ⟨by norm_num, by norm_num, .inl (by norm_num)⟩

theorem canonical_largest : Canonical largest :=
  fits_largest.canonical_composed _

theorem worth_largest : worth largest = (2 ^ 53 - 1 : ℕ) * 2 ^ (971 : ℤ) := by
  rw [largest, worth_composed, signed]

theorem abs_signed (s : Sign) (t : ℚ) : |signed s t| = |t| := by
  cases s
  · exact abs_neg t
  · rfl

theorem abs_value_le (h : x.isFinite) : |value x| ≤ worth largest := by
  obtain ⟨negative, m, e, hparts, -, hfits, he⟩ := exists_parts h
  have hlt := hfits.lt
  have hnn : (0 : ℚ) ≤ m * 2 ^ e := mul_nonneg (Nat.cast_nonneg m) (two_zpow_pos e).le
  rw [value, hparts, worth_composed, abs_signed, abs_of_nonneg hnn, worth_largest, hfits.mul_le_mul_iff fits_largest]
  omega

theorem unpack_packComponents_subnormal (s : Sign) {m : ℕ} (hm : 0 < m) (hlt : m < 2 ^ 52) :
    unpack binary64 (packComponents binary64 s 0#11 (BitVec.ofNat 52 m)) = .finite s m (-1074) hm := by
  have hman : (BitVec.ofNat 52 m).toNat = m := by rw [BitVec.toNat_ofNat, Nat.mod_eq_of_lt hlt]
  have hne : ¬BitVec.ofNat 52 m = 0#52 := fun h => by
    rw [h, BitVec.toNat_zero] at hman
    omega
  unfold UnpackedFloat.unpack
  simp only [unpackExponent_packComponents, unpackMantissa_packComponents, unpackSign_packComponents,
    Sign.ofBitVec_toBitVec]
  refine (if_neg (by decide)).trans ((if_pos trivial).trans ((dif_neg hne).trans ?_))
  congr 1

theorem unpack_packComponents_normal (s : Sign) {m k : ℕ} (hm : 0 < m) (hle : 2 ^ 52 ≤ m) (hlt : m < 2 ^ 53)
    (hk : 0 < k) (hk' : k < 2047) :
    unpack binary64 (packComponents binary64 s (BitVec.ofNat 11 k) (BitVec.ofNat 52 m)) =
      .finite s m (k - 1075) hm := by
  have hexp : (BitVec.ofNat 11 k).toNat = k := by rw [BitVec.toNat_ofNat, Nat.mod_eq_of_lt (by omega)]
  have hman : (1#1 ++ BitVec.ofNat 52 m).toNat = m := by
    rw [toNat_implicit, BitVec.toNat_ofNat]
    omega
  have hlarge : ¬BitVec.ofNat 11 k = -1#11 := fun h => by
    rw [h] at hexp
    exact hk'.ne hexp.symm
  have hsmall : ¬BitVec.ofNat 11 k = 0#11 := fun h => by
    rw [h] at hexp
    exact hk.ne hexp
  unfold UnpackedFloat.unpack
  simp only [unpackExponent_packComponents, unpackMantissa_packComponents, unpackSign_packComponents,
    Sign.ofBitVec_toBitVec]
  refine (if_neg hlarge).trans ((if_neg hsmall).trans ?_)
  congr 1
  exact congrArg (fun n : ℕ => (n : ℤ) - 1075) hexp

theorem unpack_pack_composed {m : ℕ} {e : ℤ} (h : Fits m e) (he : e ≤ 971) (s : Sign) :
    (Float.Model.pack (composed s m e)).unpack = composed s m e := by
  rcases Nat.eq_zero_or_pos m with rfl | hm
  · exact unpack_pack_zero s
  · have hfin : composed s m e = .finite s m e hm := dif_neg hm.ne'
    have hpack : (Float.Model.pack (.finite s m e hm)).unpack =
        unpack binary64 (UnpackedFloat.pack binary64 (.finite s m e hm)) := rfl
    rw [hfin, hpack]
    by_cases hlarge : 2 ^ 52 ≤ m
    · have hlowest := h.lowest
      have hk : e = ((e + 1075).toNat : ℤ) - 1075 := by omega
      rw [pack_normal s hm hlarge h.lt hk (by omega),
        unpack_packComponents_normal s hm hlarge h.lt (by omega) (by omega), ← hk]
    · have he := h.large_or.resolve_left hlarge
      rw [pack_subnormal s hm (by omega) he, unpack_packComponents_subnormal s hm (by omega), he]

theorem unpack_pack_of_canonical (hu : Canonical u) (hle : |worth u| ≤ worth largest) :
    (Float.Model.pack u).unpack = u := by
  cases u with
  | infinity | notANumber => exact hu.elim
  | zero s => exact unpack_pack_zero s
  | finite s m e hm =>
    have hfits : Fits m e := hu
    have hfin : composed s m e = .finite s m e hm := dif_neg hm.ne'
    have hnn : (0 : ℚ) ≤ m * 2 ^ e := mul_nonneg (Nat.cast_nonneg m) (two_zpow_pos e).le
    rw [worth, abs_signed, abs_of_nonneg hnn] at hle
    have he := (hfits.mul_le_mul_iff fits_largest).mp (by rwa [worth_largest] at hle)
    rw [← hfin]
    exact unpack_pack_composed hfits (by omega) s

/-! ### Rounded results -/

/-- A binary number to which an exact value is rounded. -/
structure Nearby (t : ℚ) (z : Float) : Prop where
  isFinite : z.isFinite
  faithful : Faithful t (parts z)

namespace Nearby

theorem value_le (h : Nearby t z) (hx : x.isFinite) (hle : t ≤ value x) : value z ≤ value x :=
  h.faithful.worth_le _ (canonical_parts hx) hle

theorem le_value (h : Nearby t z) (hx : x.isFinite) (hle : value x ≤ t) : value x ≤ value z :=
  h.faithful.le_worth _ (canonical_parts hx) hle

theorem value_eq (h : Nearby (value x) z) (hx : x.isFinite) : value z = value x :=
  h.faithful.worth_eq (canonical_parts hx) rfl

end Nearby

theorem le_worth_largest (h : t ≤ 2 ^ 54) : t ≤ worth largest := by
  have hfour : (2 : ℚ) ^ (2 : ℤ) ≤ 2 ^ (971 : ℤ) := zpow_le_zpow_right₀ (by norm_num) (by norm_num)
  rw [worth_largest]
  calc t ≤ (2 ^ 53 - 1 : ℕ) * 2 ^ (2 : ℤ) := h.trans (by norm_num)
    _ ≤ (2 ^ 53 - 1 : ℕ) * 2 ^ (971 : ℤ) := mul_le_mul_of_nonneg_left hfour (by norm_num)

theorem Faithful.parts_eq (h : Faithful t u) (hle : |t| ≤ worth largest)
    (hz : parts z = (Float.Model.pack u).unpack) : parts z = u := by
  have hbound : |worth u| ≤ worth largest := by
    have hneg := worth_neg largest
    obtain ⟨hlo, hup⟩ := abs_le.mp hle
    exact abs_le.mpr ⟨hneg.ge.trans (h.le_worth _ canonical_largest.neg (hneg.le.trans hlo)),
      h.worth_le _ canonical_largest hup⟩
  rw [hz, unpack_pack_of_canonical h.canonical hbound]

theorem Faithful.nearby (h : Faithful t u) (hle : |t| ≤ worth largest)
    (hz : parts z = (Float.Model.pack u).unpack) : Nearby t z := by
  have hparts := h.parts_eq hle hz
  have hcan := h.canonical
  refine ⟨?_, hparts ▸ h⟩
  rw [isFinite_eq, hparts]
  cases u with
  | infinity | notANumber => exact hcan.elim
  | zero | finite => rfl

theorem nearby_add (hx : x.isFinite) (hy : y.isFinite) (hle : |value x + value y| ≤ worth largest) :
    Nearby (value x + value y) (x + y) :=
  (faithful_add (canonical_parts hx) (canonical_parts hy)).nearby hle (parts_add x y)

theorem nearby_mul (hx : x.isFinite) (hy : y.isFinite) (hle : |value x * value y| ≤ worth largest) :
    Nearby (value x * value y) (x * y) :=
  (nearest_mul (canonical_parts hx) (canonical_parts hy)).nearby hle (parts_mul x y)

theorem nearby_div (hx : x.isFinite) (hy : y.isFinite) (hne : value y ≠ 0)
    (hle : |value x / value y| ≤ worth largest) : Nearby (value x / value y) (x / y) :=
  (nearest_div (canonical_parts hx) (canonical_parts hy) hne).nearby hle (parts_div x y)

theorem nearby_neg (hx : x.isFinite) : Nearby (-value x) (-x) := by
  refine (canonical_parts hx).faithful.neg.nearby ?_ rfl
  rw [abs_neg]
  exact abs_value_le hx

theorem value_neg (hx : x.isFinite) : value (-x) = -value x :=
  (nearby_neg hx).faithful.worth_eq (canonical_parts hx).neg (worth_neg _)

/-! ### Order -/

theorem isBefore_iff_worth_le {v : UnpackedFloat} (hu : Canonical u) (hv : Canonical v) :
    IsBefore (rank u) (rank v) ↔ worth u ≤ worth v := by
  have hsize {m : ℕ} {e : ℤ} (hm : 0 < m) : (0 : ℚ) < m * 2 ^ e := mul_pos (mod_cast hm) (two_zpow_pos e)
  unfold IsBefore
  rcases u with _ | _ | s | ⟨_ | _, m, e, hm⟩ <;> rcases v with _ | _ | s' | ⟨_ | _, m', e', hm'⟩ <;>
    first | exact hu.elim | exact hv.elim | simp only [rank, worth, signed, lt_self_iff_false, true_and, false_or]
  case zero.zero => simp
  case zero.finite.negative => exact iff_of_false (by omega) (by linarith [hsize (e := e') hm'])
  case zero.finite.positive => exact iff_of_true (by omega) (hsize hm').le
  case finite.negative.zero => exact iff_of_true (by omega) (by linarith [hsize (e := e) hm])
  case finite.negative.finite.negative =>
    refine Iff.trans ?_ (neg_le_neg_iff.trans (Fits.mul_le_mul_iff hv hu)).symm
    omega
  case finite.negative.finite.positive =>
    exact iff_of_true (by omega) (by linarith [hsize (e := e) hm, hsize (e := e') hm'])
  case finite.positive.zero => exact iff_of_false (by omega) (by linarith [hsize (e := e) hm])
  case finite.positive.finite.negative =>
    exact iff_of_false (by omega) (by linarith [hsize (e := e) hm, hsize (e := e') hm'])
  case finite.positive.finite.positive =>
    rw [Fits.mul_le_mul_iff hu hv]
    omega

theorem parts_ne_notANumber (h : x.isFinite) : parts x ≠ .notANumber := by
  intro hparts
  rw [isFinite_eq, hparts] at h
  cases h

theorem parts_ne_infinity (h : x.isFinite) (s : Sign) : parts x ≠ .infinity s := by
  intro hparts
  rw [isFinite_eq, hparts] at h
  cases h

theorem rank_of_isFinite (h : x.isFinite) : IsBefore (rank (.infinity .negative)) (rank (parts x)) ∧
      IsBefore (rank (parts x)) (rank (.infinity .positive)) := by
  have hcan := canonical_parts h
  generalize parts x = u at hcan
  rcases u with _ | _ | s | ⟨_ | _, m, e, hm⟩
  case infinity => exact hcan.elim
  case notANumber => exact hcan.elim
  all_goals exact ⟨.inl (by norm_num [rank]), .inl (by norm_num [rank])⟩

theorem lt_iff_value_lt (hx : x.isFinite) (hy : y.isFinite) : x < y ↔ value x < value y := by
  have hpre := isBefore_iff_worth_le (canonical_parts hy) (canonical_parts hx)
  rw [lt_iff, hpre, not_le]
  simp only [ne_eq, parts_ne_notANumber hx, parts_ne_notANumber hy, not_false_eq_true, true_and]
  rfl

theorem parts_eq_or_of_beq (h : (x == y) = true) : parts x = parts y ∨ IsZero x ∧ IsZero y := by
  rw [beq_eq, beq_iff_ne_notANumber_and_eq] at h
  obtain ⟨-, -, heq | ⟨hx, hy⟩ | ⟨hx, hy⟩⟩ := h
  · exact .inl heq
  · exact .inr ⟨⟨_, hx⟩, _, hy⟩
  · exact .inr ⟨⟨_, hx⟩, _, hy⟩

theorem value_eq_of_beq (h : (x == y) = true) : value x = value y := by
  rcases parts_eq_or_of_beq h with heq | ⟨⟨s, hx⟩, s', hy⟩
  · exact congrArg worth heq
  · rw [value, value, hx, hy]
    rfl

theorem isFinite_of_beq (h : (x == y) = true) : x.isFinite = y.isFinite := by
  rcases parts_eq_or_of_beq h with heq | ⟨hx, hy⟩
  · rw [isFinite_eq, isFinite_eq, heq]
  · exact hx.isFinite.trans hy.isFinite.symm

/-! ### Fractions -/

theorem Ratio.den_pos (m : ℕ) (e : ℤ) : 0 < (ofBinary m e).den := by
  unfold ofBinary
  split
  · exact Nat.two_pow_pos _
  · exact Nat.one_pos

theorem Ratio.num_div_den (m : ℕ) (e : ℤ) : ((ofBinary m e).num : ℚ) / (ofBinary m e).den = m * 2 ^ e := by
  unfold ofBinary
  simp only [Nat.pow_eq]
  split
  · rename_i hneg
    have he : e = -(e.natAbs : ℤ) := by omega
    conv_rhs => rw [he, zpow_neg, zpow_natCast]
    push_cast
    rw [div_eq_mul_inv]
  · rename_i hneg
    have he : e = e.natAbs := by omega
    conv_rhs => rw [he, zpow_natCast]
    push_cast
    rw [div_one]

theorem signed_signOf (negative : Bool) (t : ℚ) : signed (signOf negative) t = if negative then -t else t := by
  cases negative <;> rfl

theorem exists_ratio (h : x.isFinite) : ∃ negative m e, Exact.ofFloat x = .finite negative m e ∧
    value x = (if negative then -((ofBinary m e).num : ℤ) else ((ofBinary m e).num : ℤ) : ℤ) /
      ((ofBinary m e).den : ℚ) := by
  obtain ⟨negative, m, e, hparts, hexact, -, -⟩ := exists_parts h
  refine ⟨negative, m, e, hexact, ?_⟩
  rw [value, hparts, worth_composed, signed_signOf, ← num_div_den]
  cases negative
  · simp
  · simp [neg_div]

theorem truncate?_eq_floor (hx : x.isFinite) (h : 0 ≤ value x) : truncate? x = some ⌊value x⌋ := by
  obtain ⟨negative, m, e, hexact, hval⟩ := exists_ratio hx
  have hden : (0 : ℚ) < (ofBinary m e).den := mod_cast den_pos m e
  have hfloor : ⌊((ofBinary m e).num : ℚ) / (ofBinary m e).den⌋ = ((ofBinary m e).num / (ofBinary m e).den : ℕ) := by
    norm_cast
  simp only [truncate?, hexact]
  rw [hval] at h ⊢
  cases negative with
  | false => simp only [Bool.false_eq_true, if_false, Int.cast_natCast, hfloor]
  | true =>
    -- a number with a sign that is not negative is zero
    have hnum : (ofBinary m e).num = 0 := by
      by_contra hne
      have hpos : (0 : ℚ) < (ofBinary m e).num := mod_cast Nat.pos_of_ne_zero hne
      simp only [if_true, Int.cast_neg, Int.cast_natCast] at h
      exact absurd h (div_neg_of_neg_of_pos (neg_neg_of_pos hpos) hden).not_ge
    simp [hnum]

end LabBench.Number
