import Mathlib
import LabBench.Number.Layout
import LabBench.Number.Spacing
/-!
# Binary numbers

Facts about binary floating-point numbers: packing undoes unpacking, and zero times a number can be added
to another one if the former is finite. Evenly spaced numbers therefore start where they should, unless
they are too far from each other.
-/

namespace LabBench.Number

open Float.Model Float.Model.UnpackedFloat Format

/-! ### Packing -/

theorem toBitVec_ofBitVec (b : BitVec 1) : (Sign.ofBitVec b).toBitVec = b := by
  revert b
  decide

variable {b : BitVec binary64.numBits} {x y z : Float}

theorem packComponents_of_parts {e : BitVec 11} {m : BitVec 52}
    (he : unpackExponent b = e) (hm : unpackMantissa b = m) :
    packComponents binary64 (Sign.ofBitVec (unpackSign b)) e m = b := by
  subst he hm
  simp only [packComponents, toBitVec_ofBitVec, unpackSign, unpackExponent, unpackMantissa, BitVec.extractLsb]
  ext i hi
  grind

theorem toNat_implicit (m : BitVec 52) : (1#1 ++ m).toNat = 2 ^ 52 + m.toNat := by
  rw [BitVec.toNat_append, ← Nat.shiftLeft_add_eq_or_of_lt m.isLt]
  rfl

theorem ofNat_implicit (m : BitVec 52) : BitVec.ofNat 52 (1#1 ++ m).toNat = m := by
  rw [toNat_implicit, BitVec.ofNat_add]
  simp

theorem pack_subnormal (s : Sign) {m : Nat} {e : Int} (hm : 0 < m) (hlt : m < 2 ^ 52) (he : e = -1074) :
    UnpackedFloat.pack binary64 (.finite s m e hm) = packComponents binary64 s 0#11 (BitVec.ofNat 52 m) := by
  subst he
  have hlog : ¬m.log2 + 1 = 53 := by
    have := (Nat.log2_lt (Nat.ne_of_gt hm)).mpr hlt
    omega
  rw [UnpackedFloat.pack]
  exact (if_neg (by decide)).trans (if_neg hlog)

theorem pack_normal (s : Sign) {m k : Nat} {e : Int} (hm : 0 < m) (hle : 2 ^ 52 ≤ m)
    (hlt : m < 2 ^ 53) (he : e = k - 1075) (hk : k + 1 < 2 ^ 11) : UnpackedFloat.pack binary64 (.finite s m e hm) =
      packComponents binary64 s (BitVec.ofNat 11 k) (BitVec.ofNat 52 m) := by
  have hlog : m.log2 + 1 = 53 := by
    have := (Nat.log2_lt (Nat.ne_of_gt hm)).mpr hlt
    have := (Nat.le_log2 (Nat.ne_of_gt hm)).mpr hle
    omega
  have hexp : (e + binary64.exponentBias + binary64.mantissaBitsWithoutImplicit).toNat = k := by
    rw [show binary64.exponentBias = 1023 from rfl,
      show binary64.mantissaBitsWithoutImplicit = 52 from rfl]
    omega
  rw [UnpackedFloat.pack, hexp]
  exact (if_neg (Nat.not_le.mpr hk)).trans (if_pos hlog)

theorem pack_unpack_of_valid (hvalid : binary64.Valid b) : UnpackedFloat.pack binary64 (unpack binary64 b) = b := by
  have hbias : (binary64.exponentBias : Int) = 1023 := rfl
  have hbits : (binary64.mantissaBitsWithoutImplicit : Int) = 52 := rfl
  have hman : (unpackMantissa b).toNat < 2 ^ 52 := (unpackMantissa b).isLt
  have hexp : (unpackExponent b).toNat < 2 ^ 11 := (unpackExponent b).isLt
  have hself (w : Nat) (v : BitVec w) : v = BitVec.ofNat w v.toNat := by simp
  rw [UnpackedFloat.unpack]
  by_cases hlarge : unpackExponent b = -1#_
  · rw [if_pos hlarge]
    by_cases hzero : unpackMantissa b = 0#_
    · rw [if_pos hzero]
      exact packComponents_of_parts hlarge hzero
    · rw [if_neg hzero]
      exact (hvalid.eq_packedNaN hlarge hzero).symm
  · rw [if_neg hlarge]
    by_cases hsmall : unpackExponent b = 0#_
    · rw [if_pos hsmall]
      by_cases hzero : unpackMantissa b = 0#_
      · rw [dif_pos hzero]
        exact packComponents_of_parts hsmall hzero
      · have hbiased : (unpackExponent b).toNat = 0 := by rw [hsmall]; rfl
        rw [dif_neg hzero, pack_subnormal _ _ hman (by omega)]
        exact packComponents_of_parts hsmall (hself _ _)
    · rw [if_neg hsmall]
      have hne : (unpackExponent b).toNat ≠ 2 ^ 11 - 1 := fun h => hlarge (BitVec.eq_of_toNat_eq h)
      have himplicit := toNat_implicit (unpackMantissa b)
      refine (pack_normal _ (k := (unpackExponent b).toNat) _ (by omega) (by omega) (by omega)
        (by omega)).trans (packComponents_of_parts ?_ ?_)
      · exact hself _ _
      · exact (ofNat_implicit _).symm

theorem pack_unpack (a : Float.Model) : Float.Model.pack a.unpack = a := by
  obtain ⟨bits, hvalid⟩ := a
  rw [Float.Model.pack, Float.Model.mk.injEq]
  exact UInt64.toBitVec_inj.mp (pack_unpack_of_valid hvalid)

@[simp]
theorem unpack_pack_zero (s : Sign) : (Float.Model.pack (.zero s)).unpack = .zero s := by
  cases s <;> rfl

@[simp]
theorem unpack_pack_infinity (s : Sign) : (Float.Model.pack (.infinity s)).unpack = .infinity s := by
  cases s <;> rfl

@[simp]
theorem unpack_pack_notANumber : (Float.Model.pack .notANumber).unpack = .notANumber := rfl

/-! ### Zero and the numbers that are not finite -/

def parts (x : Float) : UnpackedFloat := x.toModel.unpack

theorem parts_add (x y : Float) : parts (x + y) = (Float.Model.pack (add binary64 (parts x) (parts y))).unpack :=
  rfl

theorem parts_mul (x y : Float) : parts (x * y) = (Float.Model.pack (mul binary64 (parts x) (parts y))).unpack :=
  rfl

theorem parts_div (x y : Float) : parts (x / y) = (Float.Model.pack (div binary64 (parts x) (parts y))).unpack :=
  rfl

theorem beq_eq (x y : Float) : (x == y) = (parts x).beq (parts y) := rfl

theorem isFinite_eq (x : Float) : x.isFinite = (parts x).isFinite := rfl

theorem ofModel_pack_parts (x : Float) : Float.ofModel (Float.Model.pack (parts x)) = x := by
  rw [parts, pack_unpack]

theorem eq_of_parts_eq (h : parts x = parts y) : x = y := by
  rw [← ofModel_pack_parts x, ← ofModel_pack_parts y, h]

theorem float_mul_comm (x y : Float) : x * y = y * x := by
  have hsign (s s' : Sign) : s * s' = s' * s := by cases s <;> cases s' <;> rfl
  have hmul (u v : UnpackedFloat) : UnpackedFloat.mul binary64 u v = UnpackedFloat.mul binary64 v u := by
    cases u <;> cases v <;> simp only [UnpackedFloat.mul, hsign, Nat.mul_comm, Int.add_comm]
  apply eq_of_parts_eq
  rw [parts_mul, parts_mul, hmul]

theorem isFinite_of_isFinite_pack {u : UnpackedFloat} (h : (Float.Model.pack u).unpack.isFinite) : u.isFinite := by
  cases u with
  | infinity s =>
    rw [unpack_pack_infinity] at h
    exact h
  | notANumber => exact h
  | zero | finite => rfl

theorem isFinite_of_isFinite_sub (h : (x - y).isFinite) : y.isFinite := by
  have hsub : (sub binary64 (parts x) (parts y)).isFinite := isFinite_of_isFinite_pack h
  rw [isFinite_eq]
  revert hsub
  cases parts x <;> cases parts y <;> simp [UnpackedFloat.sub, UnpackedFloat.isFinite]
  split_ifs <;> rfl

theorem isFinite_of_isFinite_div (h : (x / y).isFinite) : x.isFinite := by
  have hdiv : (div binary64 (parts x) (parts y)).isFinite := isFinite_of_isFinite_pack h
  rw [isFinite_eq]
  revert hdiv
  cases parts x <;> cases parts y <;> simp [UnpackedFloat.div, UnpackedFloat.isFinite]

theorem isFinite_of_isFinite_add (h : (x + y).isFinite) : x.isFinite ∧ y.isFinite := by
  have hadd : (add binary64 (parts x) (parts y)).isFinite := isFinite_of_isFinite_pack h
  rw [isFinite_eq, isFinite_eq]
  revert hadd
  cases parts x <;> cases parts y <;> simp [UnpackedFloat.add, UnpackedFloat.isFinite]
  split_ifs <;> rfl

theorem isFinite_of_isFinite_mul (h : (x * y).isFinite) : x.isFinite ∧ y.isFinite := by
  have hmul : (mul binary64 (parts x) (parts y)).isFinite := isFinite_of_isFinite_pack h
  rw [isFinite_eq, isFinite_eq]
  revert hmul
  cases parts x <;> cases parts y <;> simp [UnpackedFloat.mul, UnpackedFloat.isFinite]

/-- A binary number that is zero, of either sign. -/
def IsZero (x : Float) : Prop := ∃ s, parts x = .zero s

theorem isZero_of_beq (h : (x == 0.0) = true) : IsZero x := by
  have hzero : parts 0.0 = .zero .positive := rfl
  rw [beq_eq, hzero] at h
  unfold IsZero
  generalize parts x = u at h ⊢
  cases u with
  | infinity s => cases s <;> simp [UnpackedFloat.beq, UnpackedFloat.compare] at h
  | notANumber => simp [UnpackedFloat.beq, UnpackedFloat.compare] at h
  | zero s => exact ⟨s, rfl⟩
  | finite s => cases s <;> simp [UnpackedFloat.beq, UnpackedFloat.compare] at h

theorem IsZero.isFinite (h : IsZero x) : x.isFinite := by
  obtain ⟨s, hs⟩ := h
  rw [isFinite_eq, hs]
  rfl

theorem IsZero.mul (hz : IsZero z) (hx : x.isFinite) : IsZero (z * x) := by
  obtain ⟨s, hs⟩ := hz
  rw [isFinite_eq] at hx
  rw [IsZero, parts_mul, hs]
  generalize parts x = u at hx ⊢
  cases u with
  | infinity | notANumber => cases hx
  | zero | finite => exact ⟨_, unpack_pack_zero _⟩

theorem mul_isZero (hx : x.isFinite) (hz : IsZero z) : IsZero (x * z) :=
  float_mul_comm z x ▸ hz.mul hx

theorem IsZero.div_of_isFinite (hz : IsZero z) (h : (z / x).isFinite) : IsZero (z / x) := by
  obtain ⟨s, hs⟩ := hz
  rw [isFinite_eq, parts_div, hs] at h
  rw [IsZero, parts_div, hs]
  generalize parts x = u at h ⊢
  cases u with
  | infinity => exact ⟨_, unpack_pack_zero _⟩
  | notANumber | zero => simp [UnpackedFloat.div, UnpackedFloat.isFinite] at h
  | finite => exact ⟨_, unpack_pack_zero _⟩

theorem IsZero.div (h : IsZero (x / y)) (hz : IsZero z) : IsZero (z / y) := by
  obtain ⟨s, hs⟩ := hz
  obtain ⟨t, ht⟩ := h
  rw [parts_div] at ht
  rw [IsZero, parts_div, hs]
  generalize parts x = u at ht
  generalize parts y = v at ht ⊢
  cases v with
  | infinity => exact ⟨_, unpack_pack_zero _⟩
  | notANumber | zero => cases u <;> simp [UnpackedFloat.div] at ht
  | finite => exact ⟨_, unpack_pack_zero _⟩

theorem beq_self (h : x.isFinite) : (x == x) = true := by
  rw [isFinite_eq] at h
  rw [beq_eq]
  generalize parts x = u at h ⊢
  cases u with
  | infinity | notANumber => cases h
  | zero => rfl
  | finite s => cases s <;> simp [UnpackedFloat.beq, UnpackedFloat.compare]

theorem IsZero.add_beq (hz : IsZero z) (hx : x.isFinite) : (z + x == x) = true := by
  obtain ⟨s, hs⟩ := hz
  by_cases hzero : IsZero x
  · obtain ⟨t, ht⟩ := hzero
    rw [beq_eq, parts_add, hs, ht]
    cases s <;> cases t <;> rfl
  · have hadd : add binary64 (.zero s) (parts x) = parts x := by
      rw [isFinite_eq] at hx
      rw [IsZero] at hzero
      generalize parts x = u at hx hzero ⊢
      cases u with
      | infinity | notANumber => cases hx
      | zero t => exact absurd ⟨t, rfl⟩ hzero
      | finite => rfl
    have hparts : parts (z + x) = parts x := by
      rw [parts_add, hs, hadd, parts, pack_unpack]
    rw [beq_eq, hparts, ← beq_eq]
    exact beq_self hx

/-- Zero times a number can be added to another one exactly if the former is finite. -/
theorem IsZero.mul_add_beq_iff {s : Float} (hz : IsZero z) (hx : s.isFinite → x.isFinite) :
    (z * s + x == x) = true ↔ s.isFinite := by
  constructor
  · intro h
    by_contra hs
    obtain ⟨t, ht⟩ := hz
    have hprod : parts (z * s) = .notANumber := by
      rw [isFinite_eq] at hs
      rw [parts_mul, ht]
      generalize parts s = u at hs ⊢
      cases u with
      | infinity | notANumber => simp [UnpackedFloat.mul]
      | zero | finite => exact absurd rfl hs
    rw [beq_eq, parts_add, hprod, UnpackedFloat.add, unpack_pack_notANumber] at h
    simp [UnpackedFloat.beq, UnpackedFloat.compare] at h
  · intro hs
    exact (hz.mul hs).add_beq (hx hs)

theorem cutDigits_eq_self (h : IsZero x ∨ ¬x.isFinite) (count : Nat) : cutDigits count x = x := by
  have hx := (ofModel_pack_parts x).symm
  rw [isFinite_eq, IsZero] at h
  generalize parts x = u at h hx
  subst hx
  cases u with
  | infinity s => cases s <;> rfl
  | notANumber => rfl
  | zero s => cases s <;> rfl
  | finite =>
    rcases h with ⟨s, hs⟩ | h
    · cases hs
    · exact absurd rfl h

/-! ### The first of several numbers -/

def spacing (x y : Float) (count : Nat) : Float :=
  if count ≤ 1 then y - x else (y - x) / Float.ofNat (count - 1)

theorem isFinite_of_isFinite_spacing {count : Nat} (h : (spacing x y count).isFinite) : x.isFinite := by
  rw [spacing] at h
  split at h
  · exact isFinite_of_isFinite_sub h
  · exact isFinite_of_isFinite_sub (isFinite_of_isFinite_div h)

/-- Evenly spaced numbers start with the first one exactly if their distance is finite: two numbers of
different signs can be so far from each other that it is not. -/
theorem head?_spaced {count : Nat} (hcnt : 0 < count) : ∃ z, (spaced x y count).head? = some z ∧
      ((z == x) = true ↔ (spacing x y count).isFinite) := by
  have hzero : IsZero (Float.ofNat 0) := ⟨.positive, rfl⟩
  have hx : (spacing x y count).isFinite → x.isFinite := isFinite_of_isFinite_spacing
  refine ⟨spacedAt x y count 0, ?_, ?_⟩
  · obtain ⟨n, rfl⟩ := Nat.exists_eq_succ_of_ne_zero (Nat.ne_of_gt hcnt)
    have hlast : ¬((1 < n + 1 && 0 + 1 == n + 1) = true) := by simp; omega
    rw [spaced, List.range_succ_eq_map, List.map_cons, List.head?_cons, if_neg hlast]
  · by_cases hone : count ≤ 1
    · rw [spacing, if_pos hone] at hx ⊢
      rw [spacedAt, if_pos hone]
      exact hzero.mul_add_beq_iff hx
    · rw [spacing, if_neg hone] at hx ⊢
      rw [spacedAt, if_neg hone]
      by_cases hstep : ((y - x) / Float.ofNat (count - 1) == 0.0) = true
      · -- The distance is too small for a number, so it is multiplied in parts.
        have hquot := isZero_of_beq hstep
        rw [if_pos hstep]
        have hfin := hquot.isFinite
        have hadd := ((hquot.div hzero).mul (isFinite_of_isFinite_div hfin)).add_beq (hx hfin)
        exact iff_of_true hadd hfin
      · rw [if_neg hstep]
        exact hzero.mul_add_beq_iff hx

/-! ### Order

What is not a number is neither below nor above anything. All others are ordered one after the other.
-/

def rank : UnpackedFloat → Int × Int × Int
  | .infinity .negative => (-2, 0, 0)
  | .finite .negative m e _ => (-1, -e, -m)
  | .zero _ | .notANumber => (0, 0, 0)
  | .finite .positive m e _ => (1, e, m)
  | .infinity .positive => (2, 0, 0)

def IsBefore (p q : Int × Int × Int) : Prop :=
  p.1 < q.1 ∨ p.1 = q.1 ∧ (p.2.1 < q.2.1 ∨ p.2.1 = q.2.1 ∧ p.2.2 ≤ q.2.2)

theorem isLE_then (e e' : Int) (m m' : Nat) :
    ((compare e e').then (compare m m')).isLE = true ↔ e < e' ∨ e = e' ∧ m ≤ m' := by
  rcases Int.lt_trichotomy e e' with h | rfl | h
  · simp [Int.compare_eq_lt.mpr h, h]
  · simp [Nat.isLE_compare]
  · have hne : e ≠ e' := by omega
    have hlt : ¬e < e' := by omega
    simp [Int.compare_eq_gt.mpr h, hne, hlt]

theorem isGE_then (e e' : Int) (m m' : Nat) :
    ((compare e e').then (compare m m')).isGE = true ↔ e' < e ∨ e = e' ∧ m' ≤ m := by
  rw [← Ordering.isLE_swap, Ordering.swap_then, Int.compare_swap, Nat.compare_swap, isLE_then]
  constructor <;> rintro (h | ⟨rfl, h⟩) <;> simp [h]

theorem le_iff_isBefore (a b : UnpackedFloat) :
    a.le b = true ↔ a ≠ .notANumber ∧ b ≠ .notANumber ∧ IsBefore (rank a) (rank b) := by
  rcases a with (_ | _) | _ | _ | ⟨_ | _, m, e, hm⟩ <;> rcases b with (_ | _) | _ | _ | ⟨_ | _, m', e', hm'⟩ <;>
    simp [UnpackedFloat.le, UnpackedFloat.compare, rank, IsBefore, isLE_then, isGE_then]
  -- what is left are infinite numbers, which are compared by their signs
  all_goals decide

/-- A number is below another one exactly if it is not at or above it, unless one of them is none. -/
theorem lt_iff_not_isBefore (a b : UnpackedFloat) :
    a.lt b = true ↔ a ≠ .notANumber ∧ b ≠ .notANumber ∧ ¬IsBefore (rank b) (rank a) := by
  rcases a with (_ | _) | _ | _ | ⟨_ | _, m, e, hm⟩ <;> rcases b with (_ | _) | _ | _ | ⟨_ | _, m', e', hm'⟩ <;>
    simp [UnpackedFloat.lt, UnpackedFloat.compare, rank, IsBefore]
  case infinity.negative.infinity.positive => decide
  case finite.negative.finite.negative =>
    rw [← Ordering.isLE_eq_false, ← Bool.not_eq_true, isLE_then]
    omega
  case finite.positive.finite.positive =>
    rw [← Ordering.isGE_eq_false, ← Bool.not_eq_true, isGE_then]
    omega

theorem le_iff (x y : Float) : x ≤ y ↔
    parts x ≠ .notANumber ∧ parts y ≠ .notANumber ∧ IsBefore (rank (parts x)) (rank (parts y)) := by
  rw [← le_iff_isBefore]
  exact decide_eq_true_iff

theorem lt_iff (x y : Float) : x < y ↔
    parts x ≠ .notANumber ∧ parts y ≠ .notANumber ∧ ¬IsBefore (rank (parts y)) (rank (parts x)) := by
  rw [← lt_iff_not_isBefore]
  exact decide_eq_true_iff

/-! ### Laws of the order -/

variable {x y z : Float}

theorem le_of_le_of_le (hxy : x ≤ y) (hyz : y ≤ z) : x ≤ z := by
  rw [le_iff] at *
  obtain ⟨hx, -, hxy⟩ := hxy
  obtain ⟨-, hz, hyz⟩ := hyz
  refine ⟨hx, hz, ?_⟩
  unfold IsBefore at *
  omega

theorem self_le_of_le (h : x ≤ y) : x ≤ x ∧ y ≤ y := by
  rw [le_iff] at *
  rw [le_iff]
  obtain ⟨hx, hy, -⟩ := h
  exact ⟨⟨hx, hx, Or.inr ⟨rfl, Or.inr ⟨rfl, Int.le_refl _⟩⟩⟩, hy, hy, Or.inr ⟨rfl, Or.inr ⟨rfl, Int.le_refl _⟩⟩⟩

theorem le_of_not_le_of_comparable (hx : x ≤ x) (hy : y ≤ y) (h : ¬x ≤ y) : y ≤ x := by
  rw [le_iff] at *
  refine ⟨hy.1, hx.1, ?_⟩
  have hpre : ¬IsBefore (rank (parts x)) (rank (parts y)) := fun hxy => h ⟨hx.1, hy.1, hxy⟩
  unfold IsBefore at *
  omega

theorem not_gt_of_lt (h : x < y) : ¬y < x := by
  rw [lt_iff] at *
  rintro ⟨-, -, hyx⟩
  obtain ⟨-, -, hxy⟩ := h
  unfold IsBefore at *
  omega

end LabBench.Number
