import LabBench.Instrument.VoltageSource.Basic
import LabBench.Proofs.Frame
import LabBench.Proofs.Number.Decimals
/-!
# The codes of voltages

A voltage within the bounds of an outlet has a code, which is between zero and the largest one that there is. Although
the code is found with rounded numbers, it cannot leave this range: rounding does not go beyond a number that can be
stored, and the ends of the range can.
-/

namespace LabBench

open Number

/-! ### Comparison of numbers -/

namespace Value

variable {v w : Value} {r s : ℚ} {x : Float} {o : Option Ordering}

theorem exists_compareIntFloat (n : ℤ) (hx : x.isFinite) : ∃ o, compareIntFloat n x = some o ∧
    (o = .lt ↔ n < value x) ∧ (o = .gt ↔ value x < n) ∧ (o = .eq ↔ n = value x) := by
  obtain ⟨negative, m, e, hexact, hval⟩ := exists_ratio hx
  have hden : (0 : ℚ) < (Ratio.ofBinary m e).den := mod_cast Ratio.den_pos m e
  refine ⟨_, by rw [compareIntFloat, hexact], ?_⟩
  rw [hval, lt_div_iff₀ hden, div_lt_iff₀ hden, eq_div_iff hden.ne', Int.compare_eq_lt, Int.compare_eq_gt,
    Int.compare_eq_eq]
  generalize (if negative then -((Ratio.ofBinary m e).num : ℤ) else ((Ratio.ofBinary m e).num : ℤ)) = k
  refine ⟨?_, ?_, ?_⟩ <;> norm_cast

inductive IsNumber : Value → Prop
  | int (n : ℤ) : IsNumber (.int n)
  | real (x : Float) : IsNumber (.real x)

theorem IsNumber.less (hv : IsNumber v) (hw : IsNumber w) (h : compareNumbers? v w = some o) :
    v.less w = .ok (o == some .lt) := by
  cases hv <;> cases hw <;> simp only [Value.less, h]

theorem IsNumber.eq_lt_or_eq_of_atMost (hv : IsNumber v) (hw : IsNumber w)
    (h : compareNumbers? v w = some o) (hle : v.atMost w = .ok true) : o = some .lt ∨ o = some .eq := by
  have heq : v.equal w = .ok (o == some .eq) := by
    cases hv <;> cases hw <;> simp only [Value.equal, h]
  have hatMost : v.atMost w = (do if ← v.less w then return true else v.equal w) := by
    cases hv <;> cases hw <;> rfl
  rw [hatMost, hv.less hw h, heq] at hle
  by_cases hlt : o = some .lt
  · exact .inl hlt
  · rw [beq_false_of_ne hlt] at hle
    exact .inr (beq_iff_eq.mp (Except.ok.inj hle))

def order (x y : Float) : Option Ordering :=
  if x < y then some .lt else if y < x then some .gt else if x == y then some .eq else .none

theorem compareNumbers?_real (x y : Float) : compareNumbers? (.real x) (.real y) = some (order x y) := rfl

theorem order_eq_lt {y : Float} : order x y = some .lt ↔ x < y := by
  unfold order
  by_cases hlt : x < y
  · simp [hlt]
  · rw [if_neg hlt]
    split <;> [skip; split] <;> simp [hlt]

theorem beq_of_order_eq {y : Float} (h : order x y = some .eq) : (x == y) = true := by
  unfold order at h
  split at h
  · cases h
  · split at h
    · cases h
    · split at h
      · assumption
      · cases h

inductive Denotes : Value → ℚ → Prop
  | int (n : ℤ) : Denotes (.int n) n
  | real {x : Float} (hx : x.isFinite) : Denotes (.real x) (value x)

namespace Denotes

section

variable (hv : Denotes v r)

include hv

theorem isNumber : IsNumber v := by
  cases hv with
  | int n => exact .int n
  | real => exact .real _

theorem exists_compareNumbers (hw : Denotes w s) : ∃ o, compareNumbers? v w = some o ∧
    (o = some .lt ↔ r < s) ∧ (o = some .eq → r = s) := by
  cases hv with
  | int m =>
    cases hw with
    | int n =>
      refine ⟨some (compare m n), rfl, ?_, ?_⟩
      · rw [Option.some.injEq, Int.compare_eq_lt, Int.cast_lt]
      · rw [Option.some.injEq, Int.compare_eq_eq, Int.cast_inj]
        exact id
    | real hy =>
      obtain ⟨o, hcmp, hlt, -, heq⟩ := exists_compareIntFloat m hy
      refine ⟨some o, congrArg some hcmp, ?_, ?_⟩
      · rw [Option.some.injEq, hlt]
      · rw [Option.some.injEq, heq]
        exact id
  | real hx =>
    cases hw with
    | int n =>
      obtain ⟨o, hcmp, -, hgt, heq⟩ := exists_compareIntFloat n hx
      refine ⟨some o.swap, congrArg (fun c : Option Ordering => some (c.map Ordering.swap)) hcmp, ?_, ?_⟩
      · rw [Option.some.injEq, Ordering.swap_eq_lt, hgt]
      · rw [Option.some.injEq, Ordering.swap_eq_eq, heq]
        exact Eq.symm
    | real hy =>
      refine ⟨_, compareNumbers?_real _ _, ?_, ?_⟩
      · rw [order_eq_lt, lt_iff_value_lt hx hy]
      · exact fun h => value_eq_of_beq (beq_of_order_eq h)

theorem less (hw : Denotes w s) : v.less w = .ok (decide (r < s)) := by
  obtain ⟨o, hcmp, hlt, -⟩ := hv.exists_compareNumbers hw
  rw [hv.isNumber.less hw.isNumber hcmp, Except.ok.injEq, Bool.eq_iff_iff, beq_iff_eq, decide_eq_true_iff, hlt]

theorem greater (hw : Denotes w s) : v.greater w = .ok (decide (s < r)) := by
  rw [← hw.less hv]
  cases hv <;> cases hw <;> rfl

theorem le_of_atMost (hw : Denotes w s) (h : v.atMost w = .ok true) : r ≤ s := by
  obtain ⟨o, hcmp, hlt, heq⟩ := hv.exists_compareNumbers hw
  rcases hv.isNumber.eq_lt_or_eq_of_atMost hw.isNumber hcmp h with ho | ho
  · exact (hlt.mp ho).le
  · exact (heq ho).le

theorem parts_of_atMost (h : v.atMost (.real x) = .ok true) :
    parts x ≠ .notANumber ∧ parts x ≠ .infinity .negative := by
  cases hv with
  | int n =>
    have hord := (IsNumber.int n).eq_lt_or_eq_of_atMost (.real x) rfl h
    by_cases hx : x.isFinite
    · exact ⟨parts_ne_notANumber hx, parts_ne_infinity hx _⟩
    · rcases ofFloat_of_not_isFinite hx with ⟨-, hexact⟩ | ⟨negative, hparts, hexact⟩
      · simp [compareIntFloat, hexact] at hord
      · cases negative with
        | true => simp [compareIntFloat, hexact] at hord
        | false => simp [hparts, signOf]
  | real hy =>
    rcases (IsNumber.real _).eq_lt_or_eq_of_atMost (.real x) (compareNumbers?_real _ _) h with hord | hord
    · obtain ⟨-, hnum, hpre⟩ := (lt_iff _ _).mp (order_eq_lt.mp hord)
      refine ⟨hnum, fun hparts => hpre ?_⟩
      rw [hparts]
      exact (rank_of_isFinite hy).1
    · have hx := (isFinite_of_beq (beq_of_order_eq hord)).symm.trans hy
      exact ⟨parts_ne_notANumber hx, parts_ne_infinity hx _⟩

theorem parts_of_real_atMost (h : (Value.real x).atMost v = .ok true) : parts x ≠ .infinity .positive := by
  cases hv with
  | int n =>
    have hord := (IsNumber.real x).eq_lt_or_eq_of_atMost (.int n) rfl h
    by_cases hx : x.isFinite
    · exact parts_ne_infinity hx _
    · rcases ofFloat_of_not_isFinite hx with ⟨hparts, -⟩ | ⟨negative, hparts, hexact⟩
      · simp [hparts]
      · cases negative with
        | true => simp [hparts, signOf]
        | false => simp [compareIntFloat, hexact] at hord
  | real hy =>
    rcases (IsNumber.real x).eq_lt_or_eq_of_atMost (.real _) (compareNumbers?_real _ _) h with hord | hord
    · obtain ⟨-, -, hpre⟩ := (lt_iff _ _).mp (order_eq_lt.mp hord)
      refine fun hparts => hpre ?_
      rw [hparts]
      exact (rank_of_isFinite hy).2
    · exact parts_ne_infinity ((isFinite_of_beq (beq_of_order_eq hord)).trans hy) _

theorem isFinite_of_atMost (hw : Denotes w s) (hlow : v.atMost (.real x) = .ok true)
    (hhigh : (Value.real x).atMost w = .ok true) : x.isFinite := by
  obtain ⟨hnum, hneg⟩ := hv.parts_of_atMost hlow
  have hpos := hw.parts_of_real_atMost hhigh
  rw [isFinite_eq]
  generalize parts x = u at *
  cases u with
  | notANumber => exact absurd rfl hnum
  | infinity sign =>
    cases sign
    · exact absurd rfl hneg
    · exact absurd rfl hpos
  | zero | finite => rfl

end

end Denotes

end Value

/-! ### Codes -/

namespace VoltageSource

variable {low high w top x : Float} {q : Quantity Float}

/-- Bounds whose distance can be found exactly. -/
structure Spans (low high : Float) : Prop where
  isFinite_low : low.isFinite
  isFinite_high : high.isFinite
  isFinite_span : (high - low).isFinite
  value_span : value (high - low) = value high - value low
  lt : value low < value high
  le : value high - value low ≤ 2 ^ 53 - 1

theorem isFinite_zero : (0.0 : Float).isFinite := rfl

theorem value_zero : value 0.0 = 0 := rfl

theorem isFinite_one : (1.0 : Float).isFinite := rfl

theorem value_of_parts {s : Float.Model.UnpackedFloat.Sign} {m : ℕ} {e : ℤ} (h : parts x = composed s m e) :
    value x = signed s (m * 2 ^ e) := by
  rw [value, h, worth_composed]

theorem value_one : value 1.0 = 1 :=
  (value_ofInt (d := 1) (by norm_num)).trans Nat.cast_one

theorem Spans.position (h : Spans low high) (hw : w.isFinite) (hlow : value low ≤ value w)
    (hhigh : value w ≤ value high) (htop : top.isFinite) (hpos : 0 ≤ value top) (hle : value top ≤ 2 ^ 53 - 1) :
    (Converter.position low high w top).isFinite ∧ 0 ≤ value (Converter.position low high w top) ∧
      value (Converter.position low high w top) ≤ value top := by
  have hspan := h.value_span
  have hlt := h.lt
  have hlarge := h.le
  -- the distance from the upper bound is at most the whole distance
  have hneg := value_neg hw
  have hdist := nearby_add (nearby_neg hw).isFinite h.isFinite_high
    (le_worth_largest (by rw [hneg, abs_le]; constructor <;> linarith))
  have hdistance_nonneg : 0 ≤ value (-w + high) := by
    rw [← value_zero]
    exact hdist.le_value isFinite_zero (by rw [value_zero, hneg]; linarith)
  have hdistance_le : value (-w + high) ≤ value (high - low) :=
    hdist.value_le h.isFinite_span (by rw [hneg, hspan]; linarith)
  -- so that the quotient is at most one
  have hspan_pos : 0 < value (high - low) := by linarith
  have hratio_nonneg : 0 ≤ value (-w + high) / value (high - low) := div_nonneg hdistance_nonneg hspan_pos.le
  have hratio_le : value (-w + high) / value (high - low) ≤ 1 := div_le_one_of_le₀ hdistance_le hspan_pos.le
  have hquot := nearby_div hdist.isFinite h.isFinite_span hspan_pos.ne'
    (le_worth_largest (by rw [abs_of_nonneg hratio_nonneg]; linarith))
  have hquotient_nonneg : 0 ≤ value ((-w + high) / (high - low)) := by
    rw [← value_zero]
    exact hquot.le_value isFinite_zero (by rwa [value_zero])
  have hquotient_le : value ((-w + high) / (high - low)) ≤ 1 := by
    rw [← value_one]
    exact hquot.value_le isFinite_one (by rwa [value_one])
  -- and the product is at most the last position
  have hexact_nonneg := mul_nonneg hquotient_nonneg hpos
  have hexact_le := mul_le_of_le_one_left hpos hquotient_le
  have hprod := nearby_mul hquot.isFinite htop (le_worth_largest (by rw [abs_of_nonneg hexact_nonneg]; linarith))
  refine ⟨hprod.isFinite, ?_, hprod.value_le htop hexact_le⟩
  rw [← value_zero]
  exact hprod.le_value isFinite_zero (by rwa [value_zero])

theorem Spans.exists_code (h : Spans low high) (hw : w.isFinite) (hlow : value low ≤ value w)
    (hhigh : value w ≤ value high) (htop : top.isFinite) (hpos : 0 ≤ value top) (hle : value top ≤ 2 ^ 53 - 1) :
    ∃ n : ℕ, Converter.code .down low high w top = some (n : ℤ) ∧ n ≤ value top := by
  obtain ⟨hfin, hnn, hup⟩ := h.position hw hlow hhigh htop hpos hle
  have hfloor := truncate?_eq_floor hfin hnn
  have hcast := Int.toNat_of_nonneg (Int.floor_nonneg.mpr hnn)
  refine ⟨⌊value (Converter.position low high w top)⌋.toNat, hfloor.trans (congrArg some hcast.symm), ?_⟩
  rw [show ((⌊value (Converter.position low high w top)⌋.toNat : ℕ) : ℚ) =
    ⌊value (Converter.position low high w top)⌋ by exact_mod_cast congrArg (Int.cast (R := ℚ)) hcast]
  exact (Int.floor_le _).trans hup

theorem Spans.of_parts {m : ℕ} {e : ℤ} (hlow : parts low = composed .negative m e)
    (hhigh : parts high = composed .positive m e) (hspan : parts (high - low) = composed .positive m (e + 1))
    (hpos : 0 < m) (hle : (m : ℚ) * 2 ^ (e + 1) ≤ 2 ^ 53 - 1) : Spans low high := by
  have hfin {z : Float} {s : Float.Model.UnpackedFloat.Sign} {f : ℤ} (h : parts z = composed s m f) :
      z.isFinite := by
    rw [isFinite_eq, h, composed, dif_neg hpos.ne']
    rfl
  have hsum : (m : ℚ) * 2 ^ (e + 1) = m * 2 ^ e - -(m * 2 ^ e) := by
    rw [zpow_add_one₀ two_ne_zero]
    ring
  have hsize : (0 : ℚ) < m * 2 ^ e := mul_pos (mod_cast hpos) (two_zpow_pos e)
  refine ⟨hfin hlow, hfin hhigh, hfin hspan, ?_, ?_, ?_⟩ <;>
    simp only [value_of_parts hlow, value_of_parts hhigh, value_of_parts hspan, signed]
  · exact hsum
  · linarith
  · rwa [← hsum]

/-- The bounds of an outlet are finite numbers whose distance can be found exactly. -/
theorem exists_spans (number : ℕ) : ∃ low high, (Model.sixteen.bounds number).1.toFloat = .ok low ∧
    (Model.sixteen.bounds number).2.toFloat = .ok high ∧ Spans low high ∧
    (Model.sixteen.bounds number).1.Denotes (value low) ∧ (Model.sixteen.bounds number).2.Denotes (value high) := by
  have hint {n : ℤ} {x : Float} (h : value x = n) : (Value.int n).Denotes (value x) := by
    rw [h]
    exact .int n
  unfold Model.bounds
  dsimp only
  split
  · refine ⟨-1.0, 1.0, rfl, rfl, ?_, hint ?_, hint ?_⟩
    · exact .of_parts (m := 2 ^ 52) (e := -52) rfl rfl rfl (by norm_num) (by norm_num)
    · exact (value_neg isFinite_one).trans (by rw [value_one, Int.cast_neg, Int.cast_one])
    · exact value_one.trans Int.cast_one.symm
  · split
    · refine ⟨-2.5, 2.5, rfl, rfl, ?_, .real rfl, .real rfl⟩
      exact .of_parts (m := 5 * 2 ^ 50) (e := -51) rfl rfl rfl (by norm_num) (by norm_num)
    · refine ⟨-10.0, 10.0, rfl, rfl, ?_, hint ?_, hint ?_⟩
      · exact .of_parts (m := 5 * 2 ^ 50) (e := -49) rfl rfl rfl (by norm_num) (by norm_num)
      · exact (value_neg rfl).trans (congrArg Neg.neg (value_ofInt (d := 10) (by norm_num)))
      · exact value_ofInt (d := 10) (by norm_num)

/-! ### Outlets as they are made -/

structure Permitted (number : ℕ) (q : Quantity Float) : Prop where
  units : q.checkUnits "V" = .ok ⟨⟩
  low_le : (Model.sixteen.bounds number).1.atMost (.real q.magnitude) = .ok true
  le_high : (Value.real q.magnitude).atMost (Model.sixteen.bounds number).2 = .ok true

/-- An outlet whose settings nobody has changed, with the last voltage. -/
def untouched (number : ℕ) (current : Option Value) : Outlet where
  number := number
  lowest := (Model.sixteen.bounds number).1
  highest := (Model.sixteen.bounds number).2
  current := current

theorem make_eq (number : ℕ) : Outlet.make .sixteen [] number = .ok (untouched number none) := rfl

theorem Permitted.toSetting {number : ℕ} (h : Permitted number q) :
    Quantity.toSetting "V" (.quantity q) (.real 1.0) = .ok (.real (q.magnitude * 1.0)) := by
  have hqty : (Value.quantity q).asQuantityIn "V" = .ok q := by
    unfold Value.asQuantityIn
    rw [Value.asQuantity]
    exact congrArg (fun c : Outcome PUnit => c >>= fun _ => Except.ok q) h.units
  rw [Quantity.toSetting, hqty]
  rfl

theorem value_add_zero (hx : x.isFinite) : (x + 0.0).isFinite ∧ value (x + 0.0) = value x := by
  have hexact : value x + value 0.0 = value x := by rw [value_zero, add_zero]
  have hnearby := nearby_add hx isFinite_zero (by rw [hexact]; exact abs_value_le hx)
  rw [hexact] at hnearby
  exact ⟨hnearby.isFinite, hnearby.value_eq hx⟩

theorem adjustVoltage_eq_ok {gain offset lowest highest v a b : Value} (hscal : v.scaled gain = .ok a)
    (hplus : a.plus offset = .ok b) (hlow : b.less lowest = .ok false) (hhigh : b.greater highest = .ok false) :
    adjustVoltage gain offset lowest highest v = .ok b := by
  have hsum : (do (← v.scaled gain).plus offset : Outcome Value) = .ok b := by
    rw [hscal]
    exact hplus
  simp only [adjustVoltage, hsum, hlow, hhigh]
  rfl

theorem code_eq_ok {p : Outlet} {rounding : Converter.Rounding} {bits : ℕ} {n : ℤ} (hbits : p.bits = .ok (bits : ℤ))
    (hlow : p.lowest.toFloat = .ok low) (hhigh : p.highest.toFloat = .ok high) (hspan : (high - low == 0.0) = false)
    (htop : Value.floatOfInt (Converter.largest bits) = .ok top)
    (hcode : Converter.code rounding low high w top = some n) : p.code rounding (.real w) = .ok n := by
  have hnn : ¬(bits : ℤ) < 0 := by omega
  have hw : (Value.real w).toFloat = .ok w := rfl
  simp only [Outlet.code, hbits, hlow, hhigh, hw, Except.bind, bind, if_neg hnn, hspan, Int.toNat_natCast, htop,
    hcode, pure, Except.pure, Bool.false_eq_true, if_false]

/-- Whatever has been set before, the voltage `x` is adjusted to `w` and has the code `n`. -/
def HasCode (number : ℕ) (x w : Value) (n : ℕ) : Prop :=
  ∀ current, (untouched number current).adjusted x = .ok w ∧ (untouched number current).code .down w = .ok (n : ℤ)

theorem Permitted.exists_hasCode {number : ℕ} (h : Permitted number q) :
    ∃ w, ∃ n < 2 ^ 20, HasCode number (.real (q.magnitude * 1.0)) w n := by
  obtain ⟨low, high, hlow, hhigh, hspans, hdlow, hdhigh⟩ := exists_spans number
  have hq := hdlow.isFinite_of_atMost hdhigh h.low_le h.le_high
  have hlo := hdlow.le_of_atMost (.real hq) h.low_le
  have hup := Value.Denotes.le_of_atMost (.real hq) hdhigh h.le_high
  obtain ⟨hfin, hval⟩ := value_add_zero hq
  have hdenotes : (Value.real (q.magnitude + 0.0)).Denotes (value q.magnitude) := hval ▸ .real hfin
  have htop : Value.floatOfInt (Converter.largest 20) = .ok 1048575.0 := rfl
  have hvalue_top : value 1048575.0 = 1048575 := value_ofInt (d := 1048575) (by norm_num)
  have htop_finite : (1048575.0 : Float).isFinite := rfl
  obtain ⟨n, hcode, hn⟩ := hspans.exists_code hfin (by rwa [hval]) (by rwa [hval]) htop_finite
    (by norm_num [hvalue_top]) (by norm_num [hvalue_top])
  have hnonzero : (high - low == 0.0) = false := by
    rw [← Bool.not_eq_true]
    intro hzero
    have hspan := value_eq_of_beq hzero
    rw [hspans.value_span, value_zero] at hspan
    linarith [hspans.lt]
  have hscaled : (Value.real (q.magnitude * 1.0)).scaled (.int 1) = .ok (.real q.magnitude) := by
    rw [float_mul_one]
    exact congrArg (fun x => Except.ok (Value.real x)) (float_mul_one _)
  refine ⟨.real (q.magnitude + 0.0), n, ?_, fun current => ⟨?_, ?_⟩⟩
  · rw [hvalue_top] at hn
    have hn' : n ≤ 1048575 := mod_cast hn
    omega
  · refine adjustVoltage_eq_ok hscaled rfl ?_ ?_
    · exact (hdenotes.less hdlow).trans (congrArg Except.ok (decide_eq_false hlo.not_gt))
    · exact (hdenotes.greater hdhigh).trans (congrArg Except.ok (decide_eq_false hup.not_gt))
  · exact code_eq_ok rfl hlow hhigh hnonzero htop hcode

end VoltageSource

end LabBench
