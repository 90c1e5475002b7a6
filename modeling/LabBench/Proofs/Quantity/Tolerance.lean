import Mathlib
import LabBench.Proofs.Quantity.Conversion
/-!
# Comparisons with a tolerance

Two quantities count as equal if their magnitudes in base units differ by a hundred millionth of the base unit and a
hundred thousandth of the second one at most. The order has no such tolerance, and the other comparisons come from these
two by negation. So a quantity can be less than another one and equal to it, which happens all the time to small ones
such as nanoseconds, and the comparisons are those of numbers exactly for the pairs to which it does not happen.

## Main results

* `comparison_laws`
-/

namespace LabBench

namespace Magnitude

/-- How much a number may differ from another one and still be taken for it. -/
noncomputable def tolerance (y : ℝ) : ℝ :=
  1e-8 + 1e-5 * |y|

theorem tolerance_pos (y : ℝ) : 0 < tolerance y := by
  unfold tolerance
  positivity

theorem close_iff {x y : ℝ} : close x y = true ↔ |x - y| ≤ tolerance y := by
  have hclose : close x y = (decide (|x - y| < tolerance y) || decide (|x - y| = tolerance y) || decide (x = y)) := rfl
  rw [hclose]
  simp only [Bool.or_eq_true, decide_eq_true_iff]
  constructor
  · rintro ((hlt | heq) | rfl)
    · exact hlt.le
    · exact heq.le
    · rw [sub_self, abs_zero]
      exact (tolerance_pos x).le
  · exact fun h => .inl (lt_or_eq_of_le h)

end Magnitude

namespace Quantity

open Magnitude (tolerance tolerance_pos)

variable {a b c : Quantity ℝ}

section Answers

variable (h : a.sameDimension b = true)
include h

theorem answers_of_sameDimension : a.less b = .ok (decide (a.magnitude < b.magnitude)) ∧
    a.equal b = .ok (decide (|a.magnitude - b.magnitude| ≤ tolerance b.magnitude)) := by
  have hclose : Magnitude.close a.magnitude b.magnitude =
      decide (|a.magnitude - b.magnitude| ≤ tolerance b.magnitude) := by
    rw [Bool.eq_iff_iff, Magnitude.close_iff, decide_eq_true_iff]
  constructor
  · rw [less, checkDimension, if_pos h]
    rfl
  · rw [equal, checkDimension, if_pos h, ← hclose]
    rfl

theorem atMost_of_sameDimension : a.atMost b =
    .ok (decide (a.magnitude < b.magnitude ∨ |a.magnitude - b.magnitude| ≤ tolerance b.magnitude)) := by
  rw [atMost, (answers_of_sameDimension h).1, (answers_of_sameDimension h).2]
  by_cases hnear : |a.magnitude - b.magnitude| ≤ tolerance b.magnitude
  · simp [bind, Except.bind, hnear, pure, Except.pure]
  · simp [bind, Except.bind, hnear]

theorem greater_of_sameDimension : a.greater b =
    .ok (decide (b.magnitude < a.magnitude ∧ ¬|a.magnitude - b.magnitude| ≤ tolerance b.magnitude)) := by
  rw [greater, atMost_of_sameDimension h]
  refine congrArg Except.ok ?_
  rw [Bool.eq_iff_iff, Bool.not_eq_true', decide_eq_false_iff_not, decide_eq_true_iff, not_or, not_lt]
  refine and_congr_left fun hfar => ⟨fun hle => lt_of_le_of_ne hle fun heq => hfar ?_, le_of_lt⟩
  rw [heq, sub_self, abs_zero]
  exact (tolerance_pos _).le

theorem atLeast_of_sameDimension : a.atLeast b = .ok (decide (b.magnitude ≤ a.magnitude)) := by
  rw [atLeast, (answers_of_sameDimension h).1]
  refine congrArg Except.ok ?_
  rw [Bool.eq_iff_iff, Bool.not_eq_true', decide_eq_false_iff_not, decide_eq_true_iff, not_lt]

end Answers

/-- A quantity is less than another one, and equal to it. -/
def Near (a b : Quantity ℝ) : Prop :=
  a.less b = .ok true ∧ a.equal b = .ok true

/-- Exactly one of three comparisons holds, and two others are made of them. -/
structure Consistent (a b : Quantity ℝ) : Prop where
  some : a.less b = .ok true ∨ a.equal b = .ok true ∨ a.greater b = .ok true
  one : ¬(a.less b = .ok true ∧ a.equal b = .ok true) ∧ ¬(a.less b = .ok true ∧ a.greater b = .ok true) ∧
    ¬(a.equal b = .ok true ∧ a.greater b = .ok true)
  atMost : a.atMost b = .ok true ↔ a.less b = .ok true ∨ a.equal b = .ok true
  atLeast : a.atLeast b = .ok true ↔ a.greater b = .ok true ∨ a.equal b = .ok true

theorem ok_decide_iff {p : Prop} [Decidable p] : (Except.ok (decide p) : Outcome Bool) = .ok true ↔ p := by
  simp

theorem equal_iff (h : a.sameDimension b = true) :
    a.equal b = .ok true ↔ |a.magnitude - b.magnitude| ≤ tolerance b.magnitude := by
  rw [(answers_of_sameDimension h).2, ok_decide_iff]

/-- Only near pairs break the laws, and they break two of them. -/
theorem consistent_iff (h : a.sameDimension b = true) : (Consistent a b ↔ ¬Near a b) ∧
      ((a.atLeast b = .ok true ↔ a.greater b = .ok true ∨ a.equal b = .ok true) ↔ ¬Near a b) ∧
      (a.atMost b = .ok true ↔ a.less b = .ok true ∨ a.equal b = .ok true) := by
  have hless : a.less b = .ok true ↔ a.magnitude < b.magnitude := by
    rw [(answers_of_sameDimension h).1, ok_decide_iff]
  have hatMost : a.atMost b = .ok true ↔ a.less b = .ok true ∨ a.equal b = .ok true := by
    rw [atMost_of_sameDimension h, ok_decide_iff, hless, equal_iff h]
  have hgreater : a.greater b = .ok true ↔ b.magnitude < a.magnitude ∧ ¬a.equal b = .ok true := by
    rw [greater_of_sameDimension h, ok_decide_iff, equal_iff h]
  have hatLeast : a.atLeast b = .ok true ↔ b.magnitude ≤ a.magnitude := by
    rw [atLeast_of_sameDimension h, ok_decide_iff]
  have hself : a.magnitude = b.magnitude → a.equal b = .ok true := by
    intro heq
    rw [equal_iff h, heq, sub_self, abs_zero]
    exact (tolerance_pos _).le
  have hgreaterOrEqual : (a.atLeast b = .ok true ↔ a.greater b = .ok true ∨ a.equal b = .ok true) ↔ ¬Near a b := by
    rw [Near, hatLeast, hgreater, hless]
    constructor
    · exact fun hiff hnear => absurd (hiff.mpr (.inr hnear.2)) (not_le.mpr hnear.1)
    · refine fun hnear => ⟨fun hle => ?_, fun hor => ?_⟩
      · rcases lt_or_eq_of_le hle with hlt | heq
        · by_cases hequal : a.equal b = .ok true
          · exact .inr hequal
          · exact .inl ⟨hlt, hequal⟩
        · exact .inr (hself heq.symm)
      · rcases hor with hgt | hequal
        · exact hgt.1.le
        · exact not_lt.mp fun hlt => hnear ⟨hlt, hequal⟩
  refine ⟨⟨fun hcons => hcons.one.1, fun hnear => ⟨?_, ⟨hnear, ?_, ?_⟩, hatMost, hgreaterOrEqual.mpr hnear⟩⟩,
    hgreaterOrEqual, hatMost⟩
  · rw [hless, hgreater]
    rcases lt_trichotomy a.magnitude b.magnitude with hlt | heq | hgt
    · exact .inl hlt
    · exact .inr (.inl (hself heq))
    · by_cases hequal : a.equal b = .ok true
      · exact .inr (.inl hequal)
      · exact .inr (.inr ⟨hgt, hequal⟩)
  · rw [hless, hgreater]
    exact fun hboth => absurd hboth.1 (not_lt.mpr hboth.2.1.le)
  · rw [hgreater]
    exact fun hboth => hboth.2.2 hboth.1

/-- Comparisons within a dimension always have an answer, and agree with each other except on near pairs. Equality can
be turned around up to a slightly larger tolerance, and two equalities lead to the sum of both tolerances. Among
quantities that differ by more than the tolerance or not at all, all laws hold. -/
theorem comparison_laws (hab : a.sameDimension b = true) (hbc : b.sameDimension c = true) :
    (∀ compare ∈ [equal, unequal, less, atMost, greater, atLeast], ∃ answer, compare a b = .ok answer) ∧
    (Consistent a b ↔ ¬Near a b) ∧
    ((a.atLeast b = .ok true ↔ a.greater b = .ok true ∨ a.equal b = .ok true) ↔ ¬Near a b) ∧
    (a.atMost b = .ok true ↔ a.less b = .ok true ∨ a.equal b = .ok true) ∧
    (a.equal b = .ok true → (1 - 1e-5) * |b.magnitude - a.magnitude| ≤ tolerance a.magnitude) ∧
    (a.equal b = .ok true → b.equal c = .ok true →
      |a.magnitude - c.magnitude| ≤ tolerance b.magnitude + tolerance c.magnitude) ∧
    ((∀ x ∈ [a, b, c], ∀ y ∈ [a, b, c], x.equal y = .ok true → x.magnitude = y.magnitude) →
      Consistent a b ∧ (a.equal b = .ok true → b.equal a = .ok true) ∧
        (a.equal b = .ok true → b.equal c = .ok true → a.equal c = .ok true)) := by
  obtain ⟨hconsistent, hatLeast, hatMost⟩ := consistent_iff hab
  have hdimension := Dimension.same_iff.mp hab
  have hba : b.sameDimension a = true := Dimension.same_iff.mpr hdimension.symm
  have hac : a.sameDimension c = true := Dimension.same_iff.mpr (hdimension.trans (Dimension.same_iff.mp hbc))
  have hself {x y : Quantity ℝ} (h : x.sameDimension y = true) (heq : x.magnitude = y.magnitude) :
      x.equal y = .ok true := by
    rw [equal_iff h, heq, sub_self, abs_zero]
    exact (tolerance_pos _).le
  refine ⟨?_, hconsistent, hatLeast, hatMost, fun h => ?_, fun h h' => ?_, fun hapart => ?_⟩
  · simp only [List.forall_mem_cons, List.not_mem_nil, false_implies, implies_true, and_true]
    rw [unequal, (answers_of_sameDimension hab).2, (answers_of_sameDimension hab).1, atMost_of_sameDimension hab,
      greater_of_sameDimension hab, atLeast_of_sameDimension hab]
    exact ⟨⟨_, rfl⟩, ⟨_, rfl⟩, ⟨_, rfl⟩, ⟨_, rfl⟩, ⟨_, rfl⟩, ⟨_, rfl⟩⟩
  · rw [equal_iff hab, abs_sub_comm, tolerance] at h
    have htriangle := abs_sub_abs_le_abs_sub b.magnitude a.magnitude
    rw [tolerance]
    linarith
  · rw [equal_iff hab] at h
    rw [equal_iff hbc] at h'
    exact (abs_sub_le _ b.magnitude _).trans (add_le_add h h')
  · have hsame := hapart a (by simp) b (by simp)
    refine ⟨hconsistent.mpr fun hnear => ?_, fun h => hself hba (hsame h).symm, fun h h' => hself hac ?_⟩
    · have hless := hnear.1
      rw [(answers_of_sameDimension hab).1, ok_decide_iff] at hless
      exact absurd (hsame hnear.2) hless.ne
    · exact (hsame h).trans (hapart b (by simp) c (by simp) h')

theorem parse_nanosecond : Unit.parse (K := ℝ) "ns" = .ok [⟨-9, .second, none⟩] := by
  cbv

theorem unitValue_nanosecond : unitValue [⟨-9, .second, none⟩] = 1e-9 := by
  norm_num [unitValue, unitFactor, Unit.collect, Unit.addPower, Unit.Term.power, Unit.Symbol.factor, Magnitude.power,
    Magnitude.ofInt, Unit.decade]

/-- Zero, ten and a bit, and twenty nanoseconds: the first is less than the second and equal to it, but the second is
not equal to the first, and the first is not equal to the third, to which the second is equal. -/
theorem comparison_laws_of_nanoseconds : ∃ a b c : Quantity ℝ, make 0 "ns" = .ok a ∧ make 10.00005 "ns" = .ok b ∧
    make 20 "ns" = .ok c ∧ Near a b ∧ ¬Consistent a b ∧ a.equal b = .ok true ∧ ¬b.equal a = .ok true ∧
    b.equal c = .ok true ∧ ¬a.equal c = .ok true := by
  obtain ⟨a, hmake, ha, -⟩ := exists_make parse_nanosecond 0
  obtain ⟨b, hmake', hb, -⟩ := exists_make parse_nanosecond 10.00005
  obtain ⟨c, hmake'', hc, -⟩ := exists_make parse_nanosecond 20
  have hab := ha.sameDimension hb.dimension
  have hbc := hb.sameDimension hc.dimension
  have hx : a.magnitude = 0 := by rw [ha.magnitude, zero_mul]
  have hy : b.magnitude = 10.00005e-9 := by rw [hb.magnitude, unitValue_nanosecond]; norm_num
  have hz : c.magnitude = 20e-9 := by rw [hc.magnitude, unitValue_nanosecond]; norm_num
  have hequal : a.equal b = .ok true := by
    rw [equal_iff hab, hx, hy, tolerance]
    norm_num [abs_of_pos, abs_of_neg]
  have hnear : Near a b := by
    refine ⟨?_, hequal⟩
    rw [(answers_of_sameDimension hab).1, ok_decide_iff, hx, hy]
    norm_num
  refine ⟨a, b, c, hmake, hmake', hmake'', hnear, fun h => (comparison_laws hab hbc).2.1.mp h hnear, hequal, ?_, ?_, ?_⟩
  · rw [equal_iff (hb.sameDimension ha.dimension), hx, hy, tolerance]
    norm_num [abs_of_pos, abs_of_neg]
  · rw [equal_iff hbc, hy, hz, tolerance]
    norm_num [abs_of_pos, abs_of_neg]
  · rw [equal_iff (ha.sameDimension hc.dimension), hx, hz, tolerance]
    norm_num [abs_of_pos, abs_of_neg]

end Quantity

end LabBench
