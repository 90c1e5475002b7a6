import Mathlib
import LabBench.Proofs.Frame
import LabBench.Proofs.Quantity.Exact
import LabBench.Quantity.Exchange
/-!
# Conversion of quantities

The number of a quantity in a unit is found by a detour: one unit is made, the quantity is added to it,
and the unit is taken away again. On the way the sum is copied, which cuts its number to ten digits and
finds its scale anew. Over exact magnitudes the cut is the only loss, except where the sum is zero.
Then the copy does not know the factor of its unit any more.

## Main results

* `valueIn_near`
-/

namespace LabBench

open Text Magnitude
open List hiding splitAt

/-! ### Spellings of units -/

namespace Unit

variable {K : Type} [Magnitude K] {d : String × Int} {c : Char} {cs : List Char} {terms : List (Term K)}

private theorem head_text (u : Symbol) : u.text.toList.head?.all (!isSpace ·) = true := by
  cases u <;> decide

private theorem head_decade (hd : d ∈ decades) : d.1.toList.head?.all (!isSpace ·) = true := by
  revert d
  decide

/-- The symbol after a decade starts where the decade ends. -/
private theorem head_of_splitExponent {u : Symbol}
    (h : Symbol.ofText? (splitExponent (c :: cs)).1 = some u) : u.text.toList.head? = some c := by
  have hfound := find?_some h
  have htext : u.text.toList = (splitExponent (c :: cs)).1 := eq_of_beq hfound
  unfold splitExponent at h htext
  split at h
  · cases h
  · rename_i hnone
    rw [hnone] at htext
    rw [htext]
    rfl

theorem isSpace_of_readWith? (hd : d ∈ decades)
    {t : Term K} (h : readWith? (c :: cs) d = some t) : isSpace c = false := by
  unfold readWith? at h
  split at h
  · rename_i hpre
    have hdecade := head_decade hd
    cases hchars : d.1.toList with
    | nil =>
      have hlen : d.1.length = 0 := by rw [← String.length_toList, hchars, length_nil]
      rw [hlen, drop_zero] at h
      obtain ⟨u, hu, -⟩ := Option.map_eq_some_iff.mp h
      have hhead := head_text u
      rw [head_of_splitExponent hu] at hhead
      simpa using hhead
    | cons a rest =>
      rw [hchars, isPrefixOf_cons_cons, Bool.and_eq_true] at hpre
      rw [hchars, eq_of_beq hpre.1] at hdecade
      simpa using hdecade
  · cases h

theorem isSpace_of_parseTerm {t : Term K} (h : parseTerm (c :: cs) = .ok t) : isSpace c = false := by
  unfold parseTerm at h
  split at h
  · cases h
  · rename_i hreadings
    obtain ⟨d, hd, hread⟩ := mem_filterMap.mp (hreadings ▸ mem_singleton_self _)
    exact isSpace_of_readWith? hd hread
  · cases h

/-- The terms of a unit that is given by its characters. -/
def parseChars (cs : List Char) : Except Problem (List (Term K)) :=
  (splitAt '.' cs).mapM fun symbol => parseTerm (trim isBlank symbol)

private theorem exists_trimRight_cons {p : Char → Bool} (hc : p c = false)
    (cs : List Char) : ∃ rest, trimRight p (c :: cs) = c :: rest := by
  have hlast : [c].dropWhile p = [c] := dropWhile_cons_of_neg (by simp [hc])
  rw [trimRight, reverse_cons, dropWhile_append, hlast]
  split
  · exact ⟨[], rfl⟩
  · exact ⟨(cs.reverse.dropWhile p).reverse, by simp⟩

private theorem exists_splitAt_cons {sep : Char} (hc : c ≠ sep) (cs : List Char) :
    ∃ part parts, splitAt sep cs = part :: parts ∧ splitAt sep (c :: cs) = (c :: part) :: parts := by
  have hne : splitAt sep cs ≠ [] := by
    cases cs with
    | nil => exact cons_ne_nil _ _
    | cons d ds =>
      rw [splitAt]
      split
      · exact cons_ne_nil _ _
      · split <;> exact cons_ne_nil _ _
  obtain ⟨part, parts, hparts⟩ := exists_cons_of_ne_nil hne
  refine ⟨part, parts, hparts, ?_⟩
  simp only [splitAt, hparts, beq_eq_false_iff_ne.mpr hc]
  rfl

/-- A space in front of a unit that can be read is a blank, which does not count. -/
theorem parseChars_of_space (hc : isSpace c = true) (h : parseChars (c :: cs) = .ok terms) : parseChars cs =
    .ok terms := by
  have hpoint : c ≠ '.' := by
    rintro rfl
    exact absurd hc (by decide)
  obtain ⟨part, parts, hcs, hccs⟩ := exists_splitAt_cons hpoint cs
  unfold parseChars at h ⊢
  rw [hccs, mapM_cons] at h
  rw [hcs, mapM_cons]
  cases hblank : isBlank c with
  | true =>
    have htrim : trim isBlank (c :: part) = trim isBlank part := by
      rw [trim, trim, trimLeft, trimLeft, dropWhile_cons_of_pos hblank]
    rw [← htrim]
    exact h
  | false =>
    obtain ⟨rest, hrest⟩ := exists_trimRight_cons hblank part
    have htrim : trim isBlank (c :: part) = c :: rest := by
      rw [trim, trimLeft, dropWhile_cons_of_neg (by simp [hblank]), hrest]
    rw [htrim] at h
    cases hterm : parseTerm (K := K) (c :: rest) with
    | error p =>
      rw [hterm] at h
      cases h
    | ok t => exact absurd hc (by simp [isSpace_of_parseTerm hterm])

theorem parseChars_trimLeft (h : parseChars cs = .ok terms) : parseChars (trimLeft isSpace cs) = .ok terms := by
  induction cs with
  | nil => exact h
  | cons c cs ih =>
    by_cases hc : isSpace c = true
    · rw [trimLeft, dropWhile_cons_of_pos hc]
      exact ih (parseChars_of_space hc h)
    · rw [trimLeft, dropWhile_cons_of_neg hc]
      exact h

theorem parse_trimLeft {units : String} (h : parse units = .ok terms) :
    parse (String.ofList (trimLeft isSpace units.toList)) = .ok terms := by
  rw [parse, String.toList_ofList]
  exact parseChars_trimLeft h

end Unit

/-! ### Quantities of a unit -/

theorem Dimension.same_iff {a b : Dimension ℝ} : a.same b = true ↔ a = b := by
  cases a
  cases b
  simp [same, toList, Magnitude.same_iff]

namespace Quantity

section Steps

variable {K : Type} [Magnitude K] {a b c : Quantity K}

theorem make_eq_ok {units : String} {terms : List (Unit.Term K)} {v ten : K} {scale : Scale K}
    (hparse : Unit.parse units = .ok terms) (hten : tenPow? (Unit.decade terms) = some ten)
    (hexps : checkExponents terms = .ok ⟨⟩)
    (hscal : findScale (Unit.decade terms) (unitFactor terms * (v * ten)) (v * ten) = .ok scale) :
    make v units = .ok ⟨unitFactor terms * (v * ten), Dimension.ofTerms terms, units, scale⟩ := by
  simp only [make, hparse, Except.mapError, hten, hexps, hscal, bind, Except.bind, pure, Except.pure]

theorem exists_of_make {v : K} {units : String} (h : make v units = .ok a) :
    ∃ factor ten, a.magnitude = factor * (v * ten) := by
  obtain ⟨terms, -, h⟩ := Outcome.bind_eq_ok.mp h
  dsimp only at h
  split at h
  · rename_i ten _
    obtain ⟨_, -, h⟩ := Outcome.bind_eq_ok.mp (show checkExponents terms >>= _ = _ from h)
    obtain ⟨scale, -, h⟩ := Outcome.bind_eq_ok.mp h
    cases h
    exact ⟨unitFactor terms, ten, rfl⟩
  · cases h

theorem add_eq_ok (hdim : a.sameDimension b = true) (hcopy : a.renew = .ok c) :
    a.add b = .ok { c with magnitude := c.magnitude + b.magnitude } := by
  rw [add, checkDimension, if_pos hdim, hcopy]
  rfl

theorem sub_eq_ok (hdim : a.sameDimension b = true) (hcopy : a.renew = .ok c) :
    a.sub b = .ok { c with magnitude := c.magnitude - b.magnitude } := by
  rw [sub, checkDimension, if_pos hdim, hcopy]
  rfl

theorem renew_eq {ten : K} (hten : a.scale.tenTo? = some ten) : a.renew =
    make (cutTen (a.magnitude / ten)) (String.ofList (trimLeft isSpace a.units.toList)) := by
  simp only [renew, inUnits, hten, bind, Except.bind]

theorem valueIn_eq_inUnits {units : String} {q one sum difference : Quantity K}
    (hunits : q.hasUnits units = .ok true) (hone : make 1.0 units = .ok one)
    (hsum : one.add q = .ok sum) (hdiff : sum.sub one = .ok difference) : q.valueIn units = difference.inUnits := by
  simp only [valueIn, checkUnits, hunits, hone, hsum, hdiff, bind, Except.bind]
  rfl

end Steps

variable {units : String} {terms : List (Unit.Term ℝ)} {q : Quantity ℝ}

/-- The power of ten of a scale contains the factor of the unit, unless the number is zero. -/
theorem exists_findScale {factor : ℝ} (hfac : 0 < factor) (decade : ℤ) (v : ℝ) :
    ∃ scale, findScale decade (factor * (v * 10 ^ decade)) (v * 10 ^ decade) = .ok scale ∧
      scale.tenTo? = some (if v = 0 then 10 ^ decade else factor * 10 ^ decade) := by
  have hten : (0 : ℝ) < 10 ^ decade := by positivity
  by_cases hsame : factor * (v * 10 ^ decade) = v * 10 ^ decade
  · have hscal : (if v = 0 then 10 ^ decade else factor * 10 ^ decade : ℝ) = 10 ^ decade := by
      split
      · rfl
      · rename_i hv
        rw [mul_eq_right₀ (mul_ne_zero hv hten.ne')] at hsame
        rw [hsame, one_mul]
    refine ⟨.whole decade, ?_, ?_⟩
    · rw [findScale, if_pos (Magnitude.same_iff.mpr hsame)]
    · rw [hscal]
      rfl
  · have hv : v ≠ 0 := by
      rintro rfl
      simp at hsame
    have hunit : |v * 10 ^ decade| ≠ 0 := abs_ne_zero.mpr (mul_ne_zero hv hten.ne')
    have habs : |factor * (v * 10 ^ decade)| = factor * |v * 10 ^ decade| := by
      rw [abs_mul, abs_of_pos hfac]
    have hlog : Real.logb 10 |factor * (v * 10 ^ decade)| = Real.logb 10 factor + Real.logb 10 |v * 10 ^ decade| := by
      rw [habs, Real.logb_mul hfac.ne' hunit]
    refine ⟨.real (decade + Real.logb 10 factor), ?_, ?_⟩
    · have hlogs : decade + Real.logb 10 factor = decade +
          (Real.logb 10 |factor * (v * 10 ^ decade)| - Real.logb 10 |v * 10 ^ decade|) := by
        rw [hlog, add_sub_cancel_right]
      have hbase : |factor * (v * 10 ^ decade)| ≠ 0 := habs ▸ mul_ne_zero hfac.ne' hunit
      rw [findScale, if_neg (mt Magnitude.same_iff.mp hsame)]
      simp only [Magnitude.abs, logTen?_of_ne_zero hbase, logTen?_of_ne_zero hunit, hlogs]
      rfl
    · have hpow : (10 : ℝ) ^ (decade + Real.logb 10 factor) = factor * 10 ^ decade := by
        rw [Real.rpow_add (by norm_num), Real.rpow_intCast, Real.rpow_logb (by norm_num) (by norm_num) hfac, mul_comm]
      rw [if_neg hv, ← hpow]
      rfl

/-- A quantity that is a number of units, and is written in a spelling of the unit. -/
structure Measures (terms : List (Unit.Term ℝ)) (v : ℝ) (q : Quantity ℝ) : Prop where
  units : Unit.parse q.units = .ok terms
  dimension : q.dimension = Dimension.ofTerms terms
  magnitude : q.magnitude = v * unitValue terms

theorem Measures.sameDimension {a b : Quantity ℝ} {v : ℝ} (ha : a.Measures terms v)
    (hb : b.dimension = Dimension.ofTerms terms) : a.sameDimension b = true :=
  Dimension.same_iff.mpr (ha.dimension.trans hb.symm)

theorem exists_make (hparse : Unit.parse units = .ok terms) (v : ℝ) :
    ∃ q, make v units = .ok q ∧ q.Measures terms v ∧ q.scale.tenTo? = some (scaleOf terms v) := by
  obtain ⟨scale, hscal, hten⟩ := exists_findScale (unitFactor_pos terms) (Unit.decade terms) v
  have hexps : checkExponents terms = .ok ⟨⟩ := by simp [checkExponents, Magnitude.isFinite]
  exact ⟨_, make_eq_ok hparse rfl hexps hscal, ⟨hparse, rfl, mul_left_comm _ _ _⟩, hten⟩

theorem Measures.exists_renew {v : ℝ} (hq : q.Measures terms v) (hscal : q.scale.tenTo? = some (unitValue terms)) :
    ∃ c, q.renew = .ok c ∧ c.Measures terms (cutReal v) ∧ c.scale.tenTo? = some (scaleOf terms v) := by
  obtain ⟨c, hmake, hc, hten⟩ := exists_make (Unit.parse_trimLeft hq.units) (cutReal v)
  refine ⟨c, ?_, hc, ?_⟩
  · have hquot : q.magnitude / unitValue terms = v := by
      rw [hq.magnitude, mul_div_cancel_right₀ v (unitValue_ne_zero terms)]
    rw [renew_eq hscal, ← hmake]
    exact congrArg (fun x => make (cutReal x) _) hquot
  · rw [hten]
    simp only [scaleOf, cutReal_eq_zero_iff]

theorem exists_terms (h : q.hasUnits units = .ok true) :
    ∃ terms, Unit.parse units = .ok terms ∧ q.dimension = Dimension.ofTerms terms := by
  cases hparse : Unit.parse (K := ℝ) units with
  | error p =>
    rw [hasUnits, make, hparse] at h
    cases h
  | ok terms =>
    obtain ⟨one, hmake, hone, -⟩ := exists_make hparse (ofInt 1)
    rw [hasUnits, hmake] at h
    exact ⟨terms, rfl, (Dimension.same_iff.mp (Except.ok.inj h)).trans hone.dimension⟩

/-- The number of a quantity in a unit comes from a sum with one unit, which is cut to ten digits. If
the sum is zero, then the factor of the unit is lost. -/
theorem valueIn_eq {r : ℝ} (hunits : q.hasUnits units = .ok true)
    (hparse : Unit.parse units = .ok terms) (hdim : q.dimension = Dimension.ofTerms terms)
    (hr : q.magnitude = r * unitValue terms) : q.valueIn units =
      .ok ((cutReal (1 + r) - 1) * unitValue terms / scaleOf terms (1 + r)) := by
  have hliteral : (1.0 : ℝ) = 1 := by norm_num
  -- one unit, and its copy, to which the quantity is added
  obtain ⟨one, hmake, hone, hscal⟩ := exists_make hparse 1.0
  have hnotZero : scaleOf terms 1.0 = unitValue terms := if_neg (by norm_num)
  rw [hnotZero] at hscal
  obtain ⟨c, hcopy, hc, hcscale⟩ := hone.exists_renew hscal
  rw [hnotZero] at hcscale
  have hadd := add_eq_ok (hone.sameDimension hdim) hcopy
  have hsum : Measures terms (1 + r) { c with magnitude := c.magnitude + q.magnitude } := by
    refine ⟨hc.units, hc.dimension, ?_⟩
    change c.magnitude + q.magnitude = _
    rw [hc.magnitude, hr, hliteral, cutReal_one, add_mul]
  -- the copy of the sum, from which the unit is taken away
  obtain ⟨d, hcopy', hd, hdscale⟩ := hsum.exists_renew hcscale
  have hsub := sub_eq_ok (hsum.sameDimension hone.dimension) hcopy'
  rw [valueIn_eq_inUnits hunits hmake hadd hsub, inUnits, hdscale]
  change Except.ok ((d.magnitude - one.magnitude) / _) = _
  rw [hd.magnitude, hone.magnitude, hliteral, sub_mul]

theorem abs_cutReal_one_add_le (r : ℝ) : |cutReal (1 + r) - 1 - r| ≤ 1e-9 * (1 + |r|) := by
  have hcut := abs_cutReal_sub_le (1 + r)
  have hsum : |1 + r| ≤ 1 + |r| := (abs_add_le 1 r).trans (by rw [abs_one])
  have hnn := abs_nonneg r
  rw [sub_sub]
  linarith

/-- The number of a quantity in a unit of its dimension is found up to the loss of one cut, with one
exception: minus one unit becomes minus the factor of the unit. For coherent units, whose factor is
one, this makes no difference. -/
theorem valueIn_near {q : Quantity ℝ} (h : q.hasUnits units = .ok true) :
    ∃ terms one x, Unit.parse units = .ok terms ∧ make 1 units = .ok one ∧ q.valueIn units = .ok x ∧
      ∀ r, r = q.magnitude / one.magnitude →
        (r ≠ -1 → |x - r| ≤ 1e-9 * (1 + |r|)) ∧ (r = -1 → x = -unitFactor terms) := by
  obtain ⟨terms, hparse, hdimension⟩ := exists_terms h
  obtain ⟨one, hmake, hone, -⟩ := exists_make hparse 1
  have hunit := unitValue_ne_zero terms
  have hquotient : q.magnitude / one.magnitude = q.magnitude / unitValue terms := by
    rw [hone.magnitude, one_mul]
  have hr := (div_mul_cancel₀ q.magnitude hunit).symm
  refine ⟨terms, one, _, hparse, hmake, valueIn_eq h hparse hdimension hr, ?_⟩
  rw [hquotient]
  rintro r rfl
  refine ⟨fun hne => ?_, fun hminus => ?_⟩
  · have hscale : scaleOf terms (1 + q.magnitude / unitValue terms) = unitValue terms :=
      if_neg fun hzero => hne (by linarith)
    rw [hscale, mul_div_cancel_right₀ _ hunit]
    exact abs_cutReal_one_add_le _
  · have hcut : cutReal 0 = 0 := cutReal_eq_zero_iff.mpr rfl
    have hten : (10 : ℝ) ^ Unit.decade terms ≠ 0 := by positivity
    have hscale : scaleOf terms 0 = 10 ^ Unit.decade terms := if_pos rfl
    rw [hminus, add_neg_cancel, hcut, hscale, unitValue, zero_sub, neg_one_mul, neg_div, mul_div_cancel_right₀ _ hten]

theorem parse_kilogauss : Unit.parse (K := ℝ) "kG" = .ok [⟨3, .gauss, none⟩] := by
  cbv

theorem unitFactor_gauss : unitFactor [(⟨3, .gauss, none⟩ : Unit.Term ℝ)] = 1e-4 := by
  simp [unitFactor, Unit.collect, Unit.addPower, Unit.Term.power, Unit.Symbol.factor, power, ofInt]

/-- Minus one kilogauss is taken for minus a ten thousandth of one. -/
theorem valueIn_kilogauss : ∃ q one : Quantity ℝ, make (-1) "kG" = .ok q ∧ make 1 "kG" = .ok one ∧
    q.hasUnits "kG" = .ok true ∧ q.magnitude / one.magnitude = -1 ∧ q.valueIn "kG" = .ok (-1e-4) := by
  obtain ⟨q, hq, hminus, -⟩ := exists_make parse_kilogauss (-1)
  have hunits : q.hasUnits "kG" = .ok true := by
    obtain ⟨one, hone, h, -⟩ := exists_make parse_kilogauss (ofInt 1)
    rw [hasUnits, hone]
    exact congrArg Except.ok (hminus.sameDimension h.dimension)
  obtain ⟨terms, one, x, hparse, hone, hx, hnear⟩ := valueIn_near hunits
  obtain ⟨one', hone', hplus, -⟩ := exists_make parse_kilogauss 1
  cases hone.symm.trans hone'
  cases hparse.symm.trans parse_kilogauss
  have hquotient : q.magnitude / one.magnitude = -1 := by
    rw [hminus.magnitude, hplus.magnitude, neg_one_mul, one_mul, neg_div, div_self (unitValue_ne_zero _)]
  refine ⟨q, one, hq, hone, hunits, hquotient, ?_⟩
  rw [hx, (hnear (-1) hquotient.symm).2 rfl, unitFactor_gauss]

end Quantity

end LabBench
