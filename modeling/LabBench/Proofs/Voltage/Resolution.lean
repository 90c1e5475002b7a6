import Mathlib
import LabBench.Proofs.Quantity.Exact
import LabBench.Proofs.Voltage.Registers
/-!
# Codes of exact voltages

With exact numbers the code of a voltage falls evenly over the range between the bounds: it is zero at the upper bound
and the largest one at the lower bound, and the voltage that it stands for is less than a step away from the one that
was asked for. If codes are rounded to the nearest one, it is at most half a step away. In the message to a converter
the code takes the upper bits of the data.

## Main results

* `code_laws`
-/

namespace LabBench.VoltageSource

open Hex

/-! ### Rounding -/

/-- How a position becomes a code. -/
structure Rounds (rounding : Converter.Rounding) (f : ℝ → ℤ) : Prop where
  code_eq : ∀ low high w top : ℝ, 0 ≤ Converter.position low high w top →
    Converter.code rounding low high w top = some (f (Converter.position low high w top))
  mono : Monotone f
  intCast : ∀ n : ℤ, f n = n
  abs_sub_lt : ∀ x, |f x - x| < 1
  abs_sub_le : rounding = .nearest → ∀ x, |f x - x| ≤ 1 / 2

theorem exists_rounds (rounding : Converter.Rounding) : ∃ f, Rounds rounding f := by
  cases rounding with
  | down =>
    refine ⟨Int.floor, fun low high w top h => congrArg some (if_pos h), Int.floor_mono, Int.floor_intCast, fun x => ?_,
      nofun⟩
    rw [abs_lt]
    constructor <;> linarith [Int.floor_le x, Int.lt_floor_add_one x]
  | nearest =>
    refine ⟨Magnitude.nearestEven, fun low high w top h => rfl, Magnitude.nearestEven_mono,
      Magnitude.nearestEven_intCast, fun x => ?_, fun _ => Magnitude.abs_nearestEven_sub_le⟩
    linarith [Magnitude.abs_nearestEven_sub_le x]

/-! ### Messages -/

theorem encode_hex_five {n : ℕ} (h : n < 2 ^ 20) :
    encode ((Text.hex 5 n).toList ++ " f".toList) = encode (Text.hex 6 (16 * n + 15)).toList := by
  have hdiv : (16 * n + 15) / 16 = n := by omega
  have hmod : (16 * n + 15) % 16 = 15 := by omega
  rw [encode, encode, List.filterMap_append, filterMap_hex 4 (by omega), filterMap_hex 5 (by omega),
    show nibbles (5 + 1) (16 * n + 15) = nibbles 5 ((16 * n + 15) / 16) ++ [(16 * n + 15) % 16] from rfl, hdiv, hmod]
  rfl

theorem codeMessage_of_ne {m : Model} (hm : m ≠ .sixteen) {r : ℕ} (h : r ≤ 20) (n : ℕ) :
    codeMessage m r n = .ok ("40 " ++ Text.hex 5 (2 ^ (20 - r) * n) ++ " f") := by
  rw [← hexOfInt_natCast]
  cases m with
  | sixteen => exact absurd rfl hm
  | six | four =>
    exact congrArg (fun x => x >>= fun k => pure ("40 " ++ Converter.hexOfInt 5 k ++ " f")) (aligned_natCast h n)

/-- A message for a code has four bytes, of which three are data. The code is in the upper bits of the data. -/
theorem exists_codeMessage (m : Model) {r n : ℕ} (hr : r = 16 ∨ r = 20) (hn : n < 2 ^ r) :
    ∃ text d, codeMessage m r n = .ok text ∧ d < 2 ^ 24 ∧ d / 2 ^ (24 - r) = n ∧
      encode text.toList = [0x40, d / 65536, d / 256 % 256, d % 256].map Char.ofNat := by
  have henc (text : List Char) : encode ("40 ".toList ++ text) = Char.ofNat 0x40 :: encode text := by
    rw [encode_append (by decide)]
    rfl
  by_cases hm : m = .sixteen
  · have hlt : 2 ^ (24 - r) * n < 2 ^ 24 := by rcases hr with rfl | rfl <;> omega
    subst hm
    refine ⟨_, _, codeMessage_eq (by omega) n, hlt, Nat.mul_div_cancel_left n (by positivity), ?_⟩
    rw [String.toList_append, henc, encode_hex_three hlt]
    rfl
  · have hlt : 2 ^ (20 - r) * n < 2 ^ 20 := by rcases hr with rfl | rfl <;> omega
    refine ⟨_, 16 * (2 ^ (20 - r) * n) + 15, codeMessage_of_ne hm (by omega) n, by omega, ?_, ?_⟩
    · rcases hr with rfl | rfl <;> omega
    · rw [String.toList_append, String.toList_append, List.append_assoc, henc, encode_hex_five hlt,
        encode_hex_three (by omega)]
      rfl

/-! ### Codes -/

section Positions

variable {low high top : ℝ}

theorem position_eq (low high w top : ℝ) : Converter.position low high w top = (-w + high) / (high - low) * top :=
  rfl

theorem position_high (low high top : ℝ) : Converter.position low high high top = 0 := by
  rw [position_eq, neg_add_cancel, zero_div, zero_mul]

theorem position_low (h : low < high) (top : ℝ) : Converter.position low high low top = top := by
  rw [position_eq, neg_add_eq_sub, div_self (sub_pos.mpr h).ne', one_mul]

theorem position_antitone (h : low < high) (htop : 0 < top) : Antitone (Converter.position low high · top) := by
  intro w w' hw
  have hspan := sub_pos.mpr h
  simp only [position_eq]
  gcongr

theorem abs_sub_eq (h : low < high) (htop : 0 < top) (w c : ℝ) : |high - c * ((high - low) / top) - w| =
    |c - Converter.position low high w top| * ((high - low) / top) := by
  have hspan := sub_pos.mpr h
  have hdist : high - c * ((high - low) / top) - w =
      -((c - Converter.position low high w top) * ((high - low) / top)) := by
    rw [position_eq]
    field_simp
    ring
  rw [hdist, abs_neg, abs_mul, abs_of_pos (div_pos hspan htop)]

end Positions

/-- The codes of all voltages within the bounds, with exact numbers, and the messages by which they are set. An outlet
takes the same `Converter.code` of its binary numbers, by `code_eq_ok`. -/
theorem code_laws (m : Model) {r : ℕ} (hr : r = 16 ∨ r = 20) {low high : ℝ} (h : low < high) :
    ∃ code : ℝ → ℤ, code high = 0 ∧ code low = 2 ^ r - 1 ∧ Antitone code ∧ ∀ w, low ≤ w → w ≤ high →
      Converter.code m.rounding low high w (Converter.largest r : ℝ) = some (code w) ∧
      0 ≤ code w ∧ code w ≤ 2 ^ r - 1 ∧
      |high - code w * ((high - low) / (2 ^ r - 1)) - w| < (high - low) / (2 ^ r - 1) ∧
      (m.rounding = .nearest →
        |high - code w * ((high - low) / (2 ^ r - 1)) - w| ≤ 1 / 2 * ((high - low) / (2 ^ r - 1))) ∧
      ∃ text d, codeMessage m r (code w) = .ok text ∧ d < 2 ^ 24 ∧ (d / 2 ^ (24 - r) : ℕ) = code w ∧
        encode text.toList = [0x40, d / 65536, d / 256 % 256, d % 256].map Char.ofNat := by
  obtain ⟨f, hf⟩ := exists_rounds m.rounding
  have hlargest : (Converter.largest r : ℝ) = 2 ^ r - 1 := by
    simp [Converter.largest]
  have htop : (0 : ℝ) < 2 ^ r - 1 := by rcases hr with rfl | rfl <;> norm_num
  have hstep : 0 < (high - low) / (2 ^ r - 1) := div_pos (sub_pos.mpr h) htop
  have hanti : Antitone fun w => f (Converter.position low high w (2 ^ r - 1)) :=
    hf.mono.comp_antitone (position_antitone h htop)
  have hhigh : f (Converter.position low high high (2 ^ r - 1)) = 0 := by
    rw [position_high, ← Int.cast_zero, hf.intCast]
  have hlow : f (Converter.position low high low (2 ^ r - 1)) = 2 ^ r - 1 := by
    rw [position_low h, ← hf.intCast (2 ^ r - 1)]
    push_cast
    rfl
  refine ⟨_, hhigh, hlow, hanti, fun w hlw hwh => ?_⟩
  have hnonneg : 0 ≤ Converter.position low high w (2 ^ r - 1) :=
    (position_high low high _).symm.le.trans (position_antitone h htop hwh)
  have hcode := hf.code_eq low high w (2 ^ r - 1) hnonneg
  have hc₀ : 0 ≤ f (Converter.position low high w (2 ^ r - 1)) := hhigh.symm.le.trans (hanti hwh)
  have hc : f (Converter.position low high w (2 ^ r - 1)) ≤ 2 ^ r - 1 := (hanti hlw).trans hlow.le
  refine ⟨hlargest ▸ hcode, hc₀, hc, ?_, fun hnearest => ?_, ?_⟩
  · rw [abs_sub_eq h htop]
    exact mul_lt_of_lt_one_left hstep (hf.abs_sub_lt _)
  · rw [abs_sub_eq h htop]
    exact mul_le_mul_of_nonneg_right (hf.abs_sub_le hnearest _) hstep.le
  · obtain ⟨n, hn⟩ := Int.eq_ofNat_of_zero_le hc₀
    rw [hn] at hc ⊢
    have hlt : n < 2 ^ r := by
      have hpow : ((n : ℤ) : ℤ) < ((2 ^ r : ℕ) : ℤ) := by push_cast; omega
      exact_mod_cast hpow
    obtain ⟨text, d, htext, hd, hdiv, hencode⟩ := exists_codeMessage m hr hlt
    exact ⟨text, d, htext, hd, congrArg Nat.cast hdiv, hencode⟩

/-- The codes of an outlet with bounds of five volts, in sixteen bits. -/
theorem code_laws_sixteen_bits : (-5 : ℝ) < 5 ∧ ∃ code : ℝ → ℤ, code 5 = 0 ∧ code (-5) = 65535 ∧
    ∃ text, codeMessage .six 16 (code 0) = .ok text ∧ (encode text.toList).length = 4 := by
  have h : (-5 : ℝ) < 5 := by norm_num
  obtain ⟨code, hhigh, hlow, -, hall⟩ := code_laws .six (r := 16) (.inl rfl) h
  obtain ⟨-, -, -, -, -, text, d, htext, -, -, hencode⟩ := hall 0 (by norm_num) (by norm_num)
  exact ⟨h, code, hhigh, hlow.trans (by norm_num), text, htext, by rw [hencode]; rfl⟩

end LabBench.VoltageSource
