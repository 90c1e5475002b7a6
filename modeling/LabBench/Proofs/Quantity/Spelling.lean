import Mathlib
import LabBench.Proofs.Number.Printing
import LabBench.Proofs.Quantity.Conversion
/-!
# Spellings of units

A symbol with a decade in front of it and an exponent behind it has exactly one reading. The exponent goes to the symbol
only: the power of ten of the decade counts once, whatever the exponent is. If the symbol is written several times
instead, then the decade counts each time, so the two spellings of a power are different units.

## Main results

* `make_power`, `parse_product_render`
-/

namespace LabBench

open Text Number Magnitude Numeral
open List hiding splitAt

/-! ### Letters and digits -/

namespace Unit

/-- A character with which no numeral starts, apart from words. -/
def isLetter (c : Char) : Bool :=
  !isSpace c && (digitValue? c).isNone && c != '_' && c != '.' && c != '+' && c != '-'

def spelled (d : String × Int) (u : Symbol) : List Char :=
  d.1.toList ++ u.text.toList

/-- The reading of a symbol that starts with the given decade, with its exponent as it is written. -/
def reading (symbol : List Char) (d : String × Int) : Option (Int × Symbol × Option Numeral) :=
  if d.1.toList.isPrefixOf symbol then
    (Symbol.ofText? (splitExponent (symbol.drop d.1.length)).1).map fun u =>
      (d.2, u, (splitExponent (symbol.drop d.1.length)).2)
  else none

variable {K : Type} [Magnitude K]

theorem readWith?_eq (symbol : List Char) (d : String × Int) :
    readWith? (K := K) symbol d = (reading symbol d).map fun t => ⟨t.1, t.2.1, t.2.2.map ofNumeral⟩ := by
  unfold readWith? reading
  split
  · rw [Option.map_map]
    rfl
  · rfl

/-- All symbols with all decades: they consist of letters, no end of them is a numeral, and there is one reading. -/
theorem spelled_facts : (decades.all fun d => d.1.toList.all isLetter && Symbol.all.all fun u =>
    (spelled d u).all isLetter && (spelled d u).tails.all (fun s => s.isEmpty || (parse? s).isNone) &&
      decide (decades.filterMap (reading (spelled d u)) = [(d.2, u, none)])) = true := by
  decide +kernel

variable {d : String × Int}

theorem isLetter_of_mem_decades (hd : d ∈ decades) : ∀ c ∈ d.1.toList, isLetter c = true := by
  have hfacts := all_eq_true.mp spelled_facts d hd
  rw [Bool.and_eq_true] at hfacts
  exact all_eq_true.mp hfacts.1

theorem spelled_facts_of_mem (hd : d ∈ decades) (u : Symbol) : (∀ c ∈ spelled d u, isLetter c = true) ∧
    (∀ s, s <:+ spelled d u → s ≠ [] → parse? s = none) ∧
      decades.filterMap (reading (spelled d u)) = [(d.2, u, none)] := by
  have hfacts := all_eq_true.mp spelled_facts d hd
  rw [Bool.and_eq_true] at hfacts
  have hsym := all_eq_true.mp hfacts.2 u (Symbol.mem_all u)
  simp only [Bool.and_eq_true, decide_eq_true_iff, all_eq_true, Bool.or_eq_true, mem_tails,
    List.isEmpty_iff, Option.isNone_iff_eq_none] at hsym
  exact ⟨hsym.1.1, fun s hs hne => (hsym.1.2 s hs).resolve_left hne, hsym.2⟩

theorem parse?_of_isLetter {c l : Char} {cs : List Char} (hc : isLetter c = true) (hlast : (c :: cs).getLast? = some l)
    (hl : l.isDigit = true) : parse? (c :: cs) = none := by
  simp only [isLetter, Bool.and_eq_true, Bool.not_eq_true', bne_iff_ne, Option.isNone_iff_eq_none] at hc
  obtain ⟨⟨⟨⟨⟨hspace, hdig⟩, hunderscore⟩, hpoint⟩, hplus⟩, hminus⟩ := hc
  have htrim : trim isSpace (c :: cs) = c :: cs := by
    rw [trim, trimLeft_of_head, trimRight_of_last]
    · intro x hx
      rw [← Option.some.inj (hlast.symm.trans hx)]
      exact isSpace_of_isDigit hl
    · rintro x ⟨⟩
      exact hspace
  have hsign : scanSign (c :: cs) = (false, c :: cs) := by
    unfold scanSign
    split
    · rename_i heq
      exact absurd (cons.inj heq).1 hminus
    · rename_i heq
      exact absurd (cons.inj heq).1 hplus
    · rfl
  -- the words for numbers do not end with a digit
  have hword (word : String) (hend : word.toList.getLast? ≠ some l) :
      (lower (String.ofList (c :: cs)) == word) = false := by
    rw [beq_eq_false_iff_ne]
    rintro rfl
    rw [lower, String.toList_map, String.toList_ofList, getLast?_map, hlast, Option.map_some,
      toLower_of_isDigit hl] at hend
    exact hend rfl
  have hnot {x : Char} (hx : x.isDigit = false) : some x ≠ some l := by
    rintro ⟨⟩
    exact Bool.false_ne_true (hx.symm.trans hl)
  unfold parse?
  rw [htrim, hsign]
  dsimp only
  rw [hword "inf" (hnot (x := 'f') rfl), hword "infinity" (hnot (x := 'y') rfl), hword "nan" (hnot (x := 'n') rfl)]
  rw [scanDecimal?, scanDigits_of_head hdig hunderscore]
  simp only [Bool.or_false, Bool.false_eq_true, if_false]
  split
  · rename_i heq
    exact absurd (cons.inj heq).1 hpoint
  · rfl

/-! ### Symbols -/

/-- An exponent: a numeral that ends with a digit and does not start with a letter. -/
structure IsExponent (e : List Char) (n : Numeral) : Prop where
  parse? : parse? e = some n
  head : ∃ c rest, e = c :: rest ∧ isLetter c = false
  last : ∃ l, e.getLast? = some l ∧ l.isDigit = true

variable {e : List Char} {n : Numeral}

theorem splitExponent_append (he : IsExponent e n) {w : List Char} (hw : ∀ c ∈ w, isLetter c = true) :
    splitExponent (w ++ e) = (w, some n) := by
  obtain ⟨l, hlast, hl⟩ := he.last
  induction w with
  | nil =>
    obtain ⟨c, rest, rfl, -⟩ := he.head
    rw [nil_append, splitExponent, he.parse?]
  | cons c rest ih =>
    obtain ⟨hc, hrest⟩ := forall_mem_cons.mp hw
    have hend : (c :: (rest ++ e)).getLast? = some l := by
      rw [← cons_append, getLast?_append, hlast]
      rfl
    rw [cons_append, splitExponent, parse?_of_isLetter hc hend hl, ih hrest]

theorem splitExponent_of_suffix {w : List Char} (hw : ∀ s, s <:+ w → s ≠ [] → parse? s = none) :
    splitExponent w = (w, none) := by
  induction w with
  | nil => rfl
  | cons c rest ih =>
    rw [splitExponent, hw _ suffix_rfl (cons_ne_nil c rest), ih fun s hs => hw s (hs.trans (suffix_cons c rest))]

theorem isPrefixOf_append {p w : List Char} (hp : ∀ c ∈ p, isLetter c = true) (he : IsExponent e n) :
    p.isPrefixOf (w ++ e) = p.isPrefixOf w := by
  induction p generalizing w with
  | nil => simp
  | cons a p ih =>
    obtain ⟨ha, hp⟩ := forall_mem_cons.mp hp
    cases w with
    | nil =>
      obtain ⟨c, rest, rfl, hc⟩ := he.head
      have hne : (a == c) = false := by
        rw [beq_eq_false_iff_ne]
        rintro rfl
        exact Bool.false_ne_true (hc.symm.trans ha)
      rw [nil_append, isPrefixOf_cons_cons, hne]
      rfl
    | cons b w => rw [cons_append, isPrefixOf_cons_cons, isPrefixOf_cons_cons, ih hp]

/-- An exponent behind a symbol is read, and nothing else changes. -/
theorem reading_append {w : List Char} (hw : ∀ c ∈ w, isLetter c = true)
    (hsuf : ∀ s, s <:+ w → s ≠ [] → parse? s = none) (he : IsExponent e n) (hd : d ∈ decades) :
    reading (w ++ e) d = (reading w d).map fun t => (t.1, t.2.1, some n) := by
  unfold reading
  rw [isPrefixOf_append (isLetter_of_mem_decades hd) he]
  split
  · rename_i hpre
    have hle : d.1.length ≤ w.length := by
      rw [← String.length_toList]
      exact ( isPrefixOf_iff_prefix.mp hpre).length_le
    rw [drop_append_of_le_length hle, Option.map_map, splitExponent_append he fun c hc => hw c (mem_of_mem_drop hc),
      splitExponent_of_suffix fun s hs => hsuf s (hs.trans (drop_suffix _ _))]
    rfl
  · rfl

theorem parseTerm_of_readings {symbol : List Char} {t : Int × Symbol × Option Numeral}
    (h : decades.filterMap (reading symbol) = [t]) :
    parseTerm (K := K) symbol = .ok ⟨t.1, t.2.1, t.2.2.map ofNumeral⟩ := by
  have hreadings : decades.filterMap (readWith? (K := K) symbol) = [⟨t.1, t.2.1, t.2.2.map ofNumeral⟩] := by
    rw [funext (readWith?_eq (K := K) symbol), ← map_filterMap, h]
    rfl
  rw [parseTerm, hreadings]

theorem parseTerm_spelled (hd : d ∈ decades) (u : Symbol) : parseTerm (K := K) (spelled d u) = .ok ⟨d.2, u, none⟩ :=
  parseTerm_of_readings (spelled_facts_of_mem hd u).2.2

theorem parseTerm_spelled_append (hd : d ∈ decades) (u : Symbol) (he : IsExponent e n) :
    parseTerm (K := K) (spelled d u ++ e) = .ok ⟨d.2, u, some (ofNumeral n)⟩ := by
  obtain ⟨hletters, hsuf, hreadings⟩ := spelled_facts_of_mem hd u
  refine parseTerm_of_readings (t := (d.2, u, some n)) ?_
  have hcongr : decades.filterMap (reading (spelled d u ++ e)) =
      decades.filterMap fun d' => (reading (spelled d u) d').map fun t => (t.1, t.2.1, some n) :=
    filterMap_congr fun d' hd' => reading_append hletters hsuf he hd'
  rw [hcongr, ← map_filterMap, hreadings]
  rfl

/-! ### Products -/

theorem splitAt_intercalate {sep : Char} {parts : List (List Char)} (hne : parts ≠ []) (h : ∀ p ∈ parts, sep ∉ p) :
    splitAt sep ([sep].intercalate parts) = parts := by
  induction parts with
  | nil => exact absurd rfl hne
  | cons p rest ih =>
    obtain ⟨hp, hrest⟩ := forall_mem_cons.mp h
    cases rest with
    | nil =>
      rw [intercalate_singleton]
      clear ih hne h hrest
      induction p with
      | nil => rfl
      | cons c p ih =>
        rw [mem_cons, not_or] at hp
        rw [splitAt, ih hp.2]
        exact if_neg (by simpa using Ne.symm hp.1)
    | cons q rest =>
      rw [intercalate_cons_cons, append_assoc, singleton_append, splitAt_append hp, ih (cons_ne_nil q rest) hrest]

theorem isExponent_toDigits (negative : Bool) (n : Nat) :
    IsExponent (signChars negative ++ Nat.toDigits 10 n) (.decimal negative n 0) := by
  have hdigs : ∀ c ∈ Nat.toDigits 10 n, c.isDigit = true := fun c hc =>
    Nat.isDigit_of_mem_toDigits (by decide) (by decide) hc
  have hval : Nat.ofDigitChars 10 (Nat.toDigits 10 n) 0 = n := Nat.ofDigitChars_ten_toDigits
  obtain ⟨c, rest, hcs⟩ : ∃ c rest, Nat.toDigits 10 n = c :: rest :=
    exists_cons_of_ne_nil (ne_nil_of_length_pos Nat.length_toDigits_pos)
  rw [hcs] at hdigs hval ⊢
  obtain ⟨hc, hrest⟩ := forall_mem_cons.mp hdigs
  refine ⟨?_, ?_, ⟨_, ?_, hdigs _ (getLast_mem (cons_ne_nil c rest))⟩⟩
  · rw [parse?_of_isDigit hc fun a ha => isSpace_of_isDigit (hrest a ha)]
    simp only [scanDecimal?, scanDigits_of_isDigit hdigs, hval]
    simp [scanExponent?]
  · cases negative with
    | false =>
      refine ⟨c, rest, rfl, ?_⟩
      rw [← Bool.not_eq_true]
      intro hletter
      simp [isLetter, digitValue?_of_isDigit hc] at hletter
    | true => exact ⟨'-', c :: rest, rfl, rfl⟩
  · rw [getLast?_append_of_ne_nil _ (cons_ne_nil c rest), getLast?_eq_some_getLast]

/-- A symbol with its decade and its exponent as they are written, with blanks around them. -/
structure Factor where
  decade : String × Int
  mem_decades : decade ∈ decades
  symbol : Symbol
  exponent : Option Int
  before : List Char := []
  after : List Char := []
  isBlank_before : before.all isBlank = true := by rfl
  isBlank_after : after.all isBlank = true := by rfl

namespace Factor

variable (f : Factor)

/-- The numeral that an exponent is read as. -/
def numeral (e : Int) : Numeral :=
  .decimal (e < 0) e.natAbs 0

/-- A factor without the blanks around it. -/
def core : List Char :=
  spelled f.decade f.symbol ++ f.exponent.elim [] fun e => (toString e).toList

def text : String :=
  String.ofList (f.before ++ f.core ++ f.after)

def term : Term K :=
  ⟨f.decade.2, f.symbol, f.exponent.map fun e => ofNumeral (numeral e)⟩

theorem toList_toString (e : Int) : (toString e).toList = signChars (e < 0) ++ Nat.toDigits 10 e.natAbs := by
  cases e <;> simp [Int.repr, signChars]

theorem parseTerm_core : parseTerm (K := K) f.core = .ok f.term := by
  obtain ⟨d, hd, u, exponent, -⟩ := f
  cases exponent with
  | none =>
    rw [core, Option.elim_none, append_nil, parseTerm_spelled hd]
    rfl
  | some e =>
    have he := isExponent_toDigits (e < 0) e.natAbs
    rw [← toList_toString] at he
    exact parseTerm_spelled_append hd u he

theorem core_facts : ∀ c ∈ f.core, isBlank c = false ∧ c ≠ '.' := by
  have hletter {c : Char} (hc : isLetter c = true) : isBlank c = false ∧ c ≠ '.' := by
    refine ⟨?_, by rintro rfl; cases hc⟩
    rw [← Bool.not_eq_true]
    intro hblank
    simp [isLetter, isSpace_of_isBlank hblank] at hc
  have hdig {c : Char} (hc : c.isDigit = true) : isBlank c = false ∧ c ≠ '.' :=
    ⟨isBlank_of_isDigit hc, by rintro rfl; cases hc⟩
  obtain ⟨d, hd, u, exponent, -⟩ := f
  refine forall_mem_append.mpr ⟨fun c hc => hletter ((spelled_facts_of_mem hd u).1 c hc), ?_⟩
  cases exponent with
  | none => nofun
  | some e =>
    rw [Option.elim_some, toList_toString]
    refine forall_mem_append.mpr ⟨?_, fun c hc => hdig (Nat.isDigit_of_mem_toDigits (by decide) (by decide) hc)⟩
    cases decide (e < 0) with
    | false => nofun
    | true => exact forall_mem_singleton.mpr ⟨rfl, by decide⟩

end Factor

theorem parse_product {fs : List Factor} (hne : fs ≠ []) :
    parse (K := K) (".".intercalate (fs.map Factor.text)) = .ok (fs.map Factor.term) := by
  have hs : (".".intercalate (fs.map Factor.text)).toList =
      ['.'].intercalate (fs.map fun f => f.before ++ f.core ++ f.after) := by
    simp [String.toList_intercalate, Factor.text, Function.comp_def]
  have hpoint : ∀ symbol ∈ fs.map fun f => f.before ++ f.core ++ f.after, '.' ∉ symbol := by
    rw [forall_mem_map]
    intro f _ hmem
    simp only [mem_append] at hmem
    rcases hmem with (hpre | hcore) | hafter
    · exact absurd (all_eq_true.mp f.isBlank_before _ hpre) (by decide)
    · exact (f.core_facts _ hcore).2 rfl
    · exact absurd (all_eq_true.mp f.isBlank_after _ hafter) (by decide)
  have hterm (f : Factor) : parseTerm (K := K) (trim isBlank (f.before ++ f.core ++ f.after)) = pure f.term := by
    rw [trim_append_of_all f.isBlank_before (fun c hc => (f.core_facts c hc).1) f.isBlank_after, f.parseTerm_core]
    rfl
  rw [parse, hs, splitAt_intercalate (by simpa using hne) hpoint, mapM_map, Function.comp_def, funext hterm, mapM_pure]
  rfl

/-- The number that is taken for an exponent. -/
def exponent (e : Int) : Float :=
  (Factor.numeral e).toFloat

theorem parts_exponent {e : Int} {m : ℕ} {k : ℤ} (hfits : Fits m k) (hk : k ≤ 971) (hm : 0 < m)
    (h : ReadsAs m k |(e : ℚ)|) : parts (exponent e) = composed (signOf (e < 0)) m k := by
  have he : e ≠ 0 := by
    rintro rfl
    simpa using h.pos hm
  refine parts_toFloat (Int.natAbs_pos.mpr he) hfits hk hm ?_ _
  rwa [zpow_zero, mul_one, Nat.cast_natAbs, Int.cast_abs]

theorem exponent_of_value {e : Int} {x : Float} (hx : x.isFinite) (he : e ≠ 0) (h : value x = e) : exponent e = x := by
  obtain ⟨negative, m, k, hparts, -, hfits, hk⟩ := exists_parts hx
  rw [value, hparts, worth_composed, signed_signOf] at h
  have hpow := two_zpow_pos k
  have hm : 0 < m := by
    rw [Nat.pos_iff_ne_zero]
    rintro rfl
    exact he (by simpa using h.symm)
  have hpos : (0 : ℚ) < m * 2 ^ k := mul_pos (Nat.cast_pos.mpr hm) hpow
  -- the sign and the size are those of the exponent
  have hsize : (m : ℚ) * 2 ^ k = |(e : ℚ)| ∧ negative = decide (e < 0) := by
    cases negative with
    | false =>
      rw [if_neg Bool.false_ne_true] at h
      have he : 0 < e := by exact_mod_cast h ▸ hpos
      exact ⟨by rw [← h, abs_of_pos hpos], by simpa using he.le⟩
    | true =>
      rw [if_pos rfl] at h
      have he : e < 0 := by
        have hneg : (e : ℚ) < 0 := h ▸ neg_lt_zero.mpr hpos
        exact_mod_cast hneg
      exact ⟨by rw [← h, abs_neg, abs_of_pos hpos], by simpa using he⟩
  refine eq_of_parts_eq ?_
  rw [hparts, hsize.2]
  exact parts_exponent hfits hk hm (hsize.1 ▸ readsAs_self hm k)

/-- A product of factors is read. Its decades add up, and without them each factor is written as its symbol and the
power of it. An exponent is the binary number with its value, or else the nearest one. -/
theorem parse_product_render {fs : List Factor} (hne : fs ≠ []) :
    ∃ terms : List (Term Float), parse (".".intercalate (fs.map Factor.text)) = .ok terms ∧
      decade terms = (fs.map fun f => f.decade.2).sum ∧
      render terms = "*".intercalate
        (fs.map fun f => f.symbol.text ++ f.exponent.elim "" fun e => "**" ++ plain (exponent e)) ∧
      ∀ e : ℤ, Tells (plain (exponent e)) (exponent e) ∧
        (∀ x : Float, x.isFinite → value x = e → (exponent e).isFinite ∧ value (exponent e) = e) ∧
        ∀ m k, Fits m k → k ≤ 971 → 0 < m → ReadsAs m k |(e : ℚ)| →
          parts (exponent e) = composed (signOf (e < 0)) m k := by
  refine ⟨_, parse_product hne, ?_, ?_, fun e => ⟨tells_plain _, fun x hx h => ?_, fun _ _ => parts_exponent⟩⟩
  · rw [decade, map_map]
    rfl
  · rw [render, map_map]
    refine congrArg (String.intercalate "*") (map_congr_left fun f _ => ?_)
    obtain ⟨d, hd, u, e, -⟩ := f
    cases e <;> rfl
  · rcases eq_or_ne e 0 with rfl | he
    · exact ⟨by decide +kernel, by decide +kernel⟩
    · rw [exponent_of_value hx he h]
      exact ⟨hx, h⟩

/-- A product of three factors, with blanks in front of it. -/
theorem parse_product_render_newton_metre :
    ∃ terms : List (Term Float), parse " mN.m.ks-2" = .ok terms ∧ decade terms = 0 ∧ render terms = "N*m*s**-2.0" := by
  obtain ⟨terms, hparse, hdecade, hrender, -⟩ := @parse_product_render
    [⟨("m", -3), by decide, .newton, none, [' '], [], rfl, rfl⟩, ⟨("", 0), by decide, .metre, none, [], [], rfl, rfl⟩,
      ⟨("k", 3), by decide, .second, some (-2), [], [], rfl, rfl⟩] (cons_ne_nil _ _)
  refine ⟨terms, hparse, hdecade, hrender.trans ?_⟩
  decide +kernel

variable (u : Symbol)

theorem parse_power (hd : d ∈ decades) (n : Nat) : parse (K := K) (d.1 ++ u.text ++ toString n) =
    .ok [⟨d.2, u, some (ofNumeral (.decimal false n 0))⟩] := by
  have htext : d.1 ++ u.text ++ toString n = (⟨d, hd, u, some n, [], [], rfl, rfl⟩ : Factor).text := by
    simp [Factor.text, Factor.core, spelled, ← String.append_assoc]
    rfl
  rw [htext]
  exact @parse_product K _ [_] (cons_ne_nil _ _)

theorem parse_copies (hd : d ∈ decades) {n : Nat} (hn : 1 ≤ n) :
    parse (K := K) (".".intercalate (replicate n (d.1 ++ u.text))) = .ok (replicate n ⟨d.2, u, none⟩) := by
  have htext : d.1 ++ u.text = (⟨d, hd, u, none, [], [], rfl, rfl⟩ : Factor).text := by
    simp [Factor.text, Factor.core, spelled]
  have hne : replicate n (⟨d, hd, u, none, [], [], rfl, rfl⟩ : Factor) ≠ [] := by simp; omega
  have hprod := parse_product (K := K) hne
  rwa [map_replicate, ← htext, map_replicate] at hprod

/-- An exponent is a binary number, so that a long one loses its last digits. -/
theorem render_long_exponent : ∃ terms : List (Term Float), parse "m9007199254740993" = .ok terms ∧
    render terms = "m**9007199254740992.0" ∧ render terms ≠ "m**9007199254740993.0" := by
  have hrender : render [⟨0, .metre, some (exponent 9007199254740993)⟩] = "m**9007199254740992.0" := by decide +kernel
  refine ⟨_, parse_power .metre (d := ("", 0)) (by decide) 9007199254740993, hrender,
    fun h => absurd (hrender.symm.trans h) (by decide)⟩

theorem collect_copies (z : Int) (n : Nat) :
    collect (replicate (n + 1) (⟨z, u, none⟩ : Term ℝ)) = [(u, ((n + 1 : ℕ) : ℝ))] := by
  have hmore (x : ℝ) : (replicate n (⟨z, u, none⟩ : Term ℝ)).foldl
      (fun powers t => addPower t.symbol t.power powers) [(u, x)] = [(u, x + n)] := by
    induction n generalizing x with
    | zero => simp
    | succ n ih =>
      rw [replicate_succ, foldl_cons, addPower, if_pos rfl, ih]
      have hone : Term.power (⟨z, u, none⟩ : Term ℝ) = ((1 : ℤ) : ℝ) := rfl
      rw [hone]
      push_cast
      ring_nf
  have hone : Term.power (⟨z, u, none⟩ : Term ℝ) = ((1 : ℤ) : ℝ) := rfl
  rw [collect, replicate_succ, foldl_cons, addPower, hmore, hone]
  push_cast
  ring_nf

theorem decade_copies (z : Int) (n : Nat) : decade (replicate n (⟨z, u, none⟩ : Term ℝ)) = n * z := by
  induction n with
  | zero => simp [decade]
  | succ n ih =>
    rw [decade, replicate_succ, map_cons, foldr_cons]
    rw [decade] at ih
    rw [ih]
    push_cast
    ring

end Unit

namespace Quantity

/-- A power of a symbol and the repeated symbol are units of the same dimension. The decade counts once in the first
one and each time in the second one, so the quantities are the same only without a decade, or for one symbol, or
nothing of it. -/
theorem make_power {d : String × Int} (hd : d ∈ Unit.decades) (u : Unit.Symbol) {n : Nat} (hn : 1 ≤ n) (v : ℝ) :
    ∃ power copies : Quantity ℝ, make v (d.1 ++ u.text ++ toString n) = .ok power ∧
      make v (".".intercalate (replicate n (d.1 ++ u.text))) = .ok copies ∧
      copies.dimension = power.dimension ∧ copies.magnitude = power.magnitude * 10 ^ (d.2 * (n - 1)) ∧
      (copies.magnitude = power.magnitude ↔ d.2 = 0 ∨ n = 1 ∨ v = 0) := by
  obtain ⟨power, hmake, hpower, -⟩ := exists_make (Unit.parse_power u hd n) v
  obtain ⟨copies, hmake', hcopies, -⟩ := exists_make (Unit.parse_copies u hd hn) v
  obtain ⟨m, rfl⟩ := Nat.exists_eq_add_of_le' hn
  have hnumeral : ofNumeral (K := ℝ) (.decimal false (m + 1) 0) = ((m + 1 : ℕ) : ℝ) := by
    change (if false then -1 else 1 : ℝ) * _ * 10 ^ (0 : ℤ) = _
    norm_num
  -- both units have one symbol with one exponent
  have hcollect : Unit.collect (replicate (m + 1) (⟨d.2, u, none⟩ : Unit.Term ℝ)) =
      Unit.collect [⟨d.2, u, some (ofNumeral (.decimal false (m + 1) 0))⟩] := by
    rw [Unit.collect_copies, hnumeral]
    rfl
  have hmagnitude : copies.magnitude = power.magnitude * 10 ^ (d.2 * ((m + 1 : ℕ) - 1 : ℤ)) := by
    have hdecade : Unit.decade [(⟨d.2, u, some (ofNumeral (.decimal false (m + 1) 0))⟩ : Unit.Term ℝ)] = d.2 :=
      add_zero d.2
    rw [hcopies.magnitude, hpower.magnitude, unitValue, unitValue, unitFactor, hcollect, ← unitFactor,
      Unit.decade_copies, hdecade, mul_assoc, mul_assoc, ← zpow_add₀ (by norm_num)]
    congr 3
    push_cast
    ring
  refine ⟨power, copies, hmake, hmake', ?_, hmagnitude, ?_⟩
  · rw [hcopies.dimension, hpower.dimension, Dimension.ofTerms, hcollect, Dimension.ofTerms]
  · by_cases hv : v = 0
    · simp [hmagnitude, hpower.magnitude, hv]
    · have hne : power.magnitude ≠ 0 := hpower.magnitude ▸ mul_ne_zero hv (unitValue_ne_zero _)
      rw [hmagnitude, mul_eq_left₀ hne, zpow_eq_one_iff_right₀ (by norm_num) (by norm_num), mul_eq_zero, or_iff_left hv]
      refine or_congr_right ?_
      omega

/-- A square millimetre is taken for a thousandth of a square metre, unless its symbol is written twice. -/
theorem make_power_of_millimetres : ∃ power copies : Quantity ℝ, make 1 "mm2" = .ok power ∧
    make 1 "mm.mm" = .ok copies ∧
    copies.dimension = power.dimension ∧ copies.magnitude = power.magnitude * 10 ^ (-3 : ℤ) ∧
    copies.magnitude ≠ power.magnitude := by
  obtain ⟨power, copies, hpower, hcopies, hdimension, hmagnitude, hsame⟩ :=
    make_power (d := ("m", -3)) (by decide) .metre (n := 2) (by decide) 1
  refine ⟨power, copies, hpower, hcopies, hdimension, hmagnitude, fun heq => ?_⟩
  exact absurd (hsame.mp heq) (by norm_num)

end Quantity

end LabBench
