import LabBench.Proofs.Number.Decimals
import LabBench.Proofs.Number.Numerals
import LabBench.Proofs.Number.Shortest
/-!
# Numbers and their plain texts

A number is written with the fewest digits from which it can be read back. Wherever the point stands, the digits are
worth the same, and they lie in the interval around the number. So every number is read back from its plain text, with
its sign, and also the infinite numbers and what is not a number.
-/

namespace LabBench.Number

open Float.Model Float.Model.UnpackedFloat Text List

/-! ### Digits -/

variable {ds es : List Char} {m : ℕ} {c : Char} {negative : Bool}

theorem digitsValue_append (ds es : List Char) :
    digitsValue (ds ++ es) = digitsValue ds * 10 ^ es.length + digitsValue es := by
  rw [digitsValue, Nat.ofDigitChars_append, Nat.ofDigitChars_eq_ofDigitChars_zero, Nat.mul_comm]

theorem digitsValue_replicate (n : ℕ) : digitsValue (replicate n '0') = 0 := by
  rw [digitsValue, Nat.ofDigitChars_replicate_zero, Nat.mul_zero]

theorem isDigit_zeros (n : ℕ) : ∀ c ∈ replicate n '0', c.isDigit = true := by
  intro c hc
  rw [eq_of_mem_replicate hc]
  rfl

theorem isDigit_padded (n k : ℕ) : ∀ c ∈ replicate n '0' ++ Nat.toDigits 10 k, c.isDigit = true :=
  forall_mem_append.mpr ⟨isDigit_zeros n, fun _ hc => Nat.isDigit_of_mem_toDigits (by decide) (by decide) hc⟩

theorem digitsValue_padded (n k : ℕ) : digitsValue (replicate n '0' ++ Nat.toDigits 10 k) = k := by
  have hdigs : digitsValue (Nat.toDigits 10 k) = k := Nat.ofDigitChars_ten_toDigits
  rw [digitsValue_append, digitsValue_replicate, Nat.zero_mul, Nat.zero_add, hdigs]

theorem Digits.ReadBack.length_text {d : Digits} {e : ℤ} (h : d.ReadBack m e) : d.text.length = d.count := by
  have hlen := (Nat.length_toDigits_le_iff (b := 10) (by norm_num) h.count_pos).mpr h.value_lt
  rw [text, length_append, length_replicate]
  omega

theorem exists_dropZeros (ds : List Char) : ∃ n, ds = dropZeros ds ++ replicate n '0' := by
  have hzeros : ds.reverse.takeWhile (· == '0') = replicate (ds.reverse.takeWhile (· == '0')).length '0' := by
    refine eq_replicate_iff.mpr ⟨rfl, fun c hc => ?_⟩
    have hzero := mem_takeWhile_imp (p := (· == '0')) hc
    exact beq_iff_eq.mp hzero
  refine ⟨(ds.reverse.takeWhile (· == '0')).length, ?_⟩
  rw [← reverse_replicate, ← hzeros, dropZeros, ← reverse_append, takeWhile_append_dropWhile, reverse_reverse]

/-- Digits that are worth a number, where the first one stands for a power of ten. -/
structure Shows (ds : List Char) (exponent : ℤ) (t : ℚ) : Prop where
  isDigit : ∀ c ∈ ds, c.isDigit = true
  pos : 0 < digitsValue ds
  worth : (digitsValue ds : ℚ) * 10 ^ (exponent - (ds.length - 1)) = t

theorem Shows.ne_nil {exponent : ℤ} {t : ℚ} (h : Shows ds exponent t) : ds ≠ [] := by
  rintro rfl
  exact absurd h.pos (lt_irrefl 0)

theorem Digits.ReadBack.shows {d : Digits} {e : ℤ} (h : d.ReadBack m e) :
    Shows (dropZeros d.text) d.exponent d.worth := by
  obtain ⟨n, hn⟩ := exists_dropZeros d.text
  have hval : digitsValue d.text = d.value := digitsValue_padded _ _
  have hlen := h.length_text
  have hdig : ∀ c ∈ d.text, c.isDigit = true := isDigit_padded _ _
  rw [hn] at hval hlen hdig
  rw [digitsValue_append, digitsValue_replicate, length_replicate, Nat.add_zero] at hval
  rw [length_append, length_replicate] at hlen
  refine ⟨fun c hc => hdig c (mem_append_left _ hc), ?_, ?_⟩
  · have hpos := h.value_pos
    rw [← hval] at hpos
    exact Nat.pos_of_mul_pos_right hpos
  · rw [Digits.worth, ← hval, ← hlen]
    push_cast
    rw [mul_assoc, ← zpow_natCast (10 : ℚ) n, ← zpow_add₀ (by norm_num)]
    congr 2
    ring

/-! ### Scanning -/

theorem toLower_of_isDigit (h : c.isDigit = true) : c.toLower = c := by
  refine dif_neg fun hup => ?_
  simp only [Char.isDigit, Bool.and_eq_true, decide_eq_true_eq] at h
  have hhigh : c.toNat ≤ 57 := h.2
  have hlow : 65 ≤ c.toNat := hup.1
  omega

/-- A text that starts with a digit is none of the words for numbers. -/
theorem lower_beq_of_isDigit {d : Char} (h : c.isDigit = true) (h' : d.isDigit = false) (rest rest' : List Char) :
    (lower (String.ofList (c :: rest)) == String.ofList (d :: rest')) = false := by
  rw [beq_eq_false_iff_ne]
  intro heq
  have hlist := congrArg String.toList heq
  rw [lower, String.toList_map, String.toList_ofList, String.toList_ofList, map_cons, toLower_of_isDigit h] at hlist
  obtain ⟨rfl, -⟩ := cons.inj hlist
  exact Bool.false_ne_true (h'.symm.trans h)

def signChars (negative : Bool) : List Char :=
  if negative then ['-'] else []

theorem parse?_of_isDigit {rest : List Char} (hc : c.isDigit = true)
    (hspace : ∀ a ∈ rest, isSpace a = false) (negative : Bool) :
    Numeral.parse? (signChars negative ++ c :: rest) = scanDecimal? negative (c :: rest) := by
  have hall : ∀ a ∈ signChars negative ++ c :: rest, isSpace a = false := by
    refine forall_mem_append.mpr ⟨?_, forall_mem_cons.mpr ⟨isSpace_of_isDigit hc, hspace⟩⟩
    cases negative with
    | false => exact fun a ha => (by cases ha)
    | true => exact forall_mem_singleton.mpr (by decide)
  have hsign : scanSign (signChars negative ++ c :: rest) = (negative, c :: rest) := by
    cases negative
    · exact scanSign_of_isDigit hc rest
    · rfl
  have hinf := lower_beq_of_isDigit (d := 'i') hc rfl rest
  have hnan := lower_beq_of_isDigit (d := 'n') hc rfl rest
  unfold Numeral.parse?
  rw [trim_of_forall hall, hsign]
  dsimp only
  rw [show "inf" = String.ofList ['i', 'n', 'f'] from rfl,
    show "infinity" = String.ofList ['i', 'n', 'f', 'i', 'n', 'i', 't', 'y'] from rfl,
    show "nan" = String.ofList ['n', 'a', 'n'] from rfl, hinf, hinf, hnan]
  rfl

theorem isExponent_exponentText (e : ℤ) : IsExponent (exponentText 'e' e).toList e := by
  obtain ⟨zeros, htext⟩ : ∃ n, (exponentText 'e' e).toList =
      'e' :: (if e < 0 then '-' else '+') :: (replicate n '0' ++ Nat.toDigits 10 e.natAbs) := by
    refine ⟨if (Nat.toDigits 10 e.natAbs).length < 2 then 1 else 0, ?_⟩
    unfold exponentText
    dsimp only
    simp only [String.toList_append, String.toList_ofList]
    split <;> split <;> rfl
  have hdigs := isDigit_padded zeros e.natAbs
  have hne : replicate zeros '0' ++ Nat.toDigits 10 e.natAbs ≠ [] := append_ne_nil_of_right_ne_nil _ Nat.toDigits_ne_nil
  have hsign {c : Char} (hc : isSpace c = false) {negative : Bool}
      (hscan : ∀ ds, scanSign (c :: ds) = (negative, ds)) := isExponent_of_scanSign (hscan _) hdigs hne
    (forall_mem_cons.mpr ⟨hc, fun c hc => isSpace_of_isDigit (hdigs c hc)⟩)
  rw [digitsValue_padded] at hsign
  rw [htext]
  by_cases he : e < 0
  · have hexp := hsign (c := '-') (by decide) fun _ => rfl
    rw [if_pos he]
    rwa [if_pos rfl, Int.natCast_natAbs, abs_of_neg he, neg_neg] at hexp
  · have hexp := hsign (c := '+') (by decide) fun _ => rfl
    rw [if_neg he]
    rwa [if_neg Bool.false_ne_true, Int.natCast_natAbs, abs_of_nonneg (not_lt.mp he)] at hexp

/-! ### Layouts -/

/-- A text without a sign that is a positive decimal. -/
structure IsDecimal (cs : List Char) (t : ℚ) : Prop where
  head : ∃ c rest, cs = c :: rest ∧ c.isDigit = true
  isSpace : ∀ c ∈ cs, isSpace c = false
  scan : ∃ (d : ℕ) (q : ℤ), 0 < d ∧ (d : ℚ) * 10 ^ q = t ∧
    ∀ negative, scanDecimal? negative cs = some (.decimal negative d q)

variable {tail : List Char} {e : ℤ}

theorem IsExponent.isDecimal_whole (h : IsExponent tail e) (hds : ∀ c ∈ ds, c.isDigit = true)
    (hpos : 0 < digitsValue ds) : IsDecimal (ds ++ tail) (digitsValue ds * 10 ^ e) := by
  have hne : ds ≠ [] := by
    rintro rfl
    exact absurd hpos (lt_irrefl 0)
  refine ⟨?_, ?_, _, _, hpos, rfl, h.scanDecimal?_whole hds hne⟩
  · obtain ⟨c, rest, rfl⟩ := exists_cons_of_ne_nil hne
    exact ⟨c, rest ++ tail, rfl, hds c mem_cons_self⟩
  · exact forall_mem_append.mpr ⟨fun c hc => isSpace_of_isDigit (hds c hc), h.isSpace⟩

theorem IsExponent.isDecimal_point (h : IsExponent tail e) (hds : ∀ c ∈ ds, c.isDigit = true) (hne : ds ≠ [])
    (hes : ∀ c ∈ es, c.isDigit = true) (hpos : 0 < digitsValue (ds ++ es)) :
    IsDecimal (ds ++ '.' :: es ++ tail) (digitsValue (ds ++ es) * 10 ^ (e - es.length)) := by
  refine ⟨?_, ?_, _, _, hpos, rfl, fun negative => ?_⟩
  · obtain ⟨c, rest, rfl⟩ := exists_cons_of_ne_nil hne
    exact ⟨c, rest ++ '.' :: es ++ tail, by simp, hds c mem_cons_self⟩
  · refine forall_mem_append.mpr ⟨forall_mem_append.mpr ⟨fun c hc => isSpace_of_isDigit (hds c hc), ?_⟩, h.isSpace⟩
    exact forall_mem_cons.mpr ⟨by decide, fun c hc => isSpace_of_isDigit (hes c hc)⟩
  · rw [h.scanDecimal?_point hds hne hes, digitsValue_append]
    rfl

theorem toList_fraction_cons (c : Char) (rest : List Char) : (fraction (c :: rest)).toList = '.' :: c :: rest := by
  simp [fraction]

namespace Shows

variable {exponent : ℤ} {t : ℚ}

theorem isDecimal_scientific (h : Shows ds exponent t) :
    IsDecimal (ds.take 1 ++ (fraction (ds.drop 1)).toList ++ (exponentText 'e' exponent).toList) t := by
  obtain ⟨c, rest, rfl⟩ := exists_cons_of_ne_nil h.ne_nil
  have hexp := isExponent_exponentText exponent
  have hworth := h.worth
  have hdigs := h.isDigit
  cases rest with
  | nil =>
    have hsum : exponent - (([c].length : ℤ) - 1) = exponent := by simp
    rw [hsum] at hworth
    rw [← hworth]
    exact hexp.isDecimal_whole hdigs h.pos
  | cons c' rest =>
    have hsum : exponent - (((c :: c' :: rest).length : ℤ) - 1) = exponent - (c' :: rest).length := by
      rw [length_cons]
      push_cast
      ring
    rw [hsum] at hworth
    rw [← hworth, drop_one, tail_cons, toList_fraction_cons]
    exact hexp.isDecimal_point (forall_mem_singleton.mpr (hdigs c mem_cons_self))
      (cons_ne_nil _ _) (fun a ha => hdigs a (mem_cons_of_mem _ ha)) h.pos

/-- The digits with a point where the exponent says, and zeros where it needs them. -/
theorem isDecimal_positional (h : Shows ds exponent t) :
    IsDecimal ((positional ds exponent).1 ++ (fraction (if (positional ds exponent).2.isEmpty then ['0']
      else (positional ds exponent).2)).toList) t := by
  have hworth := h.worth
  have hdigs := h.isDigit
  have hpoint {whole places : List Char} (hwhole : ∀ c ∈ whole, c.isDigit = true) (hne : whole ≠ [])
      (hplaces : ∀ c ∈ places, c.isDigit = true) (hplace : places ≠ [])
      (hval : (digitsValue (whole ++ places) : ℚ) * 10 ^ (-(places.length : ℤ)) = t)
      (hpos : 0 < digitsValue (whole ++ places)) : IsDecimal (whole ++ (fraction places).toList) t := by
    have hdecimal := IsExponent.nil.isDecimal_point hwhole hne hplaces hpos
    obtain ⟨c, rest, rfl⟩ := exists_cons_of_ne_nil hplace
    rwa [Int.zero_sub, hval, append_nil, ← toList_fraction_cons] at hdecimal
  have hlen : 0 < ds.length := length_pos_iff.mpr h.ne_nil
  by_cases hneg : exponent < 0
  · -- zero, a point, and zeros in front of the digits
    have hlayout : positional ds exponent = (['0'], replicate (exponent.natAbs - 1) '0' ++ ds) := if_pos hneg
    have hval : digitsValue (['0'] ++ (replicate (exponent.natAbs - 1) '0' ++ ds)) = digitsValue ds := by
      rw [← append_assoc, digitsValue_append, ← replicate_one, ← replicate_add, digitsValue_replicate,
        Nat.zero_mul, Nat.zero_add]
    have hne : replicate (exponent.natAbs - 1) '0' ++ ds ≠ [] := append_ne_nil_of_right_ne_nil _ h.ne_nil
    rw [hlayout, if_neg (mt List.isEmpty_iff.mp hne)]
    refine hpoint (isDigit_zeros 1) (cons_ne_nil _ _) (forall_mem_append.mpr ⟨isDigit_zeros _, hdigs⟩) hne ?_ ?_
    · rw [hval, ← hworth, length_append, length_replicate]
      congr 2
      omega
    · rw [hval]
      exact h.pos
  · have hlayout : positional ds exponent = (ds.take (exponent.toNat + 1) ++
        replicate (exponent.toNat + 1 - ds.length) '0', ds.drop (exponent.toNat + 1)) := if_neg hneg
    by_cases hrest : ds.length ≤ exponent.toNat + 1
    · -- all digits are in front of the point, with zeros behind them
      rw [drop_of_length_le hrest, take_of_length_le hrest] at hlayout
      rw [hlayout, if_pos isEmpty_nil]
      have hval : digitsValue (ds ++ replicate (exponent.toNat + 1 - ds.length) '0' ++ ['0']) =
          digitsValue ds * 10 ^ (exponent.toNat + 1 - ds.length + 1) := by
        rw [append_assoc, ← replicate_succ', digitsValue_append, digitsValue_replicate, length_replicate, Nat.add_zero]
      refine hpoint (forall_mem_append.mpr ⟨hdigs, isDigit_zeros _⟩)
        (append_ne_nil_of_left_ne_nil h.ne_nil _) (isDigit_zeros 1) (cons_ne_nil _ _) ?_ ?_
      · rw [hval, ← hworth]
        push_cast
        rw [mul_assoc, ← zpow_natCast, ← zpow_add₀ (by norm_num)]
        congr 2
        rw [length_singleton]
        omega
      · rw [hval]
        exact Nat.mul_pos h.pos (Nat.pow_pos (by norm_num))
    · -- the point is between the digits
      have hzeros : exponent.toNat + 1 - ds.length = 0 := by omega
      rw [hzeros, replicate_zero, append_nil] at hlayout
      have hne : ds.take (exponent.toNat + 1) ≠ [] := by
        rw [ne_eq, take_eq_nil_iff]
        exact not_or.mpr ⟨Nat.succ_ne_zero _, h.ne_nil⟩
      have hplaces : ds.drop (exponent.toNat + 1) ≠ [] := by
        rw [ne_eq, drop_eq_nil_iff]
        exact hrest
      rw [hlayout, if_neg (mt List.isEmpty_iff.mp hplaces)]
      refine hpoint (fun c hc => hdigs c (mem_of_mem_take hc)) hne
        (fun c hc => hdigs c (mem_of_mem_drop hc)) hplaces ?_ ?_
      · rw [take_append_drop, ← hworth, length_drop]
        congr 2
        omega
      · rw [take_append_drop]
        exact h.pos

end Shows

/-! ### Plain texts -/

variable {x y : Float}

theorem isNegative_of_ofFloat (h : Exact.ofFloat x = .finite negative m e) : isNegative x = negative := by
  have hbits : isNegative x = (x.toBits.toNat / 2 ^ 63 == 1) := by
    have hshift : (x.toBits >>> 63).toNat = x.toBits.toNat / 2 ^ 63 := by
      rw [UInt64.toNat_shiftRight, Nat.shiftRight_eq_div_pow]
      rfl
    rw [isNegative, Bool.eq_iff_iff, beq_iff_eq, beq_iff_eq, ← hshift, ← UInt64.toNat_inj]
    rfl
  rw [hbits]
  simp only [Exact.ofFloat] at h
  split at h
  · split at h <;> cases h
  · split at h <;> exact (Exact.finite.inj h).1

theorem readFloat?_of_isDecimal {cs : List Char} {t : ℚ} (h : IsDecimal cs t)
    (hparts : parts x = composed (signOf negative) m e) (hfits : Fits m e) (he : e ≤ 971) (hm : 0 < m)
    (hreads : ReadsAs m e t) : readFloat? (String.ofList (signChars negative ++ cs)) = some x := by
  obtain ⟨c, rest, rfl, hc⟩ := h.head
  obtain ⟨d, q, hd, hval, hscan⟩ := h.scan
  rw [← hval] at hreads
  rw [readFloat?, String.toList_ofList,
    parse?_of_isDigit hc (fun a ha => h.isSpace a (mem_cons_of_mem _ ha)) negative, hscan, Option.map_some]
  exact congrArg some (eq_of_parts_eq ((Numeral.parts_toFloat hd hfits he hm hreads negative).trans hparts.symm))

theorem plain_of_ofFloat (h : Exact.ofFloat x = .finite negative m e) (hm : 0 < m) (hfits : Fits m e) (he : e ≤ 971) :
    ∃ cs t, plain x = String.ofList (signChars negative ++ cs) ∧ IsDecimal cs t ∧ ReadsAs m e t := by
  have hshortest := shortest_spec hfits hm he
  have hshows := hshortest.shows
  have hsign : sign x = String.ofList (signChars negative) := by
    rw [sign, isNegative_of_ofFloat h]
    cases negative <;> rfl
  have hspecial : special x = none := by rw [special, h]
  unfold plain
  rw [hspecial, h, Option.getD_none]
  dsimp only
  rw [if_neg (by simpa using hm.ne'), hsign]
  split
  · exact ⟨_, _, by simp only [String.ofList_append, String.ofList_toList, String.append_assoc],
      hshows.isDecimal_scientific, hshortest.readsAs⟩
  · exact ⟨_, _, by simp only [String.ofList_append, String.ofList_toList, String.append_assoc],
      hshows.isDecimal_positional, hshortest.readsAs⟩

/-- A text without white space that is read as a number. -/
structure Tells (s : String) (x : Float) : Prop where
  read : readFloat? s = some x
  isSpace : ∀ c ∈ s.toList, isSpace c = false

theorem tells_of_parse? {s : String} {n : Numeral} (h : Numeral.parse? s.toList = some n)
    (hspace : s.toList.any isSpace = false) (hparts : parts n.toFloat = parts x) : Tells s x :=
  ⟨by rw [readFloat?, h, Option.map_some, eq_of_parts_eq hparts], by simpa using hspace⟩

/-- Every number is read back from its plain text. -/
theorem tells_plain (x : Float) : Tells (plain x) x := by
  by_cases hx : x.isFinite
  · obtain ⟨negative, m, e, hparts, hexact, hfits, he⟩ := exists_parts hx
    rcases Nat.eq_zero_or_pos m with rfl | hm
    · have hplain : plain x = if negative then "-0.0" else "0.0" := by
        rw [plain, special, hexact, sign, isNegative_of_ofFloat hexact]
        cases negative <;> rfl
      have hzero : parts (Numeral.decimal negative 0 (-1)).toFloat = parts x := by
        rw [hparts, Numeral.toFloat]
        cases negative <;> rfl
      rw [hplain]
      cases negative
      · exact tells_of_parse? (n := .decimal false 0 (-1)) (by decide +kernel) (by decide +kernel) hzero
      · exact tells_of_parse? (n := .decimal true 0 (-1)) (by decide +kernel) (by decide +kernel) hzero
    · obtain ⟨cs, t, hplain, hdecimal, hreads⟩ := plain_of_ofFloat hexact hm hfits he
      rw [hplain]
      refine ⟨readFloat?_of_isDecimal hdecimal hparts hfits he hm hreads, ?_⟩
      rw [String.toList_ofList, forall_mem_append]
      exact ⟨by cases negative <;> simp [signChars, isSpace, isBlank], hdecimal.isSpace⟩
  · rcases ofFloat_of_not_isFinite hx with ⟨hparts, hexact⟩ | ⟨negative, hparts, hexact⟩
    · have hplain : plain x = "nan" := by rw [plain, special, hexact]; rfl
      rw [hplain]
      exact tells_of_parse? (n := .nan) (by decide +kernel) (by decide +kernel) hparts.symm
    · have hplain : plain x = if negative then "-inf" else "inf" := by rw [plain, special, hexact]; rfl
      rw [hplain]
      cases negative
      · exact tells_of_parse? (n := .infinite false) (by decide +kernel) (by decide +kernel) hparts.symm
      · exact tells_of_parse? (n := .infinite true) (by decide +kernel) (by decide +kernel) hparts.symm

end LabBench.Number
