import LabBench.Number.Numeral
import LabBench.Proofs.Text.Parts
/-!
# Numerals

Digits are read from the left to the right, up to the first character that is none. A sign or a digit with
digits behind it is a whole number, and with a fraction or an exponent it is a decimal one; only a sign alone
is no number.
-/

namespace LabBench.Number

open Text List String

/-! ### Digits -/

theorem scanSign_of_isDigit {c : Char} (h : c.isDigit = true) (cs : List Char) :
    scanSign (c :: cs) = (false, c :: cs) := by
  unfold scanSign
  split
  · rename_i heq
    cases heq
    exact absurd h (by decide)
  · rename_i heq
    cases heq
    exact absurd h (by decide)
  · rfl

variable {ds : List Char}

theorem scanDigits_append (h : ∀ c ∈ ds, c.isDigit = true) (n count : Nat)
    (rest : List Char) : scanDigits (n, count) (ds ++ rest) =
      scanDigits (Nat.ofDigitChars 10 ds n, count + ds.length) rest := by
  induction ds generalizing n count with
  | nil => rfl
  | cons c ds ih =>
    rw [forall_mem_cons] at h
    simp only [cons_append, scanDigits, digitValue?_of_isDigit h.1]
    rw [ih h.2, Nat.ofDigitChars_cons, Nat.mul_comm, length_cons, Nat.add_right_comm, Nat.add_assoc]
    rfl

theorem scanDigits_of_isDigit (h : ∀ c ∈ ds, c.isDigit = true) (n count : Nat) :
    scanDigits (n, count) ds = ((Nat.ofDigitChars 10 ds n, count + ds.length), []) := by
  have happ := scanDigits_append h n count []
  rwa [append_nil] at happ

theorem readInt?_of_isDigit (h : ∀ c ∈ ds, c.isDigit = true) (hne : ds ≠ []) :
    readInt? (ofList ds) = some (Nat.ofDigitChars 10 ds 0 : Int) := by
  rw [readInt?, toList_ofList, trim_of_forall fun c hc => isSpace_of_isDigit (h c hc)]
  cases ds with
  | nil => exact absurd rfl hne
  | cons c ds =>
    rw [scanSign_of_isDigit (h c mem_cons_self)]
    simp only [scanDigits_of_isDigit h]
    simp

theorem readInt?_toDigits (n : Nat) : readInt? (ofList (Nat.toDigits 10 n)) = some (n : Int) := by
  rw [readInt?_of_isDigit (fun _ hc => Nat.isDigit_of_mem_toDigits (by decide) (by decide) hc) Nat.toDigits_ne_nil,
    Nat.ofDigitChars_ten_toDigits]

/-! ### Signs -/

structure IsWhole (first : Char) (digits : List Char) : Prop where
  first : first = '+' ∨ first = '-' ∨ first.isDigit = true
  digits : ∀ c ∈ digits, c.isDigit = true

variable {first : Char} {digits : List Char} {tail : List Char}

theorem IsWhole.isSpace_eq_false (h : IsWhole first digits) : ∀ c ∈ first :: digits, isSpace c = false := by
  refine forall_mem_cons.mpr ⟨?_, fun c hc => isSpace_of_isDigit (h.digits c hc)⟩
  rcases h.first with rfl | rfl | hdig
  · decide
  · decide
  · exact isSpace_of_isDigit hdig

theorem IsWhole.exists_scanSign (h : IsWhole first digits) (hlone : digits = [] → first.isDigit = true) :
    ∃ negative d ds, (∀ rest, scanSign (first :: digits ++ rest) = (negative, d :: ds ++ rest)) ∧
      ∀ c ∈ d :: ds, c.isDigit = true := by
  by_cases hdig : first.isDigit = true
  · exact ⟨false, first, digits, fun rest => scanSign_of_isDigit hdig (digits ++ rest),
      forall_mem_cons.mpr ⟨hdig, h.digits⟩⟩
  · cases digits with
    | nil => exact absurd (hlone rfl) hdig
    | cons d ds =>
      rcases h.first with rfl | rfl | hfst
      · exact ⟨false, d, ds, fun rest => rfl, h.digits⟩
      · exact ⟨true, d, ds, fun rest => rfl, h.digits⟩
      · exact absurd hfst hdig

theorem exists_readInt? (h : IsWhole first digits) (hlone : digits = [] → first.isDigit = true) :
    ∃ n, readInt? (ofList (first :: digits)) = some n := by
  obtain ⟨negative, d, ds, hsign, hdigs⟩ := h.exists_scanSign hlone
  have hbody := hsign []
  simp only [append_nil] at hbody
  rw [readInt?, toList_ofList, trim_of_forall h.isSpace_eq_false, hbody]
  simp only [scanDigits_of_isDigit hdigs]
  exact ⟨_, if_neg (by simp)⟩

/-! ### Decimal numbers -/

abbrev digitsValue (ds : List Char) : Nat :=
  Nat.ofDigitChars 10 ds 0

theorem scanDigits_of_head {c : Char} (hc : digitValue? c = none) (hne : c ≠ '_') (seen : Nat × Nat)
    (rest : List Char) : scanDigits seen (c :: rest) = (seen, c :: rest) := by
  simp [scanDigits, hc, hne]

/-- What follows the digits of a decimal: an exponent, or nothing. -/
structure IsExponent (tail : List Char) (e : Int) : Prop where
  scan : scanExponent? tail = some e
  head : tail = [] ∨ ∃ rest, tail = 'e' :: rest
  isSpace : ∀ c ∈ tail, isSpace c = false

theorem isExponent_of_scanSign {cs : List Char} {negative : Bool} (hsign : scanSign cs = (negative, ds))
    (hds : ∀ c ∈ ds, c.isDigit = true) (hne : ds ≠ []) (hspace : ∀ c ∈ cs, isSpace c = false) :
    IsExponent ('e' :: cs) (if negative then -(digitsValue ds : Int) else digitsValue ds) := by
  refine ⟨?_, .inr ⟨cs, rfl⟩, forall_mem_cons.mpr ⟨by decide, hspace⟩⟩
  rw [scanExponent?, if_pos (by decide), hsign]
  simp only [scanDigits_of_isDigit hds]
  exact if_neg (by simpa using hne)

namespace IsExponent

variable {e : Int}

theorem nil : IsExponent [] 0 :=
  ⟨rfl, .inl rfl, by simp⟩

theorem scanDigits_eq (h : IsExponent tail e) (seen : Nat × Nat) : scanDigits seen tail = (seen, tail) := by
  rcases h.head with rfl | ⟨rest, rfl⟩
  · rfl
  · exact scanDigits_of_head (by decide) (by decide) seen rest

theorem scanDecimal?_whole (h : IsExponent tail e) (hds : ∀ c ∈ ds, c.isDigit = true) (hne : ds ≠ [])
    (negative : Bool) : scanDecimal? negative (ds ++ tail) = some (.decimal negative (digitsValue ds) e) := by
  have hlen : ¬((0 + ds.length == 0) = true) := by simpa using hne
  rw [scanDecimal?, scanDigits_append hds, h.scanDigits_eq]
  rcases h.head with rfl | ⟨rest, rfl⟩
  · simp only [if_neg hlen, h.scan, Option.map_some]
  · simp only [if_neg hlen, h.scan, Option.map_some]
    rfl

theorem scanDecimal?_point {es : List Char} (h : IsExponent tail e) (hds : ∀ c ∈ ds, c.isDigit = true) (hne : ds ≠ [])
    (hes : ∀ c ∈ es, c.isDigit = true) (negative : Bool) : scanDecimal? negative (ds ++ '.' :: es ++ tail) =
      some (.decimal negative (digitsValue ds * Nat.pow 10 es.length + digitsValue es) (e - es.length)) := by
  have hlen : ¬((ds.length + es.length == 0) = true) := by
    have := length_pos_iff.mpr hne
    simp only [beq_iff_eq]
    omega
  rw [scanDecimal?, List.append_assoc, scanDigits_append hds, cons_append, scanDigits_of_head (by decide) (by decide)]
  simp only [scanDigits_append hes, h.scanDigits_eq, Nat.zero_add, if_neg hlen, h.scan, Option.map_some]

end IsExponent

theorem isExponent_toString (n : Int) : ∃ e, IsExponent ('e' :: (toString n).toList) e := by
  have hdigs (m : Nat) : ∀ c ∈ Nat.toDigits 10 m, c.isDigit = true :=
    fun _ hc => Nat.isDigit_of_mem_toDigits (by decide) (by decide) hc
  cases n with
  | ofNat m =>
    have htext : (toString (Int.ofNat m)).toList = Nat.toDigits 10 m := toList_ofList
    obtain ⟨d, ds, hm⟩ := exists_cons_of_ne_nil (Nat.toDigits_ne_nil (b := 10) (n := m))
    have hall := hdigs m
    rw [hm] at htext hall
    rw [htext]
    exact ⟨_, isExponent_of_scanSign (scanSign_of_isDigit (hall d mem_cons_self) ds) hall (cons_ne_nil d ds)
      fun c hc => isSpace_of_isDigit (hall c hc)⟩
  | negSucc m =>
    have htext : (toString (Int.negSucc m)).toList = '-' :: Nat.toDigits 10 (m + 1) := by
      change ("-" ++ ofList (Nat.toDigits 10 (m + 1))).toList = _
      simp
    rw [htext]
    exact ⟨_, isExponent_of_scanSign rfl (hdigs _) Nat.toDigits_ne_nil
      (forall_mem_cons.mpr ⟨by decide, fun c hc => isSpace_of_isDigit (hdigs _ c hc)⟩)⟩

/-- What may follow the whole part of a decimal number: a fraction, an exponent, or both. -/
structure IsTail (tail : List Char) : Prop where
  parts : ∃ fraction exponent, tail = fraction ++ exponent ∧
    (fraction = [] ∨ ∃ ds, fraction = '.' :: ds ∧ ∀ c ∈ ds, c.isDigit = true) ∧ ∃ e, IsExponent exponent e

/-- A whole number with a fraction or an exponent has a value, unless the whole part is a sign alone. -/
theorem exists_readFloat? (h : IsWhole first digits)
    (hlone : digits = [] → first.isDigit = true) (htail : IsTail tail) :
    ∃ x, readFloat? (ofList (first :: digits ++ tail)) = some x := by
  obtain ⟨negative, d, ds, hsign, hdigs⟩ := h.exists_scanSign hlone
  obtain ⟨fraction, exponent, rfl, hfrac, e, hexp⟩ := htail.parts
  have hscan : (∃ n, scanDecimal? negative (d :: ds ++ (fraction ++ exponent)) = some n) ∧
      ∀ c ∈ fraction, isSpace c = false := by
    rcases hfrac with rfl | ⟨places, rfl, hplaces⟩
    · exact ⟨⟨_, hexp.scanDecimal?_whole hdigs (cons_ne_nil d ds) negative⟩, fun c hc => nomatch hc⟩
    · rw [← List.append_assoc]
      exact ⟨⟨_, hexp.scanDecimal?_point hdigs (cons_ne_nil d ds) hplaces negative⟩,
        forall_mem_cons.mpr ⟨by decide, fun c hc => isSpace_of_isDigit (hplaces c hc)⟩⟩
  obtain ⟨⟨n, hn⟩, hspace⟩ := hscan
  have hall := forall_mem_append.mpr ⟨h.isSpace_eq_false, forall_mem_append.mpr ⟨hspace, hexp.isSpace⟩⟩
  rw [readFloat?, toList_ofList, Numeral.parse?, trim_of_forall hall, hsign]
  dsimp only
  rw [hn]
  split
  · exact ⟨_, rfl⟩
  · split
    · exact ⟨_, rfl⟩
    · exact ⟨_, rfl⟩

end LabBench.Number
