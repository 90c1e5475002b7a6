import LabBench.Proofs.Frame
import LabBench.Proofs.Number.Numerals
import LabBench.Pulse.Reader
import Mathlib.Data.List.TakeWhile
/-!
# Tokens of pulse programs

A cursor only moves on in its text, and all tokens end on their line. Where a token is no match, the text fits
up to a cursor on the same line. A token that matches may still have no value: a sign alone, a whole number that
is too large, or a unit with too high a power. These are the only faults.
-/

namespace LabBench

open List

/-! ### Cursors -/

namespace Text.Cursor

/-- The number of characters of the whole text. -/
def total (c : Cursor) : Nat :=
  c.offset + c.rest.length

/-- From a cursor to one further on in the same text, over allowed characters only. -/
def Passes (allowed : Char → Prop) (c d : Cursor) : Prop :=
  ∃ token, c.rest = token ++ d.rest ∧ d.offset = c.offset + token.length ∧ ∀ x ∈ token, allowed x

/-- From a cursor to one further on in the same text that does not stand at the start of a line. -/
def Behind (c d : Cursor) : Prop :=
  ∃ e x, c.Passes (fun _ => True) e ∧ e.rest = x :: d.rest ∧ d.offset = e.offset + 1 ∧ x ≠ '\n'

variable {allowed allowed' : Char → Prop} {c d e : Cursor}

theorem Passes.refl (c : Cursor) : c.Passes allowed c :=
  ⟨[], rfl, rfl, fun _ h => nomatch h⟩

section

variable (h : c.Passes allowed d)

include h

theorem Passes.trans (h' : d.Passes allowed e) : c.Passes allowed e := by
  obtain ⟨token, hrest, hoff, hall⟩ := h
  obtain ⟨token', hrest', hoff', hall'⟩ := h'
  refine ⟨token ++ token', ?_, ?_, forall_mem_append.mpr ⟨hall, hall'⟩⟩
  · rw [hrest, hrest', append_assoc]
  · rw [hoff', hoff, length_append, Nat.add_assoc]

theorem Passes.mono (hall : ∀ x, allowed x → allowed' x) : c.Passes allowed' d := by
  obtain ⟨token, hrest, hoff, htok⟩ := h
  exact ⟨token, hrest, hoff, fun x hx => hall x (htok x hx)⟩

theorem Passes.total_eq : d.total = c.total := by
  obtain ⟨token, hrest, hoff, -⟩ := h
  rw [total, total, hrest, hoff, length_append, Nat.add_assoc]

theorem Passes.suffix : d.rest <:+ c.rest := by
  obtain ⟨token, hrest, -, -⟩ := h
  exact ⟨token, hrest.symm⟩

theorem Passes.offset_le : d.offset ≤ c.total := by
  rw [← h.total_eq, total]
  exact Nat.le_add_right _ _

end

theorem passes_advance {token rest : List Char} (h : c.rest = token ++ rest) (hall : ∀ x ∈ token, allowed x) :
    c.Passes allowed (c.advance token.length) := by
  refine ⟨token, ?_, rfl, hall⟩
  rw [advance, h, drop_left]

theorem passes_span {p : Char → Bool} (h : ∀ x, p x = true → allowed x) (c : Cursor) : c.Passes allowed (c.span p).2 :=
  passes_advance takeWhile_append_dropWhile.symm fun x hx => h x (mem_takeWhile_imp hx)

theorem Behind.passes (h : c.Behind d) : c.Passes (fun _ => True) d := by
  obtain ⟨e, x, hpass, hrest, hoff, -⟩ := h
  exact hpass.trans ⟨[x], hrest, hoff, fun _ _ => trivial⟩

theorem Behind.length_lt (h : c.Behind d) : d.rest.length < c.rest.length := by
  obtain ⟨e, x, hpass, hrest, -, -⟩ := h
  have hle := hpass.suffix.length_le
  rw [hrest, length_cons] at hle
  exact hle

theorem Behind.after (h : c.Passes allowed d) (h' : d.Behind e) : c.Behind e := by
  obtain ⟨f, x, hpass, hx⟩ := h'
  exact ⟨f, x, (h.mono fun _ _ => trivial).trans hpass, hx⟩

/-- On the same line, a cursor never gets to its start again. -/
theorem Behind.onLine (h : c.Behind d) (h' : d.Passes (· ≠ '\n') e) : c.Behind e := by
  obtain ⟨token, hrest, hoff, hall⟩ := h'
  rcases eq_nil_or_concat token with rfl | ⟨token, x, rfl⟩
  · have hde : e = d := by
      cases d
      cases e
      simp_all
    rw [hde]
    exact h
  · refine ⟨⟨d.offset + token.length, x :: e.rest⟩, x, ?_, rfl, ?_, hall x (by simp)⟩
    · refine h.passes.trans ⟨token, ?_, rfl, fun _ _ => trivial⟩
      rw [hrest, concat_eq_append, append_assoc]
      rfl
    · rw [hoff]
      simp [Nat.add_assoc]

end Text.Cursor

namespace Pulse

open Number Text Cursor

/-! ### Faults of tokens -/

/-- A sign that no digit follows. -/
def LoneSign (cs : List Char) : Prop :=
  ∃ sign rest, sign :: rest <:+ cs ∧ (sign = '+' ∨ sign = '-') ∧ ∀ c, rest.head? = some c → c.isDigit = false

/-- A token in a text that has no value, and the fault that it is. -/
inductive Unreadable (cs : List Char) : Fault → Prop
  | sign (h : LoneSign cs) : Unreadable cs (.plain .badValue)
  | number {token : List Char} {n : Int} (htoken : token <:+: cs)
      (hn : readInt? (String.ofList token) = some n) (hlarge : ofInt? n = none) :
      Unreadable cs (.plain .overflow)
  | decade {unit : List Char} {terms : List (Unit.Term Float)} (hunit : unit <:+: cs)
      (hterms : Unit.parse (String.ofList unit) = .ok terms) (hlarge : 308 < Unit.decade terms) :
      Unreadable cs (.plain .overflow)
  | exponent {unit : List Char} {terms : List (Unit.Term Float)} (hunit : unit <:+: cs)
      (hterms : Unit.parse (String.ofList unit) = .ok terms)
      (hlarge : ∃ t ∈ terms, t.power.isFinite = false) : Unreadable cs (.plain .lookup)

theorem LoneSign.mono {cs cs' : List Char} (h : LoneSign cs) (hcs : cs <:+ cs') : LoneSign cs' := by
  obtain ⟨sign, rest, hsuf, hsign⟩ := h
  exact ⟨sign, rest, hsuf.trans hcs, hsign⟩

variable {f : Fault} {allowed : Char → Prop}

theorem Unreadable.mono {cs cs' : List Char} (h : Unreadable cs f) (hcs : cs <:+ cs') : Unreadable cs' f := by
  cases h with
  | sign h => exact .sign (h.mono hcs)
  | number htok hn hlarge => exact .number (htok.trans hcs.isInfix) hn hlarge
  | decade hunit hterms hlarge => exact .decade (hunit.trans hcs.isInfix) hterms hlarge
  | exponent hunit hterms hlarge => exact .exponent (hunit.trans hcs.isInfix) hterms hlarge

/-! ### Steps -/

theorem Step.map_eq_ok {α β : Type} {s : Step α} {f : α → β} {b : β} {next : Cursor} :
    s.map f = .ok b next ↔ ∃ a, s = .ok a next ∧ f a = b := by
  cases s <;> simp [Step.map, Step.bind, and_comm]

theorem Step.map_ne_miss {α β : Type} {s : Step α} {f : α → β} (h : ∀ p, s ≠ .miss p) (p : Nat) :
    s.map f ≠ .miss p := by
  cases s with
  | miss q => exact absurd rfl (h q)
  | _ => rintro ⟨⟩

/-- A step that keeps to the text from a cursor on: it passes over allowed characters only, nothing is
expected at the start of a line, and its faults are those of tokens in the text. -/
inductive Step.From {α : Type} (c : Cursor) (allowed : Char → Prop) (P : α → Cursor → Prop) : Step α → Prop
  | ok {a : α} {next : Cursor} (hnext : c.Passes allowed next) (ha : P a next) : From c allowed P (.ok a next)
  | miss {p : Nat} (d : Cursor) (hd : c.Passes allowed d) (hp : d.offset = p) : From c allowed P (.miss p)
  | expected {what : String} {p : Nat} (d : Cursor) (hd : c.Behind d) (hp : d.offset = p) :
      From c allowed P (.expected what p)
  | fault {f : Fault} (hf : Unreadable c.rest f) : From c allowed P (.fault f)

/-- A step that stays on its line. -/
abbrev Step.OnLine {α : Type} (c : Cursor) (P : α → Cursor → Prop) (s : Step α) : Prop :=
  s.From c (· ≠ '\n') P

namespace Step.From

variable {α β : Type} {c d : Cursor} {allowed allowed' : Char → Prop} {P Q : α → Cursor → Prop}
  {R : β → Cursor → Prop} {s : Step α}

theorem after (hd : c.Passes allowed d) (h : s.From d allowed P) : s.From c allowed P := by
  cases h with
  | ok hnext ha => exact .ok (hd.trans hnext) ha
  | miss e he hp => exact .miss e (hd.trans he) hp
  | expected e he hp => exact .expected e (.after hd he) hp
  | fault hf => exact .fault (hf.mono hd.suffix)

section

variable (h : s.From c allowed P)

include h

theorem adapt (hall : ∀ x, allowed x → allowed' x)
    (hPQ : ∀ a next, c.Passes allowed next → P a next → Q a next) : s.From c allowed' Q := by
  cases h with
  | ok hnext ha => exact .ok (hnext.mono hall) (hPQ _ _ hnext ha)
  | miss e he hp => exact .miss e (he.mono hall) hp
  | expected e he hp => exact .expected e he hp
  | fault hf => exact .fault hf

theorem imp (hPQ : ∀ a next, c.Passes allowed next → P a next → Q a next) : s.From c allowed Q :=
  h.adapt (fun _ => id) hPQ

theorem of_ok {a : α} {next : Cursor} (hs : s = .ok a next) : c.Passes allowed next ∧ P a next := by
  subst hs
  cases h with
  | ok hnext ha => exact ⟨hnext, ha⟩

theorem of_expected {what : String} {p : Nat} (hs : s = .expected what p) : ∃ d, c.Behind d ∧ d.offset = p := by
  subst hs
  cases h with
  | expected d hd hp => exact ⟨d, hd, hp⟩

theorem of_fault {f : Fault} (hs : s = .fault f) : Unreadable c.rest f := by
  subst hs
  cases h with
  | fault hf => exact hf

theorem mono (hall : ∀ x, allowed x → allowed' x) : s.From c allowed' P :=
  h.adapt hall fun _ _ _ => id

theorem bind {f : α → Cursor → Step β} (hf : ∀ a next, c.Passes allowed next → P a next → (f a next).From c allowed R) :
    (s.bind f).From c allowed R := by
  cases h with
  | ok hnext ha => exact hf _ _ hnext ha
  | miss e he hp => exact .miss e he hp
  | expected e he hp => exact .expected e he hp
  | fault hf => exact .fault hf

theorem map {f : α → β} (hf : ∀ a next, c.Passes allowed next → P a next → R (f a) next) : (s.map f).From c allowed R :=
  h.bind fun a next hnext ha => .ok hnext (hf a next hnext ha)

theorem orElse {t : Unit → Step α} (ht : (t ()).From c allowed P) : (s.orElse t).From c allowed P := by
  cases h with
  | ok hnext ha => exact .ok hnext ha
  | expected e he hp => exact .expected e he hp
  | fault hf => exact .fault hf
  | @miss p e he hp =>
    unfold Step.orElse
    dsimp only
    split
    · rename_i q heq
      rw [heq] at ht
      cases ht with
      | miss e' he' hp' =>
        rcases Nat.le_total p q with hpq | hpq
        · exact .miss e' he' (by rw [hp', Nat.max_eq_right hpq])
        · exact .miss e he (by rw [hp, Nat.max_eq_left hpq])
    · exact ht

end

theorem must {what : String} (h : s.From d (· ≠ '\n') P) (hd : c.Behind d)
    (hpass : c.Passes allowed d) (hall : ∀ x, x ≠ '\n' → allowed x) : (s.must what).From c allowed P := by
  cases h with
  | ok hnext ha => exact .ok (hpass.trans (hnext.mono hall)) ha
  | miss e he hp => exact .expected e (hd.onLine he) hp
  | expected e he hp => exact .expected e (.after hpass he) hp
  | fault hf => exact .fault (hf.mono hpass.suffix)

end Step.From

/-! ### Tokens -/

theorem passes_skip (c : Cursor) : c.Passes (· ≠ '\n') (skip c) := by
  have hgap : ∀ x, isGap x = true → x ≠ '\n' := by
    rintro x hx rfl
    cases hx
  have hcomment : ∀ x, (x != '\n') = true → x ≠ '\n' := fun x hx => bne_iff_ne.mp hx
  unfold skip
  dsimp only
  split
  · exact (passes_span hgap c).trans (passes_span hcomment _)
  · exact passes_span hgap c

theorem passes_advance_one {c : Cursor} {x : Char} (h : c.rest.head? = some x)
    (hx : allowed x) : c.Passes allowed (c.advance 1) := by
  obtain ⟨rest, hrest⟩ := head?_eq_some_iff.mp h
  have hspl : c.rest = [x] ++ rest := hrest
  exact passes_advance hspl (forall_mem_singleton.mpr hx)

theorem from_adjacent {s : Char} (hs : s ≠ '\n') (c : Cursor) :
    (adjacent s c).OnLine c fun _ next => c.rest = s :: next.rest ∧ next.offset = c.offset + 1 := by
  unfold adjacent
  split
  · rename_i hhead
    obtain ⟨rest, hrest⟩ := head?_eq_some_iff.mp (eq_of_beq hhead)
    refine .ok (passes_advance_one (eq_of_beq hhead) hs) ⟨?_, rfl⟩
    rw [advance, hrest]
    rfl
  · exact .miss c (.refl c) rfl

theorem from_symbol {s : Char} (hs : s ≠ '\n') (c : Cursor) : (symbol s c).OnLine c fun _ next => c.Behind next :=
  ((from_adjacent hs (skip c)).after (passes_skip c)).imp fun _ _ _ h =>
    .after (passes_skip c) ⟨skip c, s, .refl _, h.1, h.2, hs⟩

/-- A token that starts with a character of a class. -/
def headed (p : Char → Bool) (more : List Char → List Char) (c : Cursor) : Step (List Char) :=
  match c.rest with
  | first :: rest =>
    if p first then .ok (first :: more rest) (c.advance (first :: more rest).length) else .miss c.offset
  | [] => .miss c.offset

theorem from_headed {p : Char → Bool} {more : List Char → List Char} (hp : p '\n' = false)
    (hmore : ∀ rest, more rest <+: rest ∧ '\n' ∉ more rest) (c : Cursor) :
    (headed p more c).OnLine c fun token next => c.rest = token ++ next.rest ∧
      ∃ first rest, c.rest = first :: rest ∧ p first = true ∧ token = first :: more rest := by
  unfold headed
  split
  · rename_i first rest hrest
    split
    · rename_i hfst
      obtain ⟨after, hafter⟩ := (hmore rest).1
      have hspl : c.rest = (first :: more rest) ++ after := by rw [hrest, cons_append, hafter]
      refine .ok (passes_advance hspl (forall_mem_cons.mpr ⟨?_, fun x hx => ?_⟩)) ⟨?_, first, rest, hrest, hfst, rfl⟩
      · rintro rfl
        cases hp.symm.trans hfst
      · rintro rfl
        exact (hmore rest).2 hx
      · rw [advance, hspl, drop_left]
    · exact .miss c (.refl c) rfl
  · exact .miss c (.refl c) rfl

theorem identifier_eq (c : Cursor) :
    identifier c = (headed isNameStart (·.takeWhile isNameChar) (skip c)).map String.ofList := by
  unfold identifier headed
  dsimp only
  cases (skip c).rest with
  | nil => rfl
  | cons x rest =>
    dsimp only
    split <;> rfl

theorem from_identifier (c : Cursor) : (identifier c).OnLine c fun _ _ => True := by
  rw [identifier_eq]
  refine ((from_headed rfl (fun rest => ⟨ takeWhile_prefix _, fun hx => ?_⟩) (skip c)).after (passes_skip c)).map
    fun _ _ _ _ => trivial
  cases mem_takeWhile_imp hx

theorem from_keyword {word : String} (hword : '\n' ∉ word.toList) (c : Cursor) :
    (keyword word c).OnLine c fun _ _ => True := by
  unfold keyword
  dsimp only
  split
  · rename_i hpre
    obtain ⟨rest, hrest⟩ := isPrefixOf_iff_prefix.mp hpre
    have hafter : c.Passes (· ≠ '\n') ((skip c).advance word.length) := by
      refine (passes_skip c).trans ?_
      rw [← String.length_toList]
      exact passes_advance hrest.symm fun x hx => fun hx' => hword (hx' ▸ hx)
    split
    · split
      · exact .miss _ (passes_skip c) rfl
      · exact .ok hafter trivial
    · exact .ok hafter trivial
  · exact .miss _ (passes_skip c) rfl

/-! ### Numbers -/

/-- A sign or a digit with digits behind it, as it stands in a text. If it is a sign alone, then there is a
sign alone in the text. -/
structure IsToken (cs token : List Char) : Prop where
  infix_ : token <:+: cs
  whole : ∃ first digits, token = first :: digits ∧ IsWhole first digits ∧
    ((digits = [] → first.isDigit = true) ∨ LoneSign cs)

theorem IsToken.mono {cs cs' token : List Char} (h : IsToken cs token) (hcs : cs <:+ cs') : IsToken cs' token := by
  obtain ⟨first, digits, htok, hwhole, hlone⟩ := h.whole
  exact ⟨h.infix_.trans hcs.isInfix, first, digits, htok, hwhole, hlone.imp_right (·.mono hcs)⟩

theorem wholeToken_eq (c : Cursor) :
    wholeToken c = headed (fun x => x == '+' || x == '-' || x.isDigit) (·.takeWhile Char.isDigit) c := by
  unfold wholeToken headed
  cases c.rest <;> rfl

theorem from_wholeToken (c : Cursor) : (wholeToken c).OnLine c fun token _ => IsToken c.rest token := by
  rw [wholeToken_eq]
  refine (from_headed rfl (fun rest => ⟨ takeWhile_prefix _, fun hx => ?_⟩) c).imp ?_
  · cases mem_takeWhile_imp hx
  rintro _ next - ⟨hspl, first, rest, hrest, hfst, rfl⟩
  have hwhole : IsWhole first (rest.takeWhile Char.isDigit) :=
    ⟨by simpa [or_assoc] using hfst, fun x hx => mem_takeWhile_imp hx⟩
  refine ⟨⟨[], _, hspl.symm⟩, _, _, rfl, hwhole, ?_⟩
  by_cases hdig : first.isDigit = true
  · exact .inl fun _ => hdig
  -- a sign without digits behind it is alone
  by_cases hnone : rest.takeWhile Char.isDigit = []
  · refine .inr ⟨first, rest, hrest ▸ suffix_refl _, ?_, fun x hx => ?_⟩
    · rcases hwhole.first with h | h | h
      · exact .inl h
      · exact .inr h
      · exact absurd h hdig
    · obtain ⟨rest', rfl⟩ := head?_eq_some_iff.mp hx
      rw [takeWhile_cons] at hnone
      split at hnone
      · cases hnone
      · rename_i hx'
        simpa using hx'
  · exact .inl fun h => absurd h hnone

theorem from_wholeValue {c d : Cursor} {token : List Char} (htok : IsToken c.rest token) (hd : c.Passes allowed d) :
    (wholeValue token d).From c allowed fun n _ => readInt? (String.ofList token) = some n := by
  unfold wholeValue
  split
  · rename_i n hn
    exact .ok hd hn
  · rename_i hnone
    obtain ⟨first, digits, rfl, hwhole, hlone | hlone⟩ := htok.whole
    · obtain ⟨n, hn⟩ := exists_readInt? hwhole hlone
      rw [hn] at hnone
      cases hnone
    · exact .fault (.sign hlone)

theorem from_exponent (c : Cursor) : (exponent c).OnLine c fun _ _ => True := by
  unfold exponent
  split
  · rename_i e rest hrest
    split
    · rename_i he
      have hone : c.Passes (· ≠ '\n') (c.advance 1) := by
        refine passes_advance_one (by rw [hrest]; rfl) ?_
        rintro rfl
        cases he
      refine ((from_wholeToken (c.advance 1)).after hone).bind fun token next hnext htok => ?_
      exact (from_wholeValue (htok.mono hone.suffix) hnext).imp fun _ _ _ _ => trivial
    · exact .miss c (.refl c) rfl
  · exact .miss c (.refl c) rfl

theorem from_fractionPart (c : Cursor) : (fractionPart c).OnLine c fun part _ =>
    ∃ digits, part = '.' :: digits ∧ ∀ x ∈ digits, x.isDigit = true := by
  unfold fractionPart
  split
  · rename_i rest hrest
    have hdigs : ∀ x ∈ rest.takeWhile Char.isDigit, x.isDigit = true := fun x hx =>
      mem_takeWhile_imp hx
    split
    · exact .miss (c.advance 1) (passes_advance_one (by rw [hrest]; rfl) (by decide)) rfl
    · rename_i hne
      have hspl : c.rest = ('.' :: rest.takeWhile Char.isDigit) ++ rest.dropWhile Char.isDigit := by
        rw [hrest, cons_append, takeWhile_append_dropWhile]
      refine .ok (passes_advance hspl ?_) ⟨_, rfl, hdigs⟩
      refine forall_mem_cons.mpr ⟨by decide, fun x hx => ?_⟩
      rintro rfl
      cases hdigs _ hx
  · exact .miss c (.refl c) rfl

theorem from_decimalPart (c : Cursor) : (decimalPart c).OnLine c fun part _ => IsTail part := by
  have hexp (d : Cursor) : ((exponent d).map fun n => 'e' :: (toString n).toList).OnLine d
      fun part _ => ∃ e, IsExponent part e :=
    (from_exponent d).map fun n _ _ _ => isExponent_toString n
  unfold decimalPart
  dsimp only
  refine .orElse ((from_fractionPart c).bind fun fraction d hd hfrac => ?_) ?_
  · refine .orElse (((hexp d).after hd).map fun e _ _ he => ?_) (.ok hd ?_)
    · exact ⟨fraction, e, rfl, .inr hfrac, he⟩
    · exact ⟨fraction, [], by rw [append_nil], .inr hfrac, 0, .nil⟩
  · exact (hexp c).imp fun e _ _ he => ⟨[], e, rfl, .inl rfl, he⟩

/-- A number: a decimal one, or a whole one that stands in the text. -/
def IsNumber (cs : List Char) (v : Value) : Prop :=
  (∃ x, v = .real x) ∨ ∃ token n, token <:+: cs ∧ readInt? (String.ofList token) = some n ∧ v = .int n

theorem from_number (c : Cursor) : (number c).OnLine c fun v _ => IsNumber c.rest v := by
  unfold number
  dsimp only
  refine ((from_wholeToken (skip c)).after (passes_skip c)).bind fun token afterToken hafter htok => ?_
  have htok := htok.mono (passes_skip c).suffix
  refine .orElse (((from_decimalPart afterToken).after hafter).bind fun part next hnext hpart => ?_) ?_
  · split
    · rename_i x hx
      exact .ok hnext (.inl ⟨x, rfl⟩)
    · rename_i hnone
      obtain ⟨first, digits, rfl, hwhole, hlone | hlone⟩ := htok.whole
      · obtain ⟨x, hx⟩ := exists_readFloat? hwhole hlone hpart
        rw [hx] at hnone
        cases hnone
      · exact .fault (.sign hlone)
  · exact (from_wholeValue htok hafter).map fun n _ _ hn => .inr ⟨token, n, htok.infix_, hn, rfl⟩

/-! ### Lists -/

section Lists

variable {α : Type} {allowed : Char → Prop} {P : α → Prop} {item : Cursor → Step α} {c : Cursor}

theorem from_many_of_cons {P : Cursor → α → Cursor → Prop} {Q : Cursor → List α → Cursor → Prop}
    (hnil : ∀ d, Q d [] d) (hcons : ∀ {d e f a as}, P d a e → Q e as f → Q d (a :: as) f)
    (h : ∀ d, c.Passes allowed d → (item d).From d allowed (P d)) : (many item c).From c allowed (Q c) := by
  fun_induction many item c with
  | case1 c a next hitem hlt ih =>
    obtain ⟨hnext, ha⟩ := (h c (.refl c)).of_ok hitem
    exact ((ih fun d hd => h d (hnext.trans hd)).after hnext).map fun as _ _ has => hcons ha has
  | case2 c a next hitem hlt =>
    obtain ⟨hnext, ha⟩ := (h c (.refl c)).of_ok hitem
    exact .ok hnext (hcons ha (hnil next))
  | case3 c p hitem => exact .ok (.refl c) (hnil c)
  | case4 c what p hitem =>
    obtain ⟨d, hd, hp⟩ := (h c (.refl c)).of_expected hitem
    exact .expected d hd hp
  | case5 c f hitem => exact .fault ((h c (.refl c)).of_fault hitem)

theorem from_many (h : ∀ d, c.Passes allowed d → (item d).From d allowed fun a _ => P a) :
    (many item c).From c allowed fun as _ => ∀ a ∈ as, P a :=
  from_many_of_cons (Q := fun _ as _ => ∀ a ∈ as, P a) (fun _ _ ha => nomatch ha)
    (fun ha has => forall_mem_cons.mpr ⟨ha, has⟩) h

theorem from_separated {separator : Cursor → Step Unit} (hsep : ∀ d, (separator d).From d allowed fun _ _ => True)
    (h : ∀ d, c.Passes allowed d → (item d).From d allowed fun a _ => P a) :
    (separated separator item c).From c allowed fun as _ => ∀ a ∈ as, P a := by
  unfold separated
  refine (h c (.refl c)).bind fun a d hd ha => ?_
  refine ((from_many fun e he => ?_).after hd).map fun as _ _ has => forall_mem_cons.mpr ⟨ha, has⟩
  refine (hsep e).bind fun _ f hf _ => ?_
  exact (h f (hd.trans (he.trans hf))).after hf

end Lists

/-! ### Quantities -/

theorem unitSymbol_eq (c : Cursor) : unitSymbol c = headed (fun x => x.isAlpha && x != 'e' && x != 'E')
      (fun rest => rest.takeWhile Char.isAlpha ++ (rest.dropWhile Char.isAlpha).takeWhile Char.isDigit) c := by
  unfold unitSymbol headed
  cases c.rest with
  | nil => rfl
  | cons x rest => simp [Nat.add_right_comm]

theorem letters_prefix (cs : List Char) :
    cs.takeWhile Char.isAlpha ++ (cs.dropWhile Char.isAlpha).takeWhile Char.isDigit <+: cs :=
  ⟨_, by rw [append_assoc, takeWhile_append_dropWhile, takeWhile_append_dropWhile]⟩

theorem from_unitSymbol (c : Cursor) : (unitSymbol c).OnLine c fun letters next =>
    c.rest = letters ++ next.rest := by
  rw [unitSymbol_eq]
  refine (from_headed rfl (fun rest => ⟨ letters_prefix rest, fun hx => ?_⟩) c).imp fun _ _ _ h => h.1
  rcases mem_append.mp hx with hx | hx <;> cases mem_takeWhile_imp hx

private theorem intercalate_point (first : List Char) (more : List (List Char)) :
    ['.'].intercalate (first :: more) = first ++ more.flatMap ('.' :: ·) := by
  induction more generalizing first with
  | nil => simp [intercalate]
  | cons second more ih =>
    have hsnd := ih second
    simp only [intercalate] at hsnd ⊢
    rw [intersperse_cons_cons, flatten_cons, flatten_cons, hsnd, flatMap_cons]
    rfl

theorem from_units (c : Cursor) : (units c).OnLine c fun u _ => u.toList <:+: c.rest := by
  have hsyms : (separated (adjacent '.') unitSymbol (skip c)).OnLine (skip c)
      fun symbols next => (skip c).rest = ['.'].intercalate symbols ++ next.rest := by
    refine (from_unitSymbol (skip c)).bind fun first d hd hfst => ?_
    have hmore : (many (fun e => (adjacent '.' e).bind fun _ f => unitSymbol f) d).OnLine d
        fun symbols next => d.rest = symbols.flatMap ('.' :: ·) ++ next.rest := by
      refine from_many_of_cons (P := fun e letters next => e.rest = '.' :: letters ++ next.rest)
        (Q := fun e symbols next => e.rest = symbols.flatMap ('.' :: ·) ++ next.rest) (fun _ => rfl) ?_ ?_
      · intro e f g letters more hletters hmore
        rw [hletters, hmore, flatMap_cons, append_assoc]
      · refine fun e _ => (from_adjacent (by decide) e).bind fun _ f hf hdot => ?_
        exact ((from_unitSymbol f).after hf).imp fun _ _ _ hletters => by rw [hdot.1, hletters, cons_append]
    exact (hmore.after hd).map fun more next _ hmore => by rw [hfst, hmore, intercalate_point, append_assoc]
  refine (hsyms.after (passes_skip c)).map fun symbols next _ hrest => ?_
  rw [String.toList_ofList]
  exact IsInfix.trans ⟨[], next.rest, hrest.symm⟩ (passes_skip c).suffix.isInfix

theorem lt_of_tenPow?_eq_none {d : Int} (h : Number.tenPow? d = none) : 308 < d := by
  unfold Number.tenPow? at h
  split at h
  · cases h
  · split at h
    · assumption
    · cases h

theorem checkExponents_eq_error {terms : List (Unit.Term Float)} (h : Quantity.checkExponents terms = .error f) :
    f = .plain .lookup ∧ ∃ t ∈ terms, t.power.isFinite = false := by
  unfold Quantity.checkExponents at h
  split at h
  · cases h
  · rename_i hall
    cases h
    rw [Bool.not_eq_true, all_eq_false] at hall
    obtain ⟨t, ht, hpow⟩ := hall
    exact ⟨rfl, t, ht, Bool.not_eq_true _ ▸ hpow⟩

theorem kind_of_findScale {d : Int} {x y : Float} (h : Quantity.findScale d x y = .error f) : f.kind = .badValue := by
  unfold Quantity.findScale at h
  split at h
  · cases h
  · split at h
    · cases h
    · cases h
      rfl

/-- A unit that is known and gives no quantity has too high a power of ten, or an exponent without a number. -/
theorem exists_terms_of_make {x : Float} {u : String} (h : Quantity.make x u = .error f)
    (hkind : f.kind ≠ .badValue) : ∃ terms, Unit.parse u = .ok terms ∧ (f = .plain .overflow ∧ 308 < Unit.decade terms ∨
        f = .plain .lookup ∧ ∃ t ∈ terms, (t : Unit.Term Float).power.isFinite = false) := by
  unfold Quantity.make at h
  cases hterms : Unit.parse (K := Float) u with
  | error problem =>
    rw [hterms] at h
    cases h
    exact absurd rfl hkind
  | ok terms =>
    rw [hterms] at h
    refine ⟨terms, rfl, ?_⟩
    rcases Outcome.bind_eq_error.mp h with h | ⟨_, hparse, h⟩
    · cases h
    · cases hparse
      dsimp only at h
      split at h
      · rename_i ten hten
        rcases Outcome.bind_eq_error.mp (show (Quantity.checkExponents terms >>= _) = _ from h) with
          hexps | ⟨_, -, h⟩
        · exact .inr (checkExponents_eq_error hexps)
        · rcases Outcome.bind_eq_error.mp h with hscal | ⟨_, -, h⟩
          · exact absurd (kind_of_findScale hscal) hkind
          · cases h
      · rename_i hnone
        cases h
        exact .inl ⟨rfl, lt_of_tenPow?_eq_none hnone⟩

theorem unreadable_of_toQuantity {cs : List Char} {v : Value} {u : String}
    (hv : IsNumber cs v) (hu : u.toList <:+: cs) (h : v.toQuantity (.text u) = .error f)
    (hkind : f.kind ≠ .badValue) : Unreadable cs f := by
  have hmake {x : Float} (h : Quantity.make x u = .error f) : Unreadable cs f := by
    obtain ⟨terms, hterms, ⟨rfl, hlarge⟩ | ⟨rfl, hlarge⟩⟩ := exists_terms_of_make h hkind
    · exact .decade hu (by rwa [String.ofList_toList]) hlarge
    · exact .exponent hu (by rwa [String.ofList_toList]) hlarge
  rcases hv with ⟨x, rfl⟩ | ⟨token, n, htok, hn, rfl⟩
  · exact hmake h
  · rcases Outcome.bind_eq_error.mp (show (Value.floatOfInt n >>= _) = _ from h) with hfloat | ⟨x, -, h⟩
    · unfold Value.floatOfInt at hfloat
      split at hfloat
      · cases hfloat
      · rename_i hlarge
        cases hfloat
        exact .number htok hn hlarge
    · exact hmake h

theorem from_quantity (c : Cursor) : (quantity c).OnLine c fun _ _ => True := by
  unfold quantity
  dsimp only
  refine ((from_number (skip c)).after (passes_skip c)).bind fun v d hd hv => ?_
  refine ((from_units d).after hd).bind fun u next hnext hu => ?_
  split
  · exact .ok hnext trivial
  · rename_i f hf
    split
    · exact .miss _ (passes_skip c) rfl
    · rename_i hkind
      have hv : IsNumber c.rest v := hv.imp_right fun ⟨token, n, htok, hn⟩ =>
        ⟨token, n, htok.trans (passes_skip c).suffix.isInfix, hn⟩
      exact .fault (unreadable_of_toQuantity hv (hu.trans hd.suffix.isInfix) hf (by simpa using hkind))

/-! ### Values -/

theorem quotedBody_cons {quote x : Char} (hx : x ≠ '\\') (rest : List Char) : quotedBody quote (x :: rest) =
      if x == quote then some ([], 0)
      else if x == '\n' || x == '\r' || x == '\\' then none
      else (quotedBody quote rest).map fun (body, n) => (x :: body, n + 1) := by
  rw [quotedBody]
  rintro y more rfl
  exact absurd rfl hx

/-- A quoted text is closed on its line, whatever follows. -/
theorem exists_of_quotedBody {quote : Char} (hquote : quote ≠ '\\') {cs body : List Char} {n : Nat}
    (h : quotedBody quote cs = some (body, n)) :
    ∃ inner rest, cs = inner ++ quote :: rest ∧ inner.length = n ∧ '\n' ∉ inner ∧
      ∀ tail, quotedBody quote (inner ++ quote :: tail) = some (body, n) := by
  fun_induction quotedBody quote cs generalizing body n with
  | case1 c rest hc => cases h
  | case2 c rest hc ih =>
    obtain ⟨⟨body', m⟩, hbody, heq⟩ := Option.map_eq_some_iff.mp h
    cases heq
    obtain ⟨inner, rest', rfl, rfl, hinner, htail⟩ := ih hbody
    have hc' : '\n' ≠ c := fun h => hc (by rw [← h]; rfl)
    refine ⟨'\\' :: '\\' :: c :: inner, rest', rfl, rfl, by simp [hc', hinner], fun tail => ?_⟩
    simp only [cons_append, quotedBody, htail]
    simp [hc]
  | case3 c rest hbackslash hclosing =>
    cases h
    obtain rfl := eq_of_beq hclosing
    refine ⟨[], rest, rfl, rfl, not_mem_nil, fun tail => ?_⟩
    rw [nil_append, quotedBody_cons hquote, if_pos hclosing]
  | case4 c rest hbackslash hclosing hc => cases h
  | case5 c rest hbackslash hclosing hc ih =>
    obtain ⟨⟨body', m⟩, hbody, heq⟩ := Option.map_eq_some_iff.mp h
    cases heq
    obtain ⟨inner, rest', rfl, rfl, hinner, htail⟩ := ih hbody
    have hc' : '\n' ≠ c := fun h => hc (by rw [← h]; rfl)
    refine ⟨c :: inner, rest', rfl, rfl, by simp [hc', hinner], fun tail => ?_⟩
    have hne : c ≠ '\\' := by
      rintro rfl
      exact hc rfl
    rw [cons_append, quotedBody_cons hne, if_neg hclosing, if_neg hc, htail]
    rfl
  | case6 => cases h

theorem from_quotedText {quote : Char} (hquote : quote ≠ '\n' ∧ quote ≠ '\\') (c : Cursor) :
    (quotedText quote c).OnLine c fun _ _ => True := by
  unfold quotedText
  dsimp only
  split
  · rename_i first rest hrest
    split
    · rename_i hfst
      split
      · rename_i body n hbody
        obtain ⟨inner, rest', rfl, rfl, hinner, -⟩ := exists_of_quotedBody hquote.2 hbody
        have hspl : (skip c).rest = (first :: inner ++ [quote]) ++ rest' := by
          rw [hrest]
          simp
        have hpass : (skip c).Passes (· ≠ '\n') _ := passes_advance hspl fun x hx => by
          rintro rfl
          simp only [mem_append, mem_cons, not_mem_nil, or_false] at hx
          rcases hx with (rfl | hx) | rfl
          · exact hquote.1 (eq_of_beq hfst).symm
          · exact hinner hx
          · exact hquote.1 rfl
        have hlen : (first :: inner ++ [quote]).length = inner.length + 2 := by simp
        rw [hlen] at hpass
        exact .ok ((passes_skip c).trans hpass) trivial
      · exact .miss _ (passes_skip c) rfl
    · exact .miss _ (passes_skip c) rfl
  · exact .miss _ (passes_skip c) rfl

theorem from_value (c : Cursor) : (value c).OnLine c fun v _ => v ≠ .none := by
  unfold value
  refine .orElse ((from_quantity c).map fun q _ _ _ => by rintro ⟨⟩) ?_
  refine .orElse ((from_number c).imp ?_) ?_
  · rintro v _ _ (⟨x, rfl⟩ | ⟨token, n, -, -, rfl⟩)
    · rintro ⟨⟩
    · rintro ⟨⟩
  · have hdouble : (quotedText '"' c).OnLine c fun _ _ => True := from_quotedText (by decide) c
    have hquoted := hdouble.orElse (t := fun _ => quotedText apostrophe c) (from_quotedText (by decide) c)
    exact hquoted.map fun s _ _ _ => by rintro ⟨⟩

end Pulse

end LabBench
