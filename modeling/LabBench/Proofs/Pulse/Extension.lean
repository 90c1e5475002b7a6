import LabBench.Proofs.Pulse.Tokens
import Mathlib.Data.List.Forall2
/-!
# Tokens in a longer text

A text may go on after a line feed or a semicolon. No token goes beyond these, apart from quoted texts and comments. So,
if there are no comments, all alternatives that matched still match, and those that did not match still do not. A quoted
text without its closing quote may get one in the longer text; but it only stands where a value is expected, so that it
is an error and not a mismatch.
-/

namespace LabBench

open List

/-! ### Cursors -/

namespace Text

/-- A class of characters none of which ends a statement. -/
def Inside (p : Char → Bool) : Prop :=
  p '\n' = false ∧ p ';' = false

instance (p : Char → Bool) : Decidable (Inside p) :=
  inferInstanceAs (Decidable (_ ∧ _))

/-- A text that goes on, if at all, with the end of a statement. -/
def Closing (tail : List Char) : Prop :=
  ∀ x, tail.head? = some x → x = '\n' ∨ x = ';'

variable {p : Char → Bool} {tail : List Char}

theorem Closing.eq_false (h : Closing tail) (hp : Inside p) {x : Char} (hx : tail.head? = some x) : p x = false := by
  rcases h x hx with rfl | rfl
  · exact hp.1
  · exact hp.2

theorem Closing.takeWhile_append (h : Closing tail) (hp : Inside p) (cs : List Char) :
    (cs ++ tail).takeWhile p = cs.takeWhile p := by
  induction cs with
  | nil =>
    cases tail with
    | nil => rfl
    | cons x more => exact takeWhile_cons_of_neg (by rw [h.eq_false hp rfl]; decide)
  | cons x cs ih => rw [cons_append, takeWhile_cons, takeWhile_cons, ih]

theorem Closing.dropWhile_append (h : Closing tail) (hp : Inside p) (cs : List Char) :
    (cs ++ tail).dropWhile p = cs.dropWhile p ++ tail := by
  have hspl : (cs ++ tail).takeWhile p ++ (cs ++ tail).dropWhile p = cs.takeWhile p ++ (cs.dropWhile p ++ tail) := by
    rw [takeWhile_append_dropWhile, ← append_assoc, takeWhile_append_dropWhile]
  rw [h.takeWhile_append hp] at hspl
  exact append_cancel_left hspl

namespace Cursor

/-- The same cursor in a text that goes on after the end of a statement. There are no comments, which would go on as
well. -/
structure Extends (tail : List Char) (c c' : Cursor) : Prop where
  closing : Closing tail
  plain : '#' ∉ c.rest
  rest : c'.rest = c.rest ++ tail

namespace Extends

variable {c c' d d' : Cursor}

section

variable (h : c.Extends tail c')

include h

theorem advance {n : Nat} (hn : n ≤ c.rest.length) : (c.advance n).Extends tail (c'.advance n) := by
  refine ⟨h.closing, fun hmem => h.plain (mem_of_mem_drop hmem), ?_⟩
  rw [Cursor.advance, Cursor.advance, h.rest, drop_append_of_le_length hn]

theorem rest_cons {x : Char} {rest : List Char} (hc : c.rest = x :: rest) : c'.rest = x :: (rest ++ tail) := by
  rw [h.rest, hc, cons_append]

/-- At the end of the text, the longer one goes on with no character of the class. -/
theorem rest_nil (hp : Inside p) (hc : c.rest = []) : c'.rest = [] ∨ ∃ x rest, c'.rest = x :: rest ∧ p x = false := by
  rw [h.rest, hc, nil_append]
  cases htail : tail with
  | nil => exact .inl rfl
  | cons x rest => exact .inr ⟨x, rest, rfl, h.closing.eq_false hp (by rw [htail]; rfl)⟩

theorem head?_eq_some_iff {x : Char} (hx : Inside (· == x)) : c'.rest.head? = some x ↔ c.rest.head? = some x := by
  cases hc : c.rest with
  | nil =>
    rcases h.rest_nil hx hc with hc' | ⟨y, rest, hc', hy⟩
    · rw [hc']
    · rw [hc']
      simpa using hy
  | cons y rest => rw [h.rest_cons hc, head?_cons, head?_cons]

theorem length_lt_iff (hd : d.Extends tail d') : d'.rest.length < c'.rest.length ↔ d.rest.length < c.rest.length := by
  rw [h.rest, hd.rest, length_append, length_append, Nat.add_lt_add_iff_right]

theorem span (hp : Inside p) : (c.span p).2.Extends tail (c'.span p).2 := by
  have htok : c'.rest.takeWhile p = c.rest.takeWhile p := by
    rw [h.rest, h.closing.takeWhile_append hp]
  rw [Cursor.span, Cursor.span, htok]
  exact h.advance ( takeWhile_prefix p).length_le

end

end Extends

end Cursor

end Text

namespace Pulse

open Number Text Cursor

variable {tail : List Char} {c c' : Cursor}

theorem skip_of_head?_ne (h : (c.span isGap).2.rest.head? ≠ some '#') : skip c = (c.span isGap).2 := by
  unfold skip
  dsimp only
  split
  · rename_i hrest
    rw [hrest] at h
    exact absurd rfl h
  · rfl

theorem extends_skip (h : c.Extends tail c') : (skip c).Extends tail (skip c') := by
  have hspan := h.span (p := isGap) (by decide)
  have hhead : (c.span isGap).2.rest.head? ≠ some '#' := fun hhash =>
    hspan.plain (mem_of_mem_head? hhash)
  rw [skip_of_head?_ne hhead, skip_of_head?_ne ((hspan.head?_eq_some_iff (by decide)).not.mpr hhead)]
  exact hspan

/-! ### Steps -/

namespace Step

variable {α β : Type}

/-- A step and the same one in the longer text: both match, and the matches agree, or both mismatch. Nothing is said
about errors. -/
inductive Follows (tail : List Char) (agree : α → α → Prop) : Step α → Step α → Prop
  | ok {a a' : α} {d d' : Cursor} (ha : agree a a') (hd : d.Extends tail d') : Follows tail agree (.ok a d) (.ok a' d')
  | miss {p p' : Nat} : Follows tail agree (.miss p) (.miss p')
  | expected {what : String} {p : Nat} {s' : Step α} : Follows tail agree (.expected what p) s'
  | fault {f : Fault} {s' : Step α} : Follows tail agree (.fault f) s'

/-- A step that still matches in the longer text if it matches. -/
def Holds (tail : List Char) (agree : α → α → Prop) (s s' : Step α) : Prop :=
  ∀ a d, s = .ok a d → ∃ a' d', s' = .ok a' d' ∧ agree a a' ∧ d.Extends tail d'

variable {agree : α → α → Prop} {agree' : β → β → Prop} {s s' : Step α} {t t' : Unit → Step α}

namespace Follows

section

variable (h : s.Follows tail agree s')

include h

theorem holds : s.Holds tail agree s' := by
  rintro a d rfl
  cases h with
  | ok ha hd => exact ⟨_, _, rfl, ha, hd⟩

theorem miss_of_miss : (∃ p, s = .miss p) → ∃ p, s' = .miss p := by
  rintro ⟨p, rfl⟩
  cases h with
  | miss => exact ⟨_, rfl⟩

theorem imp {weaker : α → α → Prop} (hweaker : ∀ a a', agree a a' → weaker a a') : s.Follows tail weaker s' := by
  cases h with
  | ok ha hd => exact .ok (hweaker _ _ ha) hd
  | _ => constructor

theorem bind {f f' : α → Cursor → Step β}
    (hf : ∀ a a', agree a a' → ∀ d d', d.Extends tail d' → (f a d).Follows tail agree' (f' a' d')) :
    (s.bind f).Follows tail agree' (s'.bind f') := by
  cases h with
  | ok ha hd => exact hf _ _ ha _ _ hd
  | _ => constructor

theorem map {f f' : α → β} (hf : ∀ a a', agree a a' → agree' (f a) (f' a')) :
    (s.map f).Follows tail agree' (s'.map f') :=
  h.bind fun a a' ha _ _ hd => .ok (hf a a' ha) hd

theorem orElse (ht : (t ()).Follows tail agree (t' ())) : (s.orElse t).Follows tail agree (s'.orElse t') := by
  cases h with
  | ok ha hd => exact .ok ha hd
  | miss =>
    rw [Step.orElse, Step.orElse]
    generalize t () = r, t' () = r' at ht
    cases ht with
    | ok ha hd => exact .ok ha hd
    | _ => constructor
  | _ => constructor

end

end Follows

namespace Holds

section

variable (h : s.Holds tail agree s')

include h

theorem bind {f f' : α → Cursor → Step β}
    (hf : ∀ a a', agree a a' → ∀ d d', d.Extends tail d' → (f a d).Holds tail agree' (f' a' d')) :
    (s.bind f).Holds tail agree' (s'.bind f') := by
  intro b e hb
  cases s with
  | ok a d =>
    obtain ⟨a', d', rfl, ha, hd⟩ := h a d rfl
    exact hf a a' ha d d' hd b e hb
  | _ => cases hb

theorem map {f f' : α → β} (hf : ∀ a a', agree a a' → agree' (f a) (f' a')) : (s.map f).Holds tail agree' (s'.map f') :=
  h.bind fun a a' ha _ _ hd => (Follows.ok (hf a a' ha) hd).holds

/-- Either the first alternative has the same outcome, or the second one does not match. -/
theorem orElse (ht : (t ()).Holds tail agree (t' ()))
    (hcases : s.Follows tail agree s' ∨ ∀ a d, t () ≠ .ok a d) : (s.orElse t).Holds tail agree (s'.orElse t') := by
  intro a d ha
  cases s with
  | ok b e =>
    obtain ⟨b', e', rfl, hb⟩ := h b e rfl
    cases ha
    exact ⟨b', e', rfl, hb⟩
  | miss p =>
    have ht₀ : t () = .ok a d := by
      rw [Step.orElse] at ha
      generalize t () = r at ha
      cases r <;> cases ha
      rfl
    rcases hcases with hs | hnone
    · obtain ⟨a', d', ht₁, hagree⟩ := ht a d ht₀
      cases hs
      exact ⟨a', d', by rw [Step.orElse, ht₁], hagree⟩
    · exact absurd ht₀ (hnone a d)
  | _ => cases ha

theorem follows (hmiss : ∀ p, s ≠ .miss p) : s.Follows tail agree s' := by
  cases s with
  | ok a d =>
    obtain ⟨a', d', rfl, ha, hd⟩ := h a d rfl
    exact .ok ha hd
  | miss p => exact absurd rfl (hmiss p)
  | _ => constructor

theorem must (what : String) : (s.must what).Follows tail agree (s'.must what) := by
  cases s with
  | ok a d =>
    obtain ⟨a', d', rfl, ha, hd⟩ := h a d rfl
    exact .ok ha hd
  | miss p | expected what p => exact .expected
  | fault f => exact .fault

end

end Holds

end Step

/-! ### Tokens -/

section Tokens

theorem follows_adjacent {s : Char} (hs : Inside (· == s)) (h : c.Extends tail c') :
    (adjacent s c).Follows tail Eq (adjacent s c') := by
  have hhead := h.head?_eq_some_iff hs
  unfold adjacent
  by_cases hc : c.rest.head? = some s
  · rw [if_pos (beq_iff_eq.mpr hc), if_pos (beq_iff_eq.mpr (hhead.mpr hc))]
    exact .ok rfl (h.advance (length_pos_of_mem (mem_of_mem_head? hc)))
  · rw [if_neg (mt beq_iff_eq.mp hc), if_neg (mt beq_iff_eq.mp (mt hhead.mp hc))]
    exact .miss

theorem follows_symbol {s : Char} (hs : Inside (· == s)) (h : c.Extends tail c') :
    (symbol s c).Follows tail Eq (symbol s c') :=
  follows_adjacent hs (extends_skip h)

theorem follows_headed {p : Char → Bool} {more : List Char → List Char} (hp : Inside p)
    (hmore : ∀ rest, more (rest ++ tail) = more rest ∧ (more rest).length ≤ rest.length) (h : c.Extends tail c') :
    (headed p more c).Follows tail Eq (headed p more c') := by
  unfold headed
  cases hc : c.rest with
  | nil =>
    rcases h.rest_nil hp hc with hc' | ⟨x, rest, hc', hx⟩
    · rw [hc']
      exact .miss
    · rw [hc']
      simp only [hx]
      exact .miss
  | cons x rest =>
    rw [h.rest_cons hc]
    dsimp only
    rw [(hmore rest).1]
    split
    · refine .ok rfl (h.advance ?_)
      rw [hc]
      exact Nat.succ_le_succ (hmore rest).2
    · exact .miss

theorem follows_identifier (h : c.Extends tail c') : (identifier c).Follows tail Eq (identifier c') := by
  rw [identifier_eq, identifier_eq]
  refine (follows_headed (by decide) (fun rest => ⟨?_, ?_⟩) (extends_skip h)).map fun _ _ => congrArg _
  · exact h.closing.takeWhile_append (by decide) rest
  · exact ( takeWhile_prefix _).length_le

theorem follows_wholeToken (h : c.Extends tail c') : (wholeToken c).Follows tail Eq (wholeToken c') := by
  rw [wholeToken_eq, wholeToken_eq]
  refine follows_headed (by decide) (fun rest => ⟨?_, ?_⟩) h
  · exact h.closing.takeWhile_append (by decide) rest
  · exact ( takeWhile_prefix _).length_le

theorem follows_unitSymbol (h : c.Extends tail c') : (unitSymbol c).Follows tail Eq (unitSymbol c') := by
  rw [unitSymbol_eq, unitSymbol_eq]
  refine follows_headed (by decide) (fun rest => ⟨?_, ?_⟩) h
  · rw [h.closing.takeWhile_append (by decide), h.closing.dropWhile_append (by decide),
      h.closing.takeWhile_append (by decide)]
  · exact IsPrefix.length_le ( letters_prefix rest)

/-- A word without the end of a statement is in the text itself, or not at all. -/
theorem isPrefixOf_append_iff {word cs : List Char} (htail : Closing tail) (hword : '\n' ∉ word ∧ ';' ∉ word) :
    word.isPrefixOf (cs ++ tail) = word.isPrefixOf cs := by
  induction word generalizing cs with
  | nil => simp
  | cons x word ih =>
    cases cs with
    | nil =>
      cases tail with
      | nil => rfl
      | cons y more =>
        have hxy : x ≠ y := by
          rintro rfl
          rcases htail x rfl with rfl | rfl
          · exact hword.1 mem_cons_self
          · exact hword.2 mem_cons_self
        simp [isPrefixOf, hxy]
    | cons y cs =>
      rw [cons_append, isPrefixOf, isPrefixOf, ih ⟨mt (mem_cons_of_mem _) hword.1, mt (mem_cons_of_mem _) hword.2⟩]

theorem follows_keyword {word : String} (hword : '\n' ∉ word.toList ∧ ';' ∉ word.toList) (h : c.Extends tail c') :
    (keyword word c).Follows tail Eq (keyword word c') := by
  have hskip := extends_skip h
  unfold keyword
  dsimp only
  rw [hskip.rest, isPrefixOf_append_iff h.closing hword]
  split
  · rename_i hpre
    have hafter := hskip.advance (n := word.length) (by
      rw [← String.length_toList]
      exact ( isPrefixOf_iff_prefix.mp hpre).length_le)
    have hclass : Inside fun x => isNameChar x || x == '$' := by decide
    cases hrest : ((skip c).advance word.length).rest with
    | nil =>
      rcases hafter.rest_nil hclass hrest with hrest' | ⟨x, rest, hrest', hx⟩
      · rw [hrest']
        exact .ok rfl hafter
      · rw [hrest']
        simp only [hx]
        exact .ok rfl hafter
    | cons x rest =>
      rw [hafter.rest_cons hrest]
      dsimp only
      split
      · exact .miss
      · exact .ok rfl hafter
  · exact .miss

/-! ### Numbers and quantities -/

theorem follows_wholeValue (token : List Char) (h : c.Extends tail c') :
    (wholeValue token c).Follows tail Eq (wholeValue token c') := by
  unfold wholeValue
  split
  · exact .ok rfl h
  · exact .fault

theorem follows_whole (h : c.Extends tail c') :
    ((wholeToken c).bind wholeValue).Follows tail Eq ((wholeToken c').bind wholeValue) := by
  refine (follows_wholeToken h).bind ?_
  rintro token _ rfl d d' hd
  exact follows_wholeValue token hd

theorem follows_exponent (h : c.Extends tail c') : (exponent c).Follows tail Eq (exponent c') := by
  unfold exponent
  have hclass : Inside fun x => x == 'e' || x == 'E' := by decide
  cases hc : c.rest with
  | nil =>
    rcases h.rest_nil hclass hc with hc' | ⟨x, rest, hc', hx⟩
    · rw [hc']
      exact .miss
    · rw [hc']
      simp only [hx]
      exact .miss
  | cons x rest =>
    rw [h.rest_cons hc]
    dsimp only
    split
    · exact follows_whole (h.advance (by rw [hc]; exact Nat.le_add_left ..))
    · exact .miss

theorem fractionPart_eq (c : Cursor) : fractionPart c =
    if c.rest.head? = some '.' then
      if c.rest.tail.takeWhile Char.isDigit = [] then .miss (c.offset + 1)
      else .ok ('.' :: c.rest.tail.takeWhile Char.isDigit) (c.advance ((c.rest.tail.takeWhile Char.isDigit).length + 1))
    else .miss c.offset := by
  unfold fractionPart
  split
  · rename_i rest hrest
    rw [hrest, if_pos (head?_cons ..), tail_cons]
    cases rest.takeWhile Char.isDigit <;> rfl
  · rename_i hrest
    rw [if_neg]
    intro hhead
    obtain ⟨rest, hcons⟩ := head?_eq_some_iff.mp hhead
    exact hrest rest hcons

theorem follows_fractionPart (h : c.Extends tail c') : (fractionPart c).Follows tail Eq (fractionPart c') := by
  rw [fractionPart_eq, fractionPart_eq]
  have hhead := h.head?_eq_some_iff (x := '.') (by decide)
  by_cases hc : c.rest.head? = some '.'
  · obtain ⟨rest, hrest⟩ := head?_eq_some_iff.mp hc
    rw [if_pos hc, if_pos (hhead.mpr hc), h.rest_cons hrest, hrest, tail_cons, tail_cons,
      h.closing.takeWhile_append (by decide)]
    split
    · exact .miss
    · refine .ok rfl (h.advance ?_)
      rw [hrest]
      exact Nat.succ_le_succ ( takeWhile_prefix _).length_le
  · rw [if_neg hc, if_neg (mt hhead.mp hc)]
    exact .miss

theorem follows_decimalPart (h : c.Extends tail c') : (decimalPart c).Follows tail Eq (decimalPart c') := by
  have hexp {d d' : Cursor} (hd : d.Extends tail d') :
      ((exponent d).map fun n => 'e' :: (toString n).toList).Follows tail Eq
        ((exponent d').map fun n => 'e' :: (toString n).toList) :=
    (follows_exponent hd).map fun _ _ hn => by rw [hn]
  unfold decimalPart
  refine Step.Follows.orElse (Step.Follows.bind (follows_fractionPart h) ?_) (hexp h)
  rintro digits _ rfl d d' hd
  exact .orElse ((hexp hd).map fun _ _ => congrArg _) (.ok rfl hd)

theorem follows_number (h : c.Extends tail c') : (number c).Follows tail Eq (number c') := by
  refine (follows_wholeToken (extends_skip h)).bind ?_
  rintro whole _ rfl d d' hd
  refine .orElse ((follows_decimalPart hd).bind ?_) ((follows_wholeValue whole hd).map fun _ _ => congrArg _)
  rintro part _ rfl e e' he
  cases readFloat? (String.ofList (whole ++ part)) with
  | none => exact .fault
  | some x => exact .ok rfl he

end Tokens

/-! ### Repetitions -/

section Repetitions

variable {α : Type} {agree : α → α → Prop} {item : Cursor → Step α} {d : Cursor}

theorem many_of_ok {a : α} {next : Cursor} (h : item c = .ok a next) :
    many item c = if next.rest.length < c.rest.length then (many item next).map (a :: ·) else .ok [a] next := by
  rw [many]
  simp [h]

/-- Items that match until one that does not match in the longer text either. -/
theorem holds_many (hitem : ∀ d d', d.Extends tail d' → (item d).Holds tail agree (item d')) (h : c.Extends tail c')
    {as : List α} (hmany : many item c = .ok as d)
    (hstop : ∀ d', d.Extends tail d' → (∃ p, item d = .miss p) → ∃ p, item d' = .miss p) :
    ∃ as' d', many item c' = .ok as' d' ∧ Forall₂ agree as as' ∧ d.Extends tail d' := by
  fun_induction many item c generalizing c' as with
  | case1 c a next hok hlt ih =>
    obtain ⟨more, hmore, rfl⟩ := Step.map_eq_ok.mp hmany
    obtain ⟨a', next', hok', ha, hnext⟩ := hitem c c' h a next hok
    obtain ⟨more', d', hmore', hagree, hd⟩ := ih hnext hmore
    refine ⟨a' :: more', d', ?_, .cons ha hagree, hd⟩
    rw [many_of_ok hok', if_pos ((h.length_lt_iff hnext).mpr hlt), hmore']
    rfl
  | case2 c a next hok hlt =>
    cases hmany
    obtain ⟨a', next', hok', ha, hnext⟩ := hitem c c' h a d hok
    refine ⟨[a'], next', ?_, .cons ha .nil, hnext⟩
    rw [many_of_ok hok', if_neg (mt (h.length_lt_iff hnext).mp hlt)]
  | case3 c p hmiss =>
    cases hmany
    obtain ⟨p', hmiss'⟩ := hstop c' h ⟨p, hmiss⟩
    exact ⟨[], c', by rw [many, hmiss'], .nil, h⟩
  | case4 c what p _ | case5 c f _ => cases hmany

theorem many_ne_miss (item : Cursor → Step α) (c : Cursor) : ∀ p, many item c ≠ .miss p := by
  fun_induction many item c with
  | case1 c a next hok hlt ih => exact Step.map_ne_miss ih
  | _ => rintro p ⟨⟩

theorem follows_many (hitem : ∀ d d', d.Extends tail d' → (item d).Follows tail agree (item d'))
    (h : c.Extends tail c') : (many item c).Follows tail (Forall₂ agree) (many item c') := by
  refine Step.Holds.follows (fun as d hmany => ?_) (many_ne_miss item c)
  exact holds_many (fun e e' he => (hitem e e' he).holds) h hmany fun d' hd => (hitem d d' hd).miss_of_miss

theorem follows_separated {separator : Cursor → Step Unit}
    (hsep : ∀ d d', d.Extends tail d' → (separator d).Follows tail Eq (separator d'))
    (hitem : ∀ d d', d.Extends tail d' → (item d).Follows tail agree (item d')) (h : c.Extends tail c') :
    (separated separator item c).Follows tail (Forall₂ agree) (separated separator item c') := by
  refine (hitem c c' h).bind fun a a' ha d d' hd => ?_
  refine (follows_many (fun e e' he => ?_) hd).map fun as as' has => .cons ha has
  exact (hsep e e' he).bind fun _ _ _ f f' hf => hitem f f' hf

end Repetitions

theorem follows_units (h : c.Extends tail c') : (units c).Follows tail Eq (units c') := by
  refine (follows_separated (fun d d' => follows_adjacent (by decide)) (fun d d' => follows_unitSymbol)
    (extends_skip h)).map fun symbols symbols' hsyms => ?_
  rw [forall₂_eq_eq_eq] at hsyms
  rw [hsyms]

theorem follows_quantity (h : c.Extends tail c') : (quantity c).Follows tail Eq (quantity c') := by
  refine (follows_number (extends_skip h)).bind ?_
  rintro n _ rfl d d' hd
  refine (follows_units hd).bind ?_
  rintro u _ rfl e e' he
  cases n.toQuantity (.text u) with
  | ok q => exact .ok rfl he
  | error f =>
    dsimp only
    split
    · exact .miss
    · exact .fault

/-! ### Values -/

theorem quotedText_of_head?_ne {quote : Char} (h : (skip c).rest.head? ≠ some quote) :
    quotedText quote c = .miss (skip c).offset := by
  unfold quotedText
  dsimp only
  cases hrest : (skip c).rest with
  | nil => rfl
  | cons x rest =>
    rw [hrest, head?_cons] at h
    have hx : ¬(x == quote) = true := fun heq => h (congrArg some (eq_of_beq heq))
    dsimp only
    rw [if_neg hx]

theorem quotedText_eq_ok_iff {quote : Char} {text : String} {d : Cursor} : quotedText quote c = .ok text d ↔
    ∃ rest body n, (skip c).rest = quote :: rest ∧ quotedBody quote rest = some (body, n) ∧
      text = String.ofList (unescape body) ∧ d = (skip c).advance (n + 2) := by
  constructor
  · intro htext
    have hhead : (skip c).rest.head? = some quote := by
      by_contra hne
      rw [quotedText_of_head?_ne hne] at htext
      cases htext
    obtain ⟨rest, hrest⟩ := head?_eq_some_iff.mp hhead
    unfold quotedText at htext
    dsimp only at htext
    rw [hrest] at htext
    dsimp only at htext
    rw [if_pos (beq_self_eq_true quote)] at htext
    cases hbody : quotedBody quote rest with
    | none =>
      rw [hbody] at htext
      cases htext
    | some closed =>
      rw [hbody] at htext
      cases htext
      exact ⟨rest, closed.1, closed.2, hrest, hbody, rfl, rfl⟩
  · rintro ⟨rest, body, n, hrest, hbody, rfl, rfl⟩
    unfold quotedText
    dsimp only
    rw [hrest]
    dsimp only
    rw [if_pos (beq_self_eq_true quote), hbody]

theorem holds_quotedText {quote : Char} (hquote : quote ≠ '\\') (h : c.Extends tail c') :
    (quotedText quote c).Holds tail Eq (quotedText quote c') := by
  intro text d htext
  obtain ⟨rest, body, n, hrest, hbody, rfl, rfl⟩ := quotedText_eq_ok_iff.mp htext
  have hskip := extends_skip h
  obtain ⟨inner, after, rfl, rfl, -, htail⟩ := exists_of_quotedBody hquote hbody
  refine ⟨_, _, quotedText_eq_ok_iff.mpr ⟨_, body, _, hskip.rest_cons hrest, ?_, rfl, rfl⟩, rfl, hskip.advance ?_⟩
  · rw [append_assoc, cons_append, htail]
  · rw [hrest, length_cons, length_append, length_cons]
    omega

theorem holds_quoted (h : c.Extends tail c') :
    ((quotedText '"' c).orElse fun _ => quotedText apostrophe c).Holds tail Eq
      ((quotedText '"' c').orElse fun _ => quotedText apostrophe c') := by
  refine (holds_quotedText (by decide) h).orElse (holds_quotedText (by decide) h) ?_
  by_cases hhead : (skip c).rest.head? = some '"'
  · refine .inr fun text d htext => ?_
    obtain ⟨rest, _, _, hrest, -⟩ := quotedText_eq_ok_iff.mp htext
    rw [hrest] at hhead
    cases hhead
  · rw [quotedText_of_head?_ne hhead,
      quotedText_of_head?_ne (mt ((extends_skip h).head?_eq_some_iff (by decide)).mp hhead)]
    exact .inl .miss

theorem holds_value (h : c.Extends tail c') : (value c).Holds tail Eq (value c') := by
  have hqty : ((quantity c).map Value.quantity).Follows tail Eq ((quantity c').map Value.quantity) :=
    (follows_quantity h).map fun _ _ => congrArg _
  refine hqty.holds.orElse ?_ (.inl hqty)
  refine (follows_number h).holds.orElse ?_ (.inl (follows_number h))
  exact (holds_quoted h).map fun _ _ => congrArg _

end Pulse

end LabBench
