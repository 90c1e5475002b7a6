import LabBench.Text.Blank
import Mathlib.Data.List.Basic
/-!
# Parts of texts

A text that is put together from parts can be taken apart again, as long as the parts do not contain what
stands between them. Blanks at the ends of a text are not kept, but nothing is lost before the last character
that is no blank.
-/

namespace LabBench.Text

open List

/-! ### Separated parts -/

theorem exists_splitAt (sep : Char) (cs : List Char) : ∃ part parts, splitAt sep cs = part :: parts := by
  cases cs with
  | nil => exact ⟨[], [], rfl⟩
  | cons d ds =>
    rw [splitAt]
    split
    · exact ⟨_, _, rfl⟩
    · split <;> exact ⟨_, _, rfl⟩

theorem splitAt_append {sep : Char} {part : List Char} (hpart : sep ∉ part) (cs : List Char) :
    splitAt sep (part ++ sep :: cs) = part :: splitAt sep cs := by
  induction part with
  | nil =>
    obtain ⟨first, parts, hcs⟩ := exists_splitAt sep cs
    rw [nil_append, splitAt, hcs]
    exact if_pos (beq_self_eq_true sep)
  | cons c part ih =>
    rw [mem_cons, not_or] at hpart
    rw [cons_append, splitAt, ih hpart.2]
    exact if_neg (by simpa using Ne.symm hpart.1)

/-! ### Blanks at the ends -/

variable {p : Char → Bool} {cs : List Char} {c : Char}

theorem trimLeft_of_head (h : ∀ c, cs.head? = some c → p c = false) : trimLeft p cs = cs := by
  cases cs with
  | nil => rfl
  | cons c rest => exact dropWhile_cons_of_neg (by simp [h c rfl])

theorem trimRight_of_last (h : ∀ c, cs.getLast? = some c → p c = false) : trimRight p cs = cs := by
  rw [trimRight]
  have hreverse : cs.reverse.dropWhile p = cs.reverse := by
    cases hcs : cs.reverse with
    | nil => rfl
    | cons c rest =>
      have hlast : cs.getLast? = some c := by
        rw [← head?_reverse, hcs, head?_cons]
      rw [dropWhile_cons_of_neg (by simp [h c hlast])]
  rw [hreverse, reverse_reverse]

theorem trim_of_forall (h : ∀ c ∈ cs, p c = false) : trim p cs = cs := by
  rw [trim, trimLeft_of_head fun c hc => h c (mem_of_head? hc), trimRight_of_last fun c hc => h c (mem_of_getLast? hc)]

theorem trimRight_append_of_last (hlast : cs.getLast? = some c) (hc : p c = false) (rest : List Char) :
    trimRight p (cs ++ rest) = cs ++ trimRight p rest := by
  have hcs : (cs.reverse.dropWhile p).reverse = cs :=
    trimRight_of_last fun d hd => by rwa [Option.some.inj (hd.symm.trans hlast)]
  rw [trimRight, reverse_append, dropWhile_append]
  split
  · rename_i hempty
    rw [hcs, trimRight, isEmpty_iff.mp hempty, reverse_nil, append_nil]
  · rw [reverse_append, reverse_reverse]
    rfl

theorem length_trimRight_lt (hlast : cs.getLast? = some c) (hc : p c = true) : (trimRight p cs).length < cs.length := by
  have hlen : cs.length = cs.reverse.length := length_reverse.symm
  rw [← head?_reverse] at hlast
  rw [trimRight, length_reverse, hlen]
  cases hcs : cs.reverse with
  | nil =>
    rw [hcs] at hlast
    cases hlast
  | cons d rest =>
    rw [hcs] at hlast
    cases hlast
    rw [dropWhile_cons_of_pos hc, length_cons]
    exact Nat.lt_succ_of_le (length_dropWhile_le p rest)

theorem trim_append_of_all {before after : List Char} (hpre : before.all p = true)
    (hcs : ∀ c ∈ cs, p c = false) (hafter : after.all p = true) : trim p (before ++ cs ++ after) = cs := by
  have hreverse : ∀ c ∈ after.reverse, p c = true := fun c hc => all_eq_true.mp hafter c (mem_reverse.mp hc)
  rw [trim, trimLeft, append_assoc, dropWhile_append_of_pos (all_eq_true.mp hpre)]
  cases cs with
  | nil =>
    rw [nil_append, ← append_nil after, dropWhile_append_of_pos (all_eq_true.mp hafter)]
    rfl
  | cons c cs =>
    rw [cons_append, dropWhile_cons_of_neg (by simp [hcs c]), trimRight, ← cons_append, reverse_append,
      dropWhile_append_of_pos hreverse, ← trimRight, trimRight_of_last fun d hd => hcs d (mem_of_getLast? hd)]

/-! ### Words -/

theorem splitFirst_append {word : List Char} (hword : word.all (!isBlank ·) = true) (hne : word ≠ [])
    (cs : List Char) : splitFirst (word ++ ' ' :: cs) = (word, trimLeft isBlank cs) := by
  have hall : ∀ c ∈ word, (!isBlank c) = true := all_eq_true.mp hword
  have hspace : (!isBlank ' ') = false := rfl
  have hstart : trimLeft isBlank (word ++ ' ' :: cs) = word ++ ' ' :: cs := by
    obtain ⟨c, rest, rfl⟩ := exists_cons_of_ne_nil hne
    exact dropWhile_cons_of_neg (by simpa using hall c mem_cons_self)
  rw [splitFirst, hstart, takeWhile_append_of_pos hall, dropWhile_append_of_pos hall,
    takeWhile_cons_of_neg (by simp [hspace]), dropWhile_cons_of_neg (by simp [hspace]),
    append_nil]
  rfl

/-! ### Digits -/

theorem isSpace_of_isDigit (h : c.isDigit = true) : isSpace c = false := by
  simp only [Char.isDigit, Bool.and_eq_true, decide_eq_true_eq] at h
  have hlow : 48 ≤ c.toNat := h.1
  have hhigh : c.toNat ≤ 57 := h.2
  have hspace : c ≠ ' ' := by
    rintro rfl
    exact absurd hlow (by decide)
  have hcontrol (d : Char) (hd : d.toNat < 48) : ¬c ≤ d := by
    intro hle
    have : c.toNat ≤ d.toNat := hle
    omega
  have hwide : ¬0x2000 ≤ c.toNat := by omega
  have hoth : c.toNat ∉ [0x85, 0xa0, 0x1680, 0x2028, 0x2029, 0x202f, 0x205f, 0x3000] := by
    intro hmem
    have hall : ∀ n ∈ [0x85, 0xa0, 0x1680, 0x2028, 0x2029, 0x202f, 0x205f, 0x3000], 57 < n := by decide
    exact absurd (hall _ hmem) (by omega)
  rw [isSpace, isBlank, contains_eq_mem, decide_eq_false hoth]
  simp [hspace, hcontrol '\r' (by decide), hcontrol '\x1f' (by decide), hwide]

theorem isBlank_of_isDigit (h : c.isDigit = true) : isBlank c = false := by
  rw [← Bool.not_eq_true]
  intro hblank
  have hspace := isSpace_of_isBlank hblank
  rw [isSpace_of_isDigit h] at hspace
  cases hspace

end LabBench.Text
