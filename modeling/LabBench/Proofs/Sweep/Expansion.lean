import LabBench.Sweep.Formula
import Mathlib.Data.List.Infix
/-!
# The expansion of formulas

Each heading is replaced in the whole text, with the references that are already there. It does not go beyond a mark
such as an operator. Each heading becomes the reference to its column if no earlier one occurs in it and no later one in
the reference, and if none occurs in the other words.
-/

namespace LabBench.Sweep.Formula

open List

/-- The characters of names and numbers. All others are marks. -/
def inWord (c : Char) : Bool :=
  isLetter c || c.isDigit

/-- What stands between two marks: a heading, or else a part of a number, another name, or nothing. -/
inductive Word where
  | column (position : Nat)
  | other (cs : List Char)

def heading (headings : List String) (i : Nat) : List Char :=
  (headings[i]?.getD "").toList

/-- A word in which no replacement finds anything but the heading itself. -/
def Word.Distinct (headings : List String) : Word → Prop
  | column position => position < headings.length ∧
      (∀ i < position, ¬heading headings i <:+: heading headings position) ∧
      ∀ i < headings.length, position < i → ¬heading headings i <:+: reference position
  | other cs => ∀ i < headings.length, ¬heading headings i <:+: cs

def Word.write (columns : Nat → List Char) : Word → List Char
  | column position => columns position
  | other cs => cs

/-- A formula: a word, and more of them with marks in front, where the columns are written in some way. -/
def written (columns : Nat → List Char) (first : Word) (more : List (Char × Word)) : List Char :=
  first.write columns ++ more.flatMap fun m => m.1 :: m.2.write columns

/-- The columns once the headings before a position have been replaced. -/
def columnsAt (headings : List String) (position i : Nat) : List Char :=
  if i < position then reference i else heading headings i

/-! ### Replacements -/

section Replacements

variable {w r a b : List Char} (hw : w ≠ [])

include hw

theorem replaceAll_cons {c : Char} {cs : List Char} (h : ¬w <+: c :: cs) :
    replaceAll w r (c :: cs) = c :: replaceAll w r cs := by
  rw [replaceAll, if_neg (by simpa using hw), if_neg (mt isPrefixOf_iff_prefix.mp h)]

theorem replaceAll_self (r b : List Char) : replaceAll w r (w ++ b) = r ++ replaceAll w r b := by
  obtain ⟨c, cs, rfl⟩ := exists_cons_of_ne_nil hw
  have hpre : (c :: cs).isPrefixOf (c :: (cs ++ b)) = true := isPrefixOf_iff_prefix.mpr (prefix_append (c :: cs) b)
  rw [cons_append, replaceAll, if_neg (by simp), if_pos hpre]
  simp

/-- Nothing is replaced in a text without the word, up to a character that is not in the word. -/
theorem replaceAll_append (ha : ¬w <:+: a) (hb : ∀ c ∈ b.head?, c ∉ w) :
    replaceAll w r (a ++ b) = a ++ replaceAll w r b := by
  induction a with
  | nil => rfl
  | cons c a ih =>
    have hpre : ¬w <+: c :: a ++ b := by
      intro h
      rcases prefix_or_prefix_of_prefix h (prefix_append (c :: a) b) with hpre | ⟨more, rfl⟩
      · exact ha hpre.isInfix
      -- the word would go on with the first character behind the text
      obtain ⟨rest, rfl⟩ := (prefix_append_right_inj _).mp h
      cases more with
      | nil => exact ha (by simp)
      | cons x more => exact hb x rfl (by simp)
    rw [cons_append, cons_append, ← ih fun h => ha (infix_cons h)]
    exact replaceAll_cons hw hpre

end Replacements

/-! ### Formulas -/

variable {headings : List String} {position : Nat}

/-- A heading of letters and digits. -/
def IsName (cs : List Char) : Prop :=
  cs ≠ [] ∧ cs.all inWord = true

theorem replaceAll_write (hpos : position < headings.length) (hname : IsName (heading headings position)) {word : Word}
    (hword : word.Distinct headings) {b : List Char} (hb : ∀ c ∈ b.head?, inWord c = false) :
    replaceAll (heading headings position) (reference position) (word.write (columnsAt headings position) ++ b) =
      word.write (columnsAt headings (position + 1)) ++
        replaceAll (heading headings position) (reference position) b := by
  have hhead : ∀ c ∈ b.head?, c ∉ heading headings position := by
    intro c hc hmem
    cases (hb c hc).symm.trans (all_eq_true.mp hname.2 c hmem)
  cases word with
  | other cs => exact replaceAll_append hname.1 (hword position hpos) hhead
  | column i =>
    obtain ⟨-, hearlier, hlater⟩ := hword
    dsimp only [Word.write, columnsAt]
    rcases Nat.lt_trichotomy i position with hi | rfl | hi
    · rw [if_pos hi, if_pos (Nat.lt_succ_of_lt hi)]
      exact replaceAll_append hname.1 (hlater position hpos hi) hhead
    · rw [if_neg (Nat.lt_irrefl i), if_pos (Nat.lt_succ_self i)]
      exact replaceAll_self hname.1 _ _
    · rw [if_neg (Nat.lt_asymm hi), if_neg (Nat.not_lt.mpr hi)]
      exact replaceAll_append hname.1 (hearlier position hi) hhead

section Written

variable {first : Word} {more : List (Char × Word)} (hmarks : ∀ m ∈ more, inWord m.1 = false)
  (hfirst : first.Distinct headings) (hmore : ∀ m ∈ more, m.2.Distinct headings)

include hmarks hfirst hmore

/-- One heading is replaced by the reference to its column, and nothing else is. -/
theorem replaceAll_written (hpos : position < headings.length) (hname : IsName (heading headings position)) :
    replaceAll (heading headings position) (reference position) (written (columnsAt headings position) first more) =
      written (columnsAt headings (position + 1)) first more := by
  induction more generalizing first with
  | nil =>
    rw [written, replaceAll_write hpos hname hfirst (by simp)]
    simp [replaceAll, hname.1, written]
  | cons m more ih =>
    obtain ⟨hmark, hmarks⟩ := forall_mem_cons.mp hmarks
    obtain ⟨hnext, hmore⟩ := forall_mem_cons.mp hmore
    rw [written, flatMap_cons, cons_append, replaceAll_write hpos hname hfirst (by rintro _ ⟨⟩; exact hmark)]
    have hpre (cs : List Char) : ¬heading headings position <+: m.1 :: cs := by
      rintro ⟨after, hafter⟩
      cases hcons : heading headings position with
      | nil => exact hname.1 hcons
      | cons c rest =>
        rw [hcons] at hafter
        cases hafter
        cases hmark.symm.trans (all_eq_true.mp hname.2 _ (hcons ▸ mem_cons_self))
    rw [replaceAll_cons hname.1 (hpre _)]
    exact congrArg (_ ++ m.1 :: ·) (ih hmarks hnext hmore)

theorem expandFrom_written (hnames : ∀ i < headings.length, IsName (heading headings i)) (earlier : List String)
    {rest : List String} (heq : earlier ++ rest = headings) :
    expandFrom earlier.length (written (columnsAt headings earlier.length) first more) rest =
      written (columnsAt headings headings.length) first more := by
  induction rest generalizing earlier with
  | nil => rw [← heq, append_nil, expandFrom]
  | cons name rest ih =>
    have hpos : earlier.length < headings.length := by simp [← heq]
    have hname : name.toList = heading headings earlier.length := by simp [heading, ← heq]
    rw [expandFrom, hname, replaceAll_written hmarks hfirst hmore hpos (hnames _ hpos)]
    have hrest := ih (earlier ++ [name]) (by simp [← heq])
    rwa [length_append] at hrest

/-- Every heading of a formula becomes the reference to its column, and all else stays as it is. -/
theorem expand_written (hnames : ∀ i < headings.length, IsName (heading headings i)) :
    expand headings (String.ofList (written (heading headings) first more)) =
      String.ofList (written reference first more) := by
  have hend {word : Word} (hword : word.Distinct headings) :
      word.write (columnsAt headings headings.length) = word.write reference := by
    cases word with
    | column i => exact if_pos hword.1
    | other _ => rfl
  have hall := expandFrom_written hmarks hfirst hmore hnames [] rfl
  rw [expand, String.toList_ofList]
  refine congrArg String.ofList (hall.trans ?_)
  rw [written, written, hend hfirst, flatMap_congr fun m hm => by rw [hend (hmore m hm)]]

end Written

theorem expand_two_columns : expand ["v10", "v1"] "2*(v1+v10)" = "2*(virt_values[:,1]+virt_values[:,0])" :=
  @expand_written ["v10", "v1"] (.other ['2'])
    [('*', .other []), ('(', .column 1), ('+', .column 0), (')', .other [])] (by decide)
    (by unfold Word.Distinct; decide) (by simp; unfold Word.Distinct; decide) (by unfold IsName; decide)

/-- A heading is lost if an earlier one occurs in it. -/
theorem expand_shorter_first : expand ["v1", "v10"] "v10" = "virt_values[:,0]0" := by
  cbv

end LabBench.Sweep.Formula
