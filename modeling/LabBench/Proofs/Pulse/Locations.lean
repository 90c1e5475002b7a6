import LabBench.Pulse.Location
import Mathlib.Tactic.Common
/-!
# Locations of positions

A position in a source is found in the first line whose text reaches up to it. So every position has a location, apart
from two kinds: behind the last line end there is no line any more, and a position between the two characters of a line
end is taken to be in front of the following line, in column zero.
-/

namespace LabBench.Pulse

open Text List

/-! ### Lines of a text -/

def extent (ls : List Line) : Nat :=
  (ls.flatMap Line.toList).length

theorem extent_nil : extent [] = 0 :=
  rfl

theorem extent_append (ls ls' : List Line) : extent (ls ++ ls') = extent ls + extent ls' := by
  rw [extent, flatMap_append, length_append, ← extent, ← extent]

theorem extent_cons (l : Line) (ls : List Line) : extent (l :: ls) = l.body.length + l.ending.length + extent ls := by
  rw [extent, flatMap_cons, length_append, ← extent, Line.toList, length_append]

theorem extent_concat (ls : List Line) (l : Line) :
    extent (ls ++ [l]) = extent ls + (l.body.length + l.ending.length) := by
  rw [extent_append, extent_cons, extent_nil, Nat.add_zero]

variable {cs : List Char}

/-- A line is not empty, apart from its end, which has at most two characters. -/
theorem length_line {l : Line} (h : l ∈ lines cs) : 0 < l.body.length + l.ending.length ∧ l.ending.length ≤ 2 := by
  fun_induction lines cs generalizing l with
  | case1 => cases h
  | case2 rest ih | case3 c rest _ _ ih =>
    rcases mem_cons.mp h with rfl | h
    · simp
    · exact ih h
  | case4 c rest _ _ _ _ =>
    rw [mem_singleton.mp h]
    simp
  | case5 c rest _ _ l' ls hrest ih =>
    rw [hrest] at ih
    rcases mem_cons.mp h with rfl | h
    · exact ⟨Nat.add_pos_left (Nat.succ_pos _) _, (ih (l := l') mem_cons_self).2⟩
    · exact ih (mem_cons_of_mem l' h)

/-- The line `l` of a text, after the lines `before`. -/
def HasLine (cs : List Char) (before : List Line) (l : Line) : Prop :=
  ∃ after, lines cs = before ++ l :: after

/-- The position stands between the characters of a line end. -/
def InLineEnd (cs : List Char) (p : Nat) : Prop :=
  ∃ before l, HasLine cs before l ∧ extent before + l.body.length < p ∧ p < extent (before ++ [l])

/-- There is no line at the position, since it stands behind the last line end or there are no lines at all. -/
def BehindLines (cs : List Char) (p : Nat) : Prop :=
  p = cs.length ∧ ∀ l, (lines cs).getLast? = some l → l.ending ≠ []

/-- What a location has to say about a position. -/
structure Location.Describes (loc : Location) (cs : List Char) (p : Nat) : Prop where
  exists_line : ∃ before l, HasLine cs before l ∧ loc.row = before.length + 1 ∧ loc.line = String.ofList l.body ∧
    (extent before : Int) + (loc.column - 1) = p ∧ loc.column ≤ l.body.length + 1

/-! ### The search -/

variable {p start row : Nat} {ls : List Line}

theorem locateIn_eq_none (h : locateIn p start row ls = none) {before after : List Line} {l : Line}
    (hls : ls = before ++ l :: after) : start + extent before + l.body.length < p := by
  induction ls generalizing start row before with
  | nil => simp at hls
  | cons l' ls ih =>
    rw [locateIn] at h
    split at h
    · rename_i hlt
      cases before with
      | nil =>
        cases hls
        exact hlt
      | cons b before =>
        cases hls
        have hlater := ih h rfl
        rw [extent_cons]
        rw [Line.toList, length_append] at hlater
        omega
    · cases h

/-- The line that is found is the first one that reaches up to the position. -/
theorem exists_of_locateIn {loc : Location} (h : locateIn p start row ls = some loc) :
    ∃ before l after, ls = before ++ l :: after ∧
      loc = ⟨row + before.length, (p : Int) - (start + extent before : Nat) + 1, String.ofList l.body⟩ ∧
      p ≤ start + extent before + l.body.length ∧
      ∀ earlier l' later, before = earlier ++ l' :: later → start + extent earlier + l'.body.length < p := by
  induction ls generalizing start row with
  | nil => cases h
  | cons l ls ih =>
    rw [locateIn] at h
    split at h
    · rename_i hlt
      obtain ⟨before, l', after, rfl, rfl, hle, hpre⟩ := ih h
      rw [Line.toList, length_append] at hle hpre
      refine ⟨l :: before, l', after, rfl, ?_, ?_, ?_⟩
      · simp only [Line.toList, length_append, length_cons, extent_cons, Location.mk.injEq, and_true]
        omega
      · rw [extent_cons]
        omega
      · intro earlier l'' later hearlier
        cases earlier with
        | nil =>
          cases hearlier
          exact hlt
        | cons b earlier =>
          cases hearlier
          have hless := hpre earlier l'' later rfl
          rw [extent_cons]
          omega
    · rename_i hle
      refine ⟨[], l, ls, rfl, ?_, ?_, ?_⟩
      · rw [← Option.some.inj h]
        rfl
      · exact Nat.le_of_not_lt hle
      · simp

/-! ### Locations -/

theorem locate_of_le {source : String} (h : p ≤ source.length) :
    locate source p = .ok (locateIn p 0 1 (lines source.toList)) := by
  rw [locate, if_neg (by simp; omega), Int.toNat_natCast]

/-- Of two lines of a text the one that starts later is behind the end of the other one. -/
theorem exists_between {before before' : List Line} {l l' : Line} (h : HasLine cs before l)
    (h' : HasLine cs before' l') (hlt : extent before + l.body.length < extent before' + l'.body.length) :
    ∃ between, before' = before ++ l :: between := by
  obtain ⟨after, h⟩ := h
  obtain ⟨after', h'⟩ := h'
  rcases append_eq_append_iff.mp (h.symm.trans h') with ⟨c, rfl, hc⟩ | ⟨c, rfl, hc⟩
  · cases c with
    | nil =>
      cases hc
      simp at hlt
    | cons l'' c =>
      cases hc
      exact ⟨c, rfl⟩
  · cases c with
    | nil =>
      cases hc
      simp at hlt
    | cons l'' c =>
      cases hc
      rw [extent_append, extent_cons] at hlt
      omega

theorem not_inLineEnd {before : List Line} {l : Line} (h : HasLine cs before l)
    (hle : extent before ≤ p) (hp : p ≤ extent before + l.body.length) : ¬InLineEnd cs p := by
  rintro ⟨before', l', h', hbody, hend⟩
  obtain ⟨between, rfl⟩ := exists_between h' h (by omega)
  rw [extent_append, extent_cons] at hle
  rw [extent_concat] at hend
  omega

theorem extent_eq {before after : List Line} {l : Line} (h : lines cs = before ++ l :: after) :
    cs.length = extent before + (l.body.length + l.ending.length + extent after) := by
  rw [← extent_cons, ← extent_append, ← h, extent, flatMap_toList_lines]

theorem describes_of_locateIn {loc : Location} (h : locateIn p 0 1 (lines cs) = some loc) :
    loc.Describes cs p ∧ (1 ≤ loc.column ∧ ¬BehindLines cs p ∧ ¬InLineEnd cs p ∨
      loc.column = 0 ∧ InLineEnd cs p ∧ p + 1 < cs.length) := by
  obtain ⟨before, l, after, hls, rfl, hle, hpre⟩ := exists_of_locateIn h
  have hline : HasLine cs before l := ⟨after, hls⟩
  have hlen := extent_eq hls
  have hl : l ∈ lines cs := hls ▸ mem_append_right before mem_cons_self
  rw [Nat.zero_add] at hle
  simp only [Nat.zero_add] at hpre ⊢
  refine ⟨⟨before, l, hline, Nat.add_comm _ _, rfl, by dsimp only; omega, by dsimp only; omega⟩, ?_⟩
  by_cases hstart : extent before ≤ p
  · refine .inl ⟨by omega, ?_, not_inLineEnd hline hstart hle⟩
    rintro ⟨rfl, hlast⟩
    -- the position is at the end of the text, so that nothing follows the line
    cases after with
    | nil => exact hlast l (by rw [hls, getLast?_concat]) (length_eq_zero_iff.mp (by omega))
    | cons l' after =>
      have hpos := (length_line (show l' ∈ lines cs by rw [hls]; simp)).1
      rw [extent_cons] at hlen
      omega
  · rcases eq_nil_or_concat before with rfl | ⟨earlier, l', rfl⟩
    · exact absurd (Nat.zero_le p) hstart
    · rw [concat_eq_append] at *
      have hbody := hpre earlier l' [] rfl
      have hending := (length_line (show l' ∈ lines cs by rw [hls]; simp)).2
      have hpos := (length_line hl).1
      have hend := extent_concat earlier l'
      have hline' : HasLine cs earlier l' := ⟨l :: after, by rw [hls, append_assoc]; rfl⟩
      exact .inr ⟨by omega, ⟨earlier, l', hline', hbody, by omega⟩, by omega⟩

theorem behindLines_or_of_locateIn (hp : p ≤ cs.length) (h : locateIn p 0 1 (lines cs) = none) :
    BehindLines cs p ∨ InLineEnd cs p ∧ p + 1 = cs.length := by
  rcases eq_nil_or_concat (lines cs) with hls | ⟨before, l, hls⟩
  · have hlen := flatMap_toList_lines cs
    rw [hls] at hlen
    obtain rfl : [] = cs := hlen
    exact .inl ⟨Nat.le_zero.mp hp, by simp [hls]⟩
  · rw [concat_eq_append] at hls
    have hbody := locateIn_eq_none h hls
    have hlen := extent_eq hls
    have hending := (length_line (show l ∈ lines cs by rw [hls]; simp)).2
    have hend := extent_concat before l
    rw [extent_nil] at hlen
    by_cases hlast : p = cs.length
    · refine .inl ⟨hlast, fun l' hl' => ?_⟩
      rw [hls, getLast?_concat] at hl'
      obtain rfl := Option.some.inj hl'
      intro hnil
      rw [hnil, length_nil] at hlen
      omega
    · exact .inr ⟨⟨before, l, ⟨[], hls⟩, by omega, by omega⟩, by omega⟩

/-- Every position in a source has a location, apart from those behind the last line end. Between the two characters of
a line end the column is zero, if there is a line behind them, and otherwise there is no location. -/
theorem locate_describes (source : String) : (∀ position : Int, position < 0 ∨ source.length < position →
      ∃ message, locate source position = .error (.because .badValue message)) ∧
    ∀ p ≤ source.length, (BehindLines source.toList p → locate source p = .ok none) ∧
      (InLineEnd source.toList p → p + 1 = source.length → locate source p = .ok none) ∧
      (InLineEnd source.toList p → p + 1 ≠ source.length →
        ∃ loc, locate source p = .ok (some loc) ∧ loc.Describes source.toList p ∧ loc.column = 0) ∧
      (¬BehindLines source.toList p → ¬InLineEnd source.toList p →
        ∃ loc, locate source p = .ok (some loc) ∧ loc.Describes source.toList p ∧ 1 ≤ loc.column) := by
  refine ⟨fun position h => ⟨_, if_pos (by simpa using h)⟩, fun p hp => ?_⟩
  rw [locate_of_le hp]
  rw [← String.length_toList] at hp ⊢
  cases h : locateIn p 0 1 (lines source.toList) with
  | none =>
    have hcases := behindLines_or_of_locateIn hp h
    refine ⟨fun _ => rfl, fun _ _ => rfl, fun hin hne => ?_, fun hbehind hin => ?_⟩
    · rcases hcases with hbehind | ⟨-, heq⟩
      · obtain ⟨before, l, ⟨after, hls⟩, -, hlt⟩ := hin
        have hlength := extent_eq hls
        have hend := hbehind.1
        rw [extent_concat] at hlt
        omega
      · exact absurd heq hne
    · rcases hcases with hbehind' | ⟨hin', -⟩
      · exact absurd hbehind' hbehind
      · exact absurd hin' hin
  | some loc =>
    obtain ⟨hdescribes, ⟨hcolumn, hbehind, hin⟩ | ⟨hcolumn, hin, hlt⟩⟩ := describes_of_locateIn h
    · exact ⟨fun h => absurd h hbehind, fun h => absurd h hin, fun h => absurd h hin,
        fun _ _ => ⟨loc, rfl, hdescribes, hcolumn⟩⟩
    · refine ⟨fun hbehind => ?_, fun _ heq => ?_, fun _ _ => ⟨loc, rfl, hdescribes, hcolumn⟩, fun _ h => absurd hin h⟩
      · have hend := hbehind.1
        omega
      · omega

/-- The position after the carriage return of a line end is in front of the second line. -/
theorem locate_describes_carriage_return : InLineEnd "a\r\nb".toList 2 ∧
    ∃ loc, locate "a\r\nb" (2 : Nat) = .ok (some loc) ∧ loc.Describes "a\r\nb".toList 2 ∧ loc.column = 0 := by
  have hin : InLineEnd "a\r\nb".toList 2 := ⟨[], ⟨['a'], ['\r', '\n']⟩, ⟨[⟨['b'], []⟩], rfl⟩, by decide, by decide⟩
  exact ⟨hin, ((locate_describes "a\r\nb").2 2 (by decide)).2.2.1 hin (by decide)⟩

end LabBench.Pulse
