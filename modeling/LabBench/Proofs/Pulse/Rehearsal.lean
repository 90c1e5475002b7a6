import LabBench.Proofs.Pulse.Mirroring
/-!
# Rehearsals of pulse programs

A rehearsal carries out the commands of a program and counts the points of the waveforms instead of
keeping them. It is meant to find out whether the waveforms can be generated, but it misses two
things: it does not count the zeros that make the waveforms of several outputs equally long, because
it looks for the longest one among points that it has not kept, and it does not look at the number
of the marker. A *careful* rehearsal does both, and finds exactly the faults of the program.

## Main results

* `generate_fails_iff`
-/

namespace LabBench

open Act List

namespace Generator

/-! ### Counted points -/

/-- A waveform that has counted as many points as another one has kept. -/
structure Counts (g g' : Generator) : Prop where
  frequency : g.frequency = g'.frequency
  maxLength : g.maxLength = g'.maxLength
  length : g.length = g'.length
  kept : g'.rehearsal = false
  size : g'.wave.size = g'.length

/-- A rehearsed waveform that has counted no more points than another one. -/
structure Below (g g' : Generator) : Prop where
  frequency : g.frequency = g'.frequency
  maxLength : g.maxLength = g'.maxLength
  length : g.length ≤ g'.length
  rehearsal : g.rehearsal = true
  size : g.wave.size = 0

/-- A waveform that has counted as many points as a rehearsed one. -/
structure Matches (g g' : Generator) : Prop where
  frequency : g.frequency = g'.frequency
  maxLength : g.maxLength = g'.maxLength
  length : g.length = g'.length
  rehearsal : g'.rehearsal = true
  size : g'.wave.size = 0

theorem Counts.grown {g g' : Generator} (h : Counts g g') {points points' : Array Float}
    (hsize : points.size = points'.size) : Counts (grown points g) (grown points' g') where
  frequency := h.frequency
  maxLength := h.maxLength
  length := by simp [Generator.grown, h.length, hsize]
  kept := h.kept
  size := by simp [Generator.grown, h.kept, h.size]

theorem tracks_counts : Tracks Counts where
  frequency h := h.frequency
  fits h _ hfits := by
    rw [h.length, h.maxLength]
    exact hfits
  grown h _ _ hsize := h.grown hsize

theorem tracks_flip_counts : Tracks (flip Counts) where
  frequency h := h.frequency.symm
  fits h _ hfits := by
    rw [← h.length, ← h.maxLength]
    exact hfits
  grown h _ _ hsize := Counts.grown h hsize.symm

theorem tracks_below : Tracks Below where
  frequency h := h.frequency
  fits h _ hfits := by
    have hlen := h.length
    have hmax := h.maxLength
    omega
  grown h _ _ hsize :=
    ⟨h.frequency, h.maxLength, by have := h.length; simp [Generator.grown, hsize]; omega,
      h.rehearsal, by simp [Generator.grown, h.rehearsal, h.size]⟩

theorem tracks_matches : Tracks Matches where
  frequency h := h.frequency
  fits h _ hfits := by
    rw [h.length, h.maxLength]
    exact hfits
  grown h _ _ hsize :=
    ⟨h.frequency, h.maxLength, by simp [Generator.grown, h.length, hsize], h.rehearsal,
      by simp [Generator.grown, h.rehearsal, h.size]⟩

/-! ### Markers -/

/-- The number of a marker has to be one that can be told from others. -/
def settle (number : Value) : Act Generator PUnit :=
  if number.isSettled then pure ⟨⟩ else .fail (.plain .badType)

theorem settle_eq_ok {number : Value} {g t : Generator} {u : PUnit} :
    settle number g = (.ok u, t) ↔ number.isSettled = true ∧ g = t := by
  unfold settle
  cases number.isSettled with
  | true => exact pure_eq_ok.trans (by simp)
  | false =>
    constructor
    · intro h
      cases h
    · rintro ⟨h, -⟩
      cases h

theorem mark_of_rehearsal {g : Generator} (h : g.rehearsal = true) (name level : Value) :
    mark name level g = (.ok ⟨⟩, g) := by
  change (if g.rehearsal then pure ⟨⟩ else _ : Act Generator PUnit) g = _
  rw [if_pos h]
  rfl

theorem mark_eq_ok {g t : Generator} (h : g.rehearsal = false) {name level : Value} {u : PUnit} :
    mark name level g = (.ok u, t) ↔ name.isSettled = true ∧
      { g with markers := setMarker name g.wave.size level g.markers } = t := by
  have hmark : mark name level g = (if name.isSettled then
      (.ok ⟨⟩, { g with markers := setMarker name g.wave.size level g.markers })
      else (.error (.plain .badType), g) : Outcome PUnit × Generator) := by
    change (if g.rehearsal then pure ⟨⟩ else _ : Act Generator PUnit) g = _
    rw [h]
    cases name.isSettled <;> rfl
  rw [hmark]
  cases name.isSettled with
  | true =>
    constructor
    · intro heq
      cases heq
      exact ⟨rfl, rfl⟩
    · rintro ⟨-, rfl⟩
      rfl
  | false =>
    constructor
    · intro heq
      cases heq
    · rintro ⟨hsettle, -⟩
      cases hsettle

theorem covers_mark_settle (number level : Value) : Covers (flip Counts) (mark number level) (settle number) := by
  refine covers_iff.mpr fun g g' hg u t' h => ?_
  obtain ⟨hsettle, rfl⟩ := settle_eq_ok.mp h
  exact ⟨_, (mark_eq_ok hg.kept).mpr ⟨hsettle, rfl⟩, hg.frequency, hg.maxLength, hg.length, hg.kept, hg.size⟩

theorem covers_settle_mark (number level : Value) : Covers Counts (settle number) (mark number level) := by
  refine covers_iff.mpr fun g g' hg u t' h => ?_
  obtain ⟨hsettle, rfl⟩ := (mark_eq_ok hg.kept).mp h
  exact ⟨g, settle_eq_ok.mpr ⟨hsettle, rfl⟩, hg.frequency, hg.maxLength, hg.length, hg.kept, hg.size⟩

theorem covers_mark_below (number level : Value) : Covers Below (mark number level) (settle number) := by
  refine covers_iff.mpr fun g g' hg u t' h => ?_
  obtain ⟨-, rfl⟩ := settle_eq_ok.mp h
  exact ⟨g, mark_of_rehearsal hg.rehearsal number level, hg⟩

theorem covers_settle_matches {number : Value} (hsettle : number.isSettled = true) (level : Value) :
    Covers Matches (settle number) (mark number level) := by
  refine covers_iff.mpr fun g g' hg u t' h => ?_
  rw [mark_of_rehearsal hg.rehearsal] at h
  cases h
  exact ⟨g, settle_eq_ok.mpr ⟨hsettle, rfl⟩, hg⟩

end Generator

namespace Pulse

namespace Environment

open Generator (Counts tracks_counts tracks_flip_counts tracks_below tracks_matches)

variable {base : Environment} {gs : List (String × Generator)} {block : Block}

theorem matched_leveled {gs' : List (String × Generator)} (h : Matched Counts gs gs') :
    Matched Counts (leveled (·.length) gs) (leveled (·.wave.size) gs') := by
  have hsize {g g' : Generator} (hg : Counts g g') : g.length = g'.wave.size := hg.length.trans hg.size.symm
  unfold leveled
  rw [longestBy_eq_of_matched h hsize, Matched, forall₂_map_left_iff, forall₂_map_right_iff]
  exact h.imp fun a b hab => ⟨hab.1, hab.2.grown (by simp [hsize hab.2])⟩

theorem leveled_of_rehearsal (h : ∀ e ∈ gs, e.2.wave.size = 0) : leveled (·.wave.size) gs = gs := by
  have hlongest : longestBy (·.wave.size) gs = 0 := Nat.le_zero.mp (longestBy_le_iff.mpr fun e he => (h e he).le)
  unfold leveled
  rw [hlongest]
  simp

theorem leveled_of_length_le_one (h : gs.length ≤ 1) (size : Generator → Nat) : leveled size gs = gs := by
  match gs with
  | [] => rfl
  | [g] => simp [leveled, longestBy]

/-! ### Success -/

theorem congruence_alike {G : Generator → Generator → Prop} (hG : Generator.Tracks G) (base : Environment) :
    Congruence id none (Alike G base) none where
  fault := nofun
  kindOf := by
    rintro e e' he _
    obtain ⟨_, _, rfl⟩ := he.rest
    rfl
  valueAt := by
    rintro e e' he _
    obtain ⟨_, _, rfl⟩ := he.rest
    rfl
  folder := by
    rintro e e' he
    obtain ⟨_, _, rfl⟩ := he.rest
    rfl
  missingShapes := by
    rintro e e' he
    obtain ⟨_, _, rfl⟩ := he.rest
    rfl
  stack := by
    rintro e e' he _
    obtain ⟨_, _, rfl⟩ := he.rest
    exact he.update _ e.problems e.missingShapes
  note := by
    rintro e e' he _
    obtain ⟨_, _, rfl⟩ := he.rest
    exact he.update e.stack e.problems _
  problem message place _ := by
    refine .get_bind fun e e' he => ?_
    obtain ⟨_, _, rfl⟩ := he.rest
    refine (Mirrors.lift nofun _).bind fun location _ _ _ => .inl ⟨⟨⟩, _, _, rfl, rfl, ?_⟩
    exact he.update e.stack _ e.missingShapes
  onOutput name _ hact := covers_onOutput name (hact.covers hG)
  onAll hact := covers_onAll (hact.covers hG)

theorem performWith_covers {G : Generator → Generator → Prop} (hG : Generator.Tracks G) {rehearsal rehearsal' : Bool}
    {mark mark' : Value → Act Generator PUnit} {size size' : Generator → Nat} {e t' : Environment}
    (hfresh : G (.fresh e.frequency rehearsal) (.fresh e.frequency rehearsal'))
    (hmark : ∀ number, e.valueAt [markerName, "marker_num"] = .ok number → Covers G (mark number) (mark' number))
    (hlev : ∀ {gs gs' : List (String × Generator)}, Matched G gs gs' → gs.map (·.1) = e.generators.map (·.1) →
      Matched G (leveled size gs) (leveled size' gs'))
    (h : performWith (acquireBy mark') (levelBy size') rehearsal' block e = (.ok ⟨⟩, t')) :
    ∃ t, performWith (acquireBy mark) (levelBy size) rehearsal block e = (.ok ⟨⟩, t) := by
  obtain ⟨hmiss, hplay, hprob⟩ := performWith_eq_ok.mp h
  have hstarted : Alike G e (started rehearsal e) (started rehearsal' e) := by
    refine ⟨⟨rehearsal', _, rfl⟩, ?_, by simp [started], rfl⟩
    simp only [started, forall₂_map_left_iff, forall₂_map_right_iff]
    exact forall₂_same.mpr fun g _ => ⟨rfl, hfresh⟩
  have hcong := congruence_alike hG e
  have hacq : Covers (Alike G e) (acquireBy mark) (acquireBy mark') := by
    refine hcong.acquireBy fun he number hnum name => covers_onOutput name (hmark number ?_)
    rw [← hnum, valueAt, valueAt, he.values]
  have hss : ∀ m ∈ (none : Option Nat), AllWrittenIn m block := nofun
  have hcovers := hcong.within .block (hcong.playAllWith hacq (covers_levelBy hlev) hss)
  rw [relocateAll_id] at hcovers
  obtain ⟨t, ht, halike⟩ := covers_iff.mp hcovers _ _ hstarted _ _ hplay
  obtain ⟨_, _, rfl⟩ := halike.rest
  exact ⟨t, performWith_eq_ok.mpr ⟨hmiss, ht, hprob⟩⟩

def performCarefully (block : Block) : Act Environment PUnit :=
  performWith (acquireBy Generator.settle) (levelBy (·.length)) true block

variable {e t' : Environment}

theorem counts_fresh (frequency : Value) : Counts (.fresh frequency true) (.fresh frequency false) :=
  ⟨rfl, rfl, rfl, rfl, rfl⟩

theorem performCarefully_of_perform (h : Program.perform block false e = (.ok ⟨⟩, t')) :
    ∃ t, performCarefully block e = (.ok ⟨⟩, t) :=
  performWith_covers tracks_counts (counts_fresh _) (fun number _ => Generator.covers_settle_mark number _)
    (fun hmatched _ => matched_leveled hmatched) (perform_eq_ok.mp h)

theorem perform_of_performCarefully (h : performCarefully block e = (.ok ⟨⟩, t')) :
    ∃ t, Program.perform block false e = (.ok ⟨⟩, t) := by
  obtain ⟨t, ht⟩ := performWith_covers tracks_flip_counts (counts_fresh _)
    (fun number _ => Generator.covers_mark_settle number _) (fun hmatched _ => (matched_leveled hmatched.flip).flip) h
  exact ⟨t, perform_eq_ok.mpr ht⟩

theorem rehearsal_of_performCarefully (h : performCarefully block e = (.ok ⟨⟩, t')) :
    ∃ t, Program.perform block true e = (.ok ⟨⟩, t) := by
  have hlev {gs gs' : List (String × Generator)} (hmatched : Matched Generator.Below gs gs') :
      Matched Generator.Below (leveled (·.wave.size) gs) (leveled (·.length) gs') := by
    have hempty : ∀ e ∈ gs, e.2.wave.size = 0 := fun e he =>
      let ⟨_, _, _, hbelow⟩ := hmatched.exists_right he
      hbelow.size
    rw [leveled_of_rehearsal hempty, leveled, Matched, forall₂_map_right_iff]
    exact hmatched.imp fun a b hab =>
      ⟨hab.1, { hab.2 with length := hab.2.length.trans (Nat.le_add_right _ _) }⟩
  obtain ⟨t, ht⟩ := performWith_covers tracks_below ⟨rfl, rfl, Nat.le_refl _, rfl, rfl⟩
    (fun number _ => Generator.covers_mark_below number _) (fun hmatched _ => hlev hmatched) h
  exact ⟨t, perform_eq_ok.mpr ht⟩

/-- A program with one output at most can be rehearsed carefully if it can be rehearsed, unless the
number of its marker is none. -/
theorem performCarefully_of_rehearsal (hone : e.generators.length ≤ 1)
    (hsettle : ∀ number, e.valueAt [markerName, "marker_num"] = .ok number → number.isSettled = true)
    (h : Program.perform block true e = (.ok ⟨⟩, t')) : ∃ t, performCarefully block e = (.ok ⟨⟩, t) := by
  refine performWith_covers tracks_matches ⟨rfl, rfl, rfl, rfl, rfl⟩
    (fun number hnum => Generator.covers_settle_matches (hsettle number hnum) _) (fun {gs gs'} hmatched hnames => ?_)
    (perform_eq_ok.mp h)
  have hlen : gs.length ≤ 1 := by
    have hsame := congrArg length hnames
    rw [length_map, length_map] at hsame
    omega
  have hempty : ∀ e ∈ gs', e.2.wave.size = 0 := fun e he =>
    let ⟨_, _, _, hmatches⟩ := hmatched.flip.exists_right he
    hmatches.size
  rw [leveled_of_length_le_one hlen, leveled_of_rehearsal hempty]
  exact hmatched

end Environment

namespace Program

open Environment

/-- A rehearsal that looks at the number of the marker, and counts the zeros that make the waveforms
equally long. -/
def rehearse : Act Program PUnit :=
  fun p =>
    let (r, env) := performCarefully p.block p.env
    (r, { p with env })

theorem rehearse_fails {p : Program} : Fails rehearse p ↔ Fails (performCarefully p.block) p.env := by
  unfold Fails rehearse
  rcases performCarefully p.block p.env with ⟨f | _, t⟩
  · exact iff_of_true ⟨f, _, rfl⟩ ⟨f, t, rfl⟩
  · refine iff_of_false ?_ ?_ <;> rintro ⟨_, _, h⟩ <;> cases h

theorem generate_fails {rehearsal : Bool} {p : Program} :
    Fails (generate rehearsal) p ↔ Fails (perform p.block rehearsal) p.env := by
  unfold Fails generate
  rcases perform p.block rehearsal p.env with ⟨f | _, t⟩
  · exact iff_of_true ⟨f, _, rfl⟩ ⟨f, t, rfl⟩
  · refine iff_of_false ?_ ?_ <;> rintro ⟨_, _, h⟩ <;> cases h

/-- The waveforms of a program cannot be generated if and only if its careful rehearsal fails: an output has too many
points, zeros included, or the number of the marker is none. A rehearsal that fails is always right, and exact if
there are not several outputs. -/
theorem generate_fails_iff (p : Program) : (Act.Fails (generate false) p ↔ Act.Fails rehearse p) ∧
    (Act.Fails (generate true) p → Act.Fails (generate false) p) ∧
    (p.env.generators.length ≤ 1 →
      (∀ number, p.env.valueAt [markerName, "marker_num"] = .ok number → number.isSettled = true) →
      (Act.Fails (generate true) p ↔ Act.Fails (generate false) p)) := by
  have hexact : Act.Fails (generate false) p ↔ Act.Fails rehearse p := by
    rw [generate_fails, rehearse_fails, Act.fails_iff, Act.fails_iff, not_iff_not]
    exact ⟨fun ⟨_, _, h⟩ => ⟨⟨⟩, performCarefully_of_perform h⟩, fun ⟨_, _, h⟩ => ⟨⟨⟩, perform_of_performCarefully h⟩⟩
  have hright : Act.Fails (generate true) p → Act.Fails (generate false) p := by
    rw [hexact, generate_fails, rehearse_fails, Act.fails_iff, Act.fails_iff]
    exact fun hfails ⟨_, _, h⟩ => hfails ⟨⟨⟩, rehearsal_of_performCarefully h⟩
  refine ⟨hexact, hright, fun hone hsettled => ⟨hright, ?_⟩⟩
  rw [hexact, generate_fails, rehearse_fails, Act.fails_iff, Act.fails_iff]
  exact fun hfails ⟨_, _, h⟩ => hfails ⟨⟨⟩, performCarefully_of_rehearsal hone hsettled h⟩

end Program

end Pulse

end LabBench
