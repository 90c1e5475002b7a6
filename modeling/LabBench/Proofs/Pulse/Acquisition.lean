import LabBench.Proofs.Pulse.Afresh
import LabBench.Proofs.Pulse.Alignment
import LabBench.Proofs.Pulse.Rehearsal
import LabBench.Proofs.Pulse.Soundness
import LabBench.Proofs.Waveform.Markers
/-!
# The marker of an acquisition

An accepted program has at most one acquisition, and it does not stand in a loop. When it is reached,
all waveforms have equally many points, and from there on the marker of its output is on. No other
marker is ever changed.

The marker needs a point to be on at. Where no point comes after the acquisition, the waveform of its
output gets one more zero when it is completed. The other waveforms do not, so that they are shorter.

## Main results

* `sizes_of_generate`, `markers_of_generate`
-/

namespace LabBench

open Act Generator Entries List

/-! ### Completed waveforms -/

theorem Marker.levels_single (k n : Nat) (level : Value) : Marker.levels (max n (k + 1)) [(k, level)] =
      replicate k (.flag false) ++ replicate (max n (k + 1) - k) level := by
  have hrest : max n (k + 1) - k = max n (k + 1) - (k + 1) + 1 := by omega
  rw [hrest, replicate_succ]
  rfl

namespace Generator

variable {g : Generator}

/-- A waveform one of whose markers has another level from the last point on. -/
def switched (number level : Value) (g : Generator) : Generator :=
  { g with markers := setMarker number g.wave.size level g.markers }

theorem waveform_of_unmarked (h : g.markers = []) : g.waveform.data.size = g.wave.size ∧ g.waveform.markers = [] := by
  simp [waveform, markedLength, h]

/-- A marker that is switched on once. There is a point at which it is on. -/
theorem waveform_of_marked {number level : Value} {k : Nat} (h : g.markers = [(number, [(k, level)])]) :
    g.waveform.data.size = max g.wave.size (k + 1) ∧ g.waveform.markers = [(number, replicate k (.flag false) ++
        replicate (g.waveform.data.size - k) level)] := by
  have hlen : g.markedLength = k + 1 := by
    rw [markedLength, h]
    exact Nat.zero_max _ |>.trans (Nat.zero_max _)
  have hsize : g.waveform.data.size = max g.wave.size (k + 1) := by rw [size_data, hlen]
  refine ⟨hsize, ?_⟩
  have hmarkers : g.waveform.markers = [(number, Marker.levels g.waveform.data.size [(k, level)])] := by
    rw [waveform, h]
    rfl
  rw [hmarkers, hsize, Marker.levels_single]

end Generator

namespace Pulse

namespace Environment

/-! ### Markers -/

/-- No waveform has a marker. -/
def Unmarked (e : Environment) : Prop :=
  ∀ g ∈ e.generators, g.2.markers = []

/-- One marker of one output is on from a point on, and there is no other one. -/
def MarkedFrom (number : Value) (output : String) (k : Nat) (e : Environment) : Prop :=
  ∀ g ∈ e.generators, g.2.markers = if g.1 = output then [(number, [(k, .flag true)])] else []

variable {e e' : Environment} {number : Value} {output : String} {k : Nat} {u : PUnit}

theorem Continues.exists_left (h : e.Continues e') {g' : String × Generator} (hg' : g' ∈ e'.generators) :
    ∃ g ∈ e.generators, g'.1 = g.1 ∧ g.2.Continues g'.2 :=
  h.generators.flip.exists_right hg'

theorem Unmarked.continues (h : e.Unmarked) (hcontinues : e.Continues e') : e'.Unmarked := by
  intro g' hg'
  obtain ⟨g, hg, -, hgrown⟩ := hcontinues.exists_left hg'
  rw [hgrown.markers_eq, h g hg]

theorem MarkedFrom.continues (h : e.MarkedFrom number output k) (hcontinues : e.Continues e') :
    e'.MarkedFrom number output k := by
  intro g' hg'
  obtain ⟨g, hg, hname, hgrown⟩ := hcontinues.exists_left hg'
  rw [hgrown.markers_eq, h g hg, hname]

/-- An acquisition switches a marker on in the waveform of its output, at the point where it stands. -/
theorem playAcquisition_eq_ok (hkept : ∀ g ∈ e.generators, g.2.rehearsal = false)
    (h : playAcquisition e = (.ok u, e')) : ∃ number output g, e.valueAt [markerName, "marker_num"] = .ok number ∧
      e.valueAt [markerName, "output"] = .ok (.text output) ∧ get? output e.generators = some g ∧
      e' = { e with generators := put output (g.switched number (.flag true)) e.generators } := by
  change (lift (e.valueAt [markerName, "marker_num"]) >>= _) e = _ at h
  obtain ⟨number, hnum, h⟩ := lift_bind_eq_ok.mp h
  obtain ⟨value, hval, h⟩ := lift_bind_eq_ok.mp h
  cases value with
  | text output =>
    change onOutput output (Generator.mark number (.flag true)) e = _ at h
    cases hget : get? output e.generators with
    | none =>
      rw [onOutput_of_none hget] at h
      cases h
    | some g =>
      rcases hmark : Generator.mark number (.flag true) g with ⟨r, g'⟩
      rw [onOutput_of_some hget hmark] at h
      cases h
      have hreh := hkept _ (mem_of_get? hget)
      obtain ⟨-, rfl⟩ := (mark_eq_ok hreh).mp hmark
      exact ⟨number, output, g, hnum, hval, hget, rfl⟩
  | tuple items =>
    dsimp only at h
    cases hsettle : (Value.tuple items).isSettled <;> rw [hsettle] at h <;> cases h
  | _ => cases h

/-- The marker of an acquisition, where there is none yet and all waveforms have equally many points. -/
theorem marked_of_playAcquisition {frequency : Value} (hsteady : Steady frequency e)
    (hunmark : e.Unmarked) (hnd : (e.generators.map (·.1)).Nodup) (h : playAcquisition e = (.ok u, e')) :
    ∃ number output k, e.valueAt [markerName, "marker_num"] = .ok number ∧
      e.valueAt [markerName, "output"] = .ok (.text output) ∧ output ∈ e.generators.map (·.1) ∧
      (∀ g ∈ e.generators, g.2.wave.size = k) ∧ (∀ g ∈ e'.generators, g.2.wave.size = k) ∧
      e'.MarkedFrom number output k ∧ e'.problems = e.problems := by
  have hkept : ∀ g ∈ e.generators, g.2.rehearsal = false := fun g hg => congrArg Prod.snd (hsteady.manner g hg)
  obtain ⟨number, output, g, hnum, hout, hget, rfl⟩ := playAcquisition_eq_ok hkept h
  have hg := mem_of_get? hget
  have hsize : ∀ g' ∈ e.generators, g'.2.wave.size = g.wave.size := fun g' hg' => hsteady.aligned g' hg' _ hg
  have hput : ∀ g' ∈ put output (g.switched number (.flag true)) e.generators, g'.2.wave.size = g.wave.size ∧
        g'.2.markers = if g'.1 = output then [(number, [(g.wave.size, .flag true)])] else [] := by
    intro g' hg'
    by_cases hname : g'.1 = output
    · -- there is one waveform of this name, and it is the one with the marker
      have hget' := (get?_eq_some_iff (nodup_keys_put hnd)).mpr hg'
      rw [get?_put, hname, if_pos (beq_self_eq_true output)] at hget'
      rw [if_pos hname, ← Option.some.inj hget', switched, hunmark _ hg]
      exact ⟨rfl, rfl⟩
    · rcases mem_or_mem_of_mem_put hg' with rfl | hold
      · exact absurd rfl hname
      · rw [if_neg hname]
        exact ⟨hsize g' hold, hunmark g' hold⟩
  exact ⟨number, output, g.wave.size, hnum, hout, mem_map_of_mem hg, hsize,
    fun g' hg' => (hput g' hg').1, fun g' hg' => (hput g' hg').2, rfl⟩

/-! ### Whole programs -/

theorem Aligned.exists_size (h : e.Aligned) : ∃ n, ∀ g ∈ e.generators, g.2.wave.size = n := by
  cases hgens : e.generators with
  | nil => exact ⟨0, fun _ hg => nomatch hg⟩
  | cons g rest =>
    rw [Aligned, hgens] at h
    exact ⟨g.2.wave.size, fun a ha => h a ha g mem_cons_self⟩

theorem playAll_append (ss rest : List Statement) (e : Environment) :
    playAll (ss ++ rest) e = (playAll ss >>= fun _ => playAll rest) e := by
  induction ss generalizing e with
  | nil => rw [nil_append, playAll]; rfl
  | cons s ss ih =>
    rw [cons_append, playAll, playAll]
    rcases hs : playStatement s e with ⟨f | u, t⟩
    · rw [bind_of_error hs, bind_of_error (bind_of_error hs)]
    · rw [bind_of_ok hs, ih, bind_congr (bind_of_ok hs) fun _ _ _ => rfl]

theorem perform_eq_ok_iff {block : Block} : Program.perform block false e = (.ok u, e') ↔ e.missing = .ok [] ∧
      within .block (playAll block) (started false e) = (.ok ⟨⟩, e') ∧ e'.problems = [] := by
  rw [perform_eq_ok, ← playAcquisition_eq, ← level_eq, performWith_eq_ok, playAllWith_eq]

theorem unmarked_started (e : Environment) : (started false e).Unmarked := by
  intro g hg
  obtain ⟨_, _, rfl⟩ := mem_map.mp hg
  rfl

/-- In a program without an acquisition no marker is ever switched on. -/
theorem perform_of_quiet {block : Block} (hquiet : Quiet block)
    (h : Program.perform block false e = (.ok u, e')) : e'.Aligned ∧ e'.Unmarked := by
  obtain ⟨-, hplay, -⟩ := perform_eq_ok_iff.mp h
  have hsteady := steady_of_within (steady_of_playAll block) (steady_started e) hplay
  have hcontinues := ((lasting_continues _).within .block (preserves_playAll block hquiet)).apply hplay (.refl _)
  exact ⟨hsteady.aligned, (unmarked_started e).continues hcontinues⟩

/-- In a program with one acquisition its marker is switched on as soon as it is reached, and stays as it is. -/
theorem perform_of_acquire {before after : Block} {place : Nat}
    (hpre : Quiet before) (hafter : Quiet after) (hnd : (e.generators.map (·.1)).Nodup)
    (h : Program.perform (before ++ .acquire place :: after) false e = (.ok u, e')) :
    ∃ number output k t, e.valueAt [markerName, "marker_num"] = .ok number ∧
      e.valueAt [markerName, "output"] = .ok (.text output) ∧ output ∈ e.generators.map (·.1) ∧
      Program.perform before false e = (.ok ⟨⟩, t) ∧ (∀ g ∈ t.generators, g.2.wave.size = k) ∧
      e'.Aligned ∧ e'.MarkedFrom number output k ∧ ∀ g ∈ e'.generators, k ≤ g.2.wave.size := by
  obtain ⟨hmiss, hplay, hprob⟩ := perform_eq_ok_iff.mp h
  have haligned := (steady_of_within (steady_of_playAll _) (steady_started e) hplay).aligned
  obtain ⟨t₃, hall, rfl⟩ := within_eq_ok.mp hplay
  rw [playAll_append] at hall
  obtain ⟨_, t₁, hplay₁, hrest⟩ := bind_eq_ok.mp hall
  rw [playAll, playStatement] at hrest
  obtain ⟨_, t₂, hacq, hplay₃⟩ := bind_eq_ok.mp hrest
  have hsteady₁ := steady_of_playAll before ((steady_started e).withStack _) hplay₁
  have hcontinues₁ : (started false e).Continues t₁ :=
    (preserves_playAll before hpre).apply hplay₁ ((Continues.refl _).update _ _)
  have hcontinues₃ := (preserves_playAll after hafter).apply hplay₃ (.refl _)
  -- names and values are those of the start
  have hnames : t₁.generators.map (·.1) = e.generators.map (·.1) := by
    rw [hcontinues₁.generators.map_fst_eq]
    simp [started]
  have hvals : t₁.values = e.values := congrArg Fixtures.values ((keeps_playAll before).apply hplay₁)
  obtain ⟨number, output, k, hnum, hout, hmem, hsize₁, hsize₂, hmark, hsame⟩ :=
    marked_of_playAcquisition hsteady₁ ((unmarked_started e).continues hcontinues₁) (hnames ▸ hnd) hacq
  have hproblems₁ : t₁.problems = [] := by
    rw [← hsame]
    exact prefix_nil.mp (hprob ▸ hcontinues₃.problems)
  rw [valueAt, hvals] at hnum hout
  refine ⟨number, output, k, { t₁ with stack := t₁.stack.tail }, hnum, hout, hnames ▸ hmem,
    perform_eq_ok_iff.mpr ⟨hmiss, within_eq_ok.mpr ⟨t₁, hplay₁, rfl⟩, hproblems₁⟩, hsize₁, haligned,
    hmark.continues (hcontinues₃.update _ _), fun g hg => ?_⟩
  obtain ⟨g₂, hg₂, -, hgrown⟩ := hcontinues₃.exists_left hg
  rw [← hsize₂ g₂ hg₂]
  exact hgrown.size_le

end Environment

/-- An accepted program has at most one acquisition, which does not stand in a loop. -/
theorem Orderly.quiet_or_acquires {σ : Scheme} {b : Block} (h : Orderly σ b) :
    Quiet b ∨ ∃ before place after, b = before ++ .acquire place :: after ∧ Quiet before ∧ Quiet after := by
  by_cases hquiet : ∀ s ∈ b, s.isAcquisition = false
  · refine .inl ?_
    rw [Quiet, allInside_eq_flatMap, forall_mem_flatMap]
    refine fun s hs => forall_mem_cons.mpr ⟨hquiet s hs, fun t ht => ?_⟩
    have hdecl := (h.inside s hs t ht).1
    cases t with
    | acquire place => cases hdecl
    | _ => rfl
  · obtain ⟨s, hs, hacq⟩ : ∃ s ∈ b, s.isAcquisition = true := by simpa using hquiet
    obtain ⟨before, after, rfl⟩ := append_of_mem hs
    cases s with
    | acquire place =>
      have hcnt := h.acquisition
      rw [allInside_eq_flatMap, flatMap_append, flatMap_cons, ← allInside_eq_flatMap,
        ← allInside_eq_flatMap, countP_append, countP_append, countP_cons_of_pos rfl] at hcnt
      have hnone {ss : List Statement} (hss : (allInside ss).countP Statement.isAcquisition = 0) : Quiet ss := by
        simpa [Quiet] using countP_eq_zero.mp hss
      exact .inr ⟨before, place, after, rfl, hnone (by omega), hnone (by omega)⟩
    | _ => cases hacq

theorem Quiet.top {ss : List Statement} (h : Quiet ss) {s : Statement} (hs : s ∈ ss) : s.isAcquisition = false := by
  refine h s ?_
  rw [allInside_eq_flatMap]
  exact mem_flatMap_of_mem hs mem_cons_self

theorem Quiet.takeWhile_eq {before after : Block} {place : Nat} (h : Quiet before) :
    (before ++ .acquire place :: after).takeWhile (fun s => !s.isAcquisition) = before := by
  rw [takeWhile_append_of_pos fun s hs => by rw [h.top hs]; rfl, takeWhile_cons_of_neg, append_nil]
  simp [Statement.isAcquisition]

namespace Program

open Environment

/-- A program has one acquisition, at the top level, which is reached when all outputs have so many points. -/
def AcquiresAt (p : Program) (k : Nat) : Prop :=
  ∃ before place after e, p.block = before ++ .acquire place :: after ∧ Quiet before ∧ Quiet after ∧
    perform before false p.env = (.ok ⟨⟩, e) ∧ ∀ g ∈ e.generators, g.2.wave.size = k

structure Marks (p : Program) (number : Value) (output : String) : Prop where
  number : p.env.valueAt [markerName, "marker_num"] = .ok number
  output : p.env.valueAt [markerName, "output"] = .ok (.text output)

variable {source : String} {folder : Option Folder} {filename : String} {p p' : Program}
  {waveforms : List (String × Waveform × Nat)}

theorem AcquiresAt.eq {k k' : Nat} (h : p.AcquiresAt k) (h' : p.AcquiresAt k') (houts : p.env.generators ≠ []) :
    k = k' := by
  obtain ⟨before, place, after, e, hblk, hpre, -, hrun, hk⟩ := h
  obtain ⟨before', place', after', e', hblk', hpre', -, hrun', hk'⟩ := h'
  obtain rfl : before = before' := by
    rw [← hpre.takeWhile_eq, ← hblk, hblk', hpre'.takeWhile_eq]
  cases hrun.symm.trans hrun'
  have hnames : e.scheme.outputs = p.env.scheme.outputs :=
    congrArg Scheme.outputs ((keeps_scheme_perform before false).apply hrun)
  obtain ⟨g, hg⟩ : ∃ g, g ∈ e.generators := by
    refine exists_mem_of_ne_nil _ fun hnil => houts ?_
    rw [scheme, scheme, hnil] at hnames
    exact map_eq_nil_iff.mp hnames.symm
  rw [← hk g hg, ← hk' g hg]

theorem outputs_after (h : ofSource source folder filename = .ok p) (uses : List Use) :
    (p.after uses).block = p.block ∧ (p.after uses).env.generators.map (·.1) = p.block.outputs ∧
      Orderly p.block.scheme p.block := by
  obtain ⟨b, hread, -⟩ := Outcome.bind_eq_ok.mp h
  have hadm := (exists_ofSource_iff hread).mp ⟨p, h⟩
  obtain ⟨rfl, hertz, -, henv⟩ := exists_environment_of_ofSource hread h
  have hnd : (p.env.values.map (·.1)).Nodup := by
    rw [henv]
    exact nodup_keys_ofList _
  have hdescends := (descends_refl hnd).after uses
  have hnames := congrArg (fun e : Environment => e.generators.map (·.1)) hdescends.env
  have houts : p.env.generators.map (·.1) = p.block.outputs := by
    rw [henv]
    exact (map_map ..).trans (map_id _)
  refine ⟨hdescends.block, ?_, hadm.orderly⟩
  simpa [renewed, Function.comp_def, houts] using hnames

theorem generate_eq_ok (hrun : generate false p = (.ok waveforms, p')) :
    ∃ e, perform p.block false p.env = (.ok ⟨⟩, e) ∧
      waveforms = e.generators.map fun g => (g.1, g.2.waveform, g.2.length) := by
  unfold generate at hrun
  rcases hperf : perform p.block false p.env with ⟨f | u, e⟩
  · rw [hperf] at hrun
    cases hrun
  · rw [hperf] at hrun
    cases hrun
    exact ⟨e, rfl, rfl⟩

/-- All waveforms before they are completed: they have equally many points, and there is no marker, or there is the one
of the acquisition, which was reached at one of these points or after the last one. -/
theorem generate_cases (h : ofSource source folder filename = .ok p) (uses : List Use)
    (hrun : generate false (p.after uses) = (.ok waveforms, p')) :
    ∃ (e : Environment) (n : Nat), waveforms = e.generators.map (fun g => (g.1, g.2.waveform, g.2.length)) ∧
      e.generators.map (·.1) = p.block.outputs ∧ (∀ g ∈ e.generators, g.2.wave.size = n) ∧
      (Quiet p.block ∧ e.Unmarked ∨ ∃ number output k, (p.after uses).Marks number output ∧ output ∈ p.block.outputs ∧
          (p.after uses).AcquiresAt k ∧ e.MarkedFrom number output k ∧ k ≤ n) := by
  obtain ⟨hblk, hnames, horderly⟩ := outputs_after h uses
  obtain ⟨e, hperf, hwaves⟩ := generate_eq_ok hrun
  have hoften : e.generators.map (·.1) = p.block.outputs :=
    (congrArg Scheme.outputs ((keeps_scheme_perform _ false).apply hperf)).trans hnames
  rw [hblk] at hperf
  rcases horderly.quiet_or_acquires with hquiet | ⟨before, place, after, hspl, hpre, hafter⟩
  · obtain ⟨haligned, hunmark⟩ := perform_of_quiet hquiet hperf
    obtain ⟨n, hn⟩ := haligned.exists_size
    exact ⟨e, n, hwaves, hoften, hn, .inl ⟨hquiet, hunmark⟩⟩
  · rw [hspl] at hperf
    obtain ⟨number, output, k, t, hnum, hout, hmem, hstart, hk, haligned, hmark, hle⟩ :=
      perform_of_acquire hpre hafter (hnames ▸ p.block.nodup_outputs) hperf
    obtain ⟨n, hn⟩ := haligned.exists_size
    rw [hnames] at hmem
    -- the output of the acquisition is one of the outputs, so there is a waveform to compare with
    obtain ⟨g, hg, -⟩ := mem_map.mp (hoften.symm ▸ hmem)
    exact ⟨e, n, hwaves, hoften, hn, .inr ⟨number, output, k, ⟨hnum, hout⟩, hmem,
      ⟨before, place, after, t, hblk.trans hspl, hpre, hafter, hstart, hk⟩, hmark, hn g hg ▸ hle g hg⟩⟩

/-- The waveform of an output has a point for the marker of an acquisition that comes after its last point. -/
def CompletedAfter (p : Program) (n : Nat) (output : String) : Prop :=
  p.AcquiresAt n ∧ ∃ number, p.Marks number output

theorem Marks.eq {number number' : Value} {output output' : String} (h : p.Marks number output)
    (h' : p.Marks number' output') : output = output' := by
  cases h.output.symm.trans h'.output
  rfl

/-- All waveforms have equally many points, with one exception: if all of them are there when the acquisition is
reached, then the waveform of its output has one more. Every marker has a level for every point of its waveform. -/
theorem sizes_of_generate (h : ofSource source folder filename = .ok p) (uses : List Use)
    (hrun : generate false (p.after uses) = (.ok waveforms, p')) :
    ∃ n, ∀ w ∈ waveforms, (w.2.1.data.size = n ∧ ¬(p.after uses).CompletedAfter n w.1 ∨
        w.2.1.data.size = n + 1 ∧ (p.after uses).CompletedAfter n w.1) ∧
      ∀ m ∈ w.2.1.markers, m.2.length = w.2.1.data.size := by
  obtain ⟨hblock, hnames, -⟩ := outputs_after h uses
  obtain ⟨e, n, rfl, hoften, hn, hcases⟩ := generate_cases h uses hrun
  refine ⟨n, forall_mem_map.mpr fun g hg => ?_⟩
  dsimp only
  rcases hcases with ⟨hquiet, hunmarked⟩ | ⟨number, output, k, hmarks, hmem, hreached, hmarked, hle⟩
  · obtain ⟨hsize, hmarkers⟩ := waveform_of_unmarked (hunmarked g hg)
    refine ⟨.inl ⟨hsize.trans (hn g hg), fun ⟨⟨before, place, after, _, hsplit, _⟩, _⟩ => ?_⟩, ?_⟩
    · have hmember : Statement.acquire place ∈ p.block := by
        rw [← hblock, hsplit]
        exact mem_append_right _ mem_cons_self
      cases hquiet.top hmember
    · rw [hmarkers]
      exact fun m hm => nomatch hm
  · have houtputs : (p.after uses).env.generators ≠ [] := by
      intro hnil
      rw [hnil] at hnames
      exact not_mem_nil (hnames ▸ hmem)
    by_cases hname : g.1 = output
    · obtain ⟨hsize, hmarkers⟩ := waveform_of_marked ((hmarked g hg).trans (if_pos hname))
      rw [hn g hg] at hsize
      constructor
      · rcases hle.lt_or_eq with hlt | rfl
        · refine .inl ⟨by omega, fun hcompleted => ?_⟩
          exact absurd (hreached.eq hcompleted.1 houtputs) hlt.ne
        · exact .inr ⟨by omega, hreached, number, hname ▸ hmarks⟩
      · rw [hmarkers, forall_mem_singleton, length_append, length_replicate, length_replicate]
        omega
    · obtain ⟨hsize, hmarkers⟩ := waveform_of_unmarked ((hmarked g hg).trans (if_neg hname))
      refine ⟨.inl ⟨hsize.trans (hn g hg), fun ⟨_, _, hmarks'⟩ => hname (hmarks'.eq hmarks)⟩, ?_⟩
      rw [hmarkers]
      exact fun m hm => nomatch hm

theorem exists_generate_of_any {uses : List Use} {good : List (String × Waveform × Nat) → Bool}
    (h : (ofSource source).toOption.any (fun p => (generate false (p.after uses)).1.toOption.any good) = true) :
    ∃ p waveforms p', ofSource source = .ok p ∧ generate false (p.after uses) = (.ok waveforms, p') ∧
      good waveforms = true := by
  rcases hsrc : ofSource source with f | p
  · rw [hsrc] at h
    cases h
  · rw [hsrc] at h
    rcases hrun : generate false (p.after uses) with ⟨f | waveforms, p'⟩
    · simp [Except.toOption, hrun] at h
    · exact ⟨p, waveforms, p', rfl, hrun, by simpa [Except.toOption, hrun] using h⟩

def choosing (number : Int) (output : String) : List Use :=
  [.setValue [markerName, "marker_num"] (.int number), .setValue [markerName, "output"] (.text output)]

/-- An acquisition at the end of a program: its output has four points, the other one three. -/
theorem sizes_of_last_acquisition : ∃ p waveforms p', ofSource "output a, b\n3 s\nacquire\n" = .ok p ∧
    generate false (p.after (choosing 1 "a")) = (.ok waveforms, p') ∧
    waveforms.map (fun w => (w.1, w.2.1.data.size)) = [("a", 4), ("b", 3)] ∧
    ∃ n, ∀ w ∈ waveforms, (w.2.1.data.size = n ∧ ¬(p.after (choosing 1 "a")).CompletedAfter n w.1 ∨
        w.2.1.data.size = n + 1 ∧ (p.after (choosing 1 "a")).CompletedAfter n w.1) ∧
      ∀ m ∈ w.2.1.markers, m.2.length = w.2.1.data.size := by
  have hruns : (ofSource "output a, b\n3 s\nacquire\n").toOption.any (fun p =>
      (generate false (p.after (choosing 1 "a"))).1.toOption.any fun waveforms =>
        waveforms.map (fun w => (w.1, w.2.1.data.size)) = [("a", 4), ("b", 3)]) = true := by
    decide +kernel
  obtain ⟨p, waveforms, p', hsource, hrun, hsizes⟩ := exists_generate_of_any hruns
  exact ⟨p, waveforms, p', hsource, hrun, of_decide_eq_true hsizes, sizes_of_generate hsource _ hrun⟩

/-- There are markers only if there is an acquisition. Then its output has one marker, which is off at the points that
come before the acquisition and on from there to the end, and the other outputs have none. -/
theorem markers_of_generate (h : ofSource source folder filename = .ok p) (uses : List Use)
    (hrun : generate false (p.after uses) = (.ok waveforms, p')) :
    waveforms.map (·.1) = p.block.outputs ∧ (Quiet p.block ∧ (∀ w ∈ waveforms, w.2.1.markers = []) ∨
        ∃ number output k, (p.after uses).Marks number output ∧ output ∈ p.block.outputs ∧
          (p.after uses).AcquiresAt k ∧ ∀ w ∈ waveforms, (w.1 = output → k < w.2.1.data.size ∧ w.2.1.markers = [(number,
              replicate k (.flag false) ++ replicate (w.2.1.data.size - k) (.flag true))]) ∧
            (w.1 ≠ output → w.2.1.markers = [])) := by
  obtain ⟨e, n, rfl, hoften, hn, hcases⟩ := generate_cases h uses hrun
  refine ⟨by rw [← hoften, map_map]; rfl, ?_⟩
  rcases hcases with ⟨hquiet, hunmarked⟩ | ⟨number, output, k, hmarks, hmem, hreached, hmarked, hle⟩
  · exact .inl ⟨hquiet, forall_mem_map.mpr fun g hg => (waveform_of_unmarked (hunmarked g hg)).2⟩
  · refine .inr ⟨number, output, k, hmarks, hmem, hreached, forall_mem_map.mpr fun g hg => ⟨?_, ?_⟩⟩
    · intro hname
      obtain ⟨hsize, hmarkers⟩ := waveform_of_marked ((hmarked g hg).trans (if_pos hname))
      exact ⟨by dsimp only; omega, hmarkers⟩
    · intro hname
      exact (waveform_of_unmarked ((hmarked g hg).trans (if_neg hname))).2

/-- A marker that is off at two points and then on at three. -/
theorem markers_of_early_acquisition : ∃ p waveforms p',
    ofSource "output a, b\ndelay d = 1 s\n(d d):b\nacquire\ntimes 3 \x7b\n(d):a\n\x7d\n" = .ok p ∧
    generate false (p.after (choosing 2 "b")) = (.ok waveforms, p') ∧
    waveforms.map (fun w => (w.1, w.2.1.data.size)) = [("a", 5), ("b", 5)] ∧
    waveforms.map (·.1) = p.block.outputs ∧ (Quiet p.block ∧ (∀ w ∈ waveforms, w.2.1.markers = []) ∨
        ∃ number output k, (p.after (choosing 2 "b")).Marks number output ∧ output ∈ p.block.outputs ∧
          (p.after (choosing 2 "b")).AcquiresAt k ∧ ∀ w ∈ waveforms,
            (w.1 = output → k < w.2.1.data.size ∧ w.2.1.markers = [(number,
              replicate k (.flag false) ++ replicate (w.2.1.data.size - k) (.flag true))]) ∧
            (w.1 ≠ output → w.2.1.markers = [])) := by
  have hruns : (ofSource "output a, b\ndelay d = 1 s\n(d d):b\nacquire\ntimes 3 \x7b\n(d):a\n\x7d\n").toOption.any
      (fun p => (generate false (p.after (choosing 2 "b"))).1.toOption.any fun waveforms =>
        waveforms.map (fun w => (w.1, w.2.1.data.size)) = [("a", 5), ("b", 5)]) = true := by
    decide +kernel
  obtain ⟨p, waveforms, p', hsource, hrun, hsizes⟩ := exists_generate_of_any hruns
  exact ⟨p, waveforms, p', hsource, hrun, of_decide_eq_true hsizes, markers_of_generate hsource _ hrun⟩

end Program

end Pulse

end LabBench
