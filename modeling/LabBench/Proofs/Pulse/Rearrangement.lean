import LabBench.Proofs.Pulse.Acceptance
import LabBench.Proofs.Pulse.Mirroring
import Mathlib.Data.List.Pairwise
import Mathlib.Data.List.Perm.Basic
/-!
# The order of the statements of a pulse program

Declarations and assignments may stand anywhere in a program, also after the commands that use their variables. If the
statements of a program are rearranged, and its commands stay in their order, then it means the same: its variables have
the same kinds and the same values, and the same waveforms are generated. Only the order in which the variables, and
thus the outputs, are listed may be another one.

## Main results

* `ofSource_rearranges`
-/

namespace LabBench.Pulse

open Entries List

/-! ### Rearranged programs -/

/-- Either of two announcements may follow the other one. -/
def Announcement.Compatible (a a' : Announcement) : Prop :=
  a.Admits a' ∧ a'.Admits a

instance : Std.Symm Announcement.Compatible :=
  ⟨fun _ _ => And.symm⟩

theorem Orderly.congr {σ σ' : Scheme} {ss : List Statement} (h : Orderly σ ss)
    (hkinds : ∀ name, σ'.kindOf name = σ.kindOf name) (houts : ∀ name ∈ σ.outputs, name ∈ σ'.outputs) :
    Orderly σ' ss := by
  refine ⟨h.inside, fun s hs => ?_, h.acquisition⟩
  have hfits := h.fits s hs
  cases s with
  | delay place length =>
    refine ⟨?_, hfits.2⟩
    cases length with
    | named name => exact (hkinds name).trans hfits.1
    | literal q => trivial
  | pulses trains =>
    intro t ht
    obtain ⟨⟨hout, hpieces⟩, htimes⟩ := hfits t ht
    refine ⟨⟨houts _ hout, fun piece hpiece => ?_⟩, htimes⟩
    have hpiece := hpieces piece hpiece
    cases piece with
    | named name => exact hpiece.imp (hkinds name).trans (hkinds name).trans
    | delay q => trivial
  | loop place count body =>
    cases count with
    | named name => exact (hkinds name).trans hfits
    | literal m => trivial
  | _ => trivial

namespace Block

open Environment

/-- The second program has the statements of the first one, apart from their places, and its commands come in the same
order. -/
structure Rearranges (b b' : Block) : Prop where
  perm : b'.bare.Perm b.bare
  commands : b'.bare.filter Statement.isCommand = b.bare.filter Statement.isCommand

namespace Rearranges

variable {b b' : Block} (h : b.Rearranges b')
include h

theorem perm_announcements : b'.announcements.Perm b.announcements := by
  rw [← announcements_bare, ← announcements_bare b]
  exact h.perm.flatMap_right _

theorem perm_settings : b'.settings.Perm b.settings := by
  rw [← settings_bare, ← settings_bare b]
  exact (h.perm.flatMap_right _).flatMap_right _

variable (hb : b.Admissible) (hmarker : ∀ kind, .named markerName kind ∉ b.announcements)
include hb hmarker

omit h in
/-- If no variable is called like the marker, then the announcements may come in any order. -/
theorem pairwise_announcements : b.announcements.Pairwise Announcement.Compatible := by
  refine hb.announced.imp_of_mem fun {a a'} ha ha' hadmits => ⟨hadmits, ?_⟩
  cases a with
  | marker => trivial
  | named name kind =>
    simp only [Announcement.Admits, Announcement.NewTo, map_cons, map_nil, mem_singleton]
    cases a' with
    | marker =>
      rintro rfl
      exact hmarker kind ha
    | named name' kind' =>
      rintro rfl
      exact hadmits mem_cons_self

omit h in
theorem unambiguous_announcements : Unambiguous (b.announcements.map Announcement.entry) := by
  have hpairwise := pairwise_announcements hb hmarker
  simp only [Unambiguous, forall_mem_map]
  intro a ha a' ha' hname
  by_cases hsame : a = a'
  · rw [hsame]
  · obtain ⟨hadmits, hadmits'⟩ := hpairwise.forall ha ha' hsame
    cases a with
    | marker =>
      cases a' with
      | marker => rfl
      | named name' kind' => exact absurd (mem_singleton.mpr hname.symm) hadmits
    | named name kind => exact absurd (mem_singleton.mpr hname) hadmits'

theorem get?_kinds (name : String) : get? name b'.kinds = get? name b.kinds :=
  get?_ofList_congr (unambiguous_announcements hb hmarker)
    (fun _ => (h.perm_announcements.map Announcement.entry).mem_iff) name

theorem perm_kinds : b'.kinds.Perm b.kinds :=
  perm_of_get?_eq (nodup_keys_ofList _) (nodup_keys_ofList _) (h.get?_kinds hb hmarker)

theorem perm_needed : b'.needed.Perm b.needed :=
  (h.perm_kinds hb hmarker).flatMap_right _

theorem perm_outputs : b'.outputs.Perm b.outputs :=
  (h.perm_kinds hb hmarker).filterMap _

omit hmarker in
theorem get?_values (path : Path) : get? path b'.values = get? path b.values :=
  get?_ofList_congr (unambiguous_of_nodup hb.consistent.distinct) (fun _ => h.perm_settings.mem_iff) path

theorem admissible : b'.Admissible := by
  have hneeded := h.perm_needed hb hmarker
  have hasgs : Consistent b.kinds b.needed b.bare.assignments := by
    rw [assignments_bare, consistent_map_relocate_iff]
    exact hb.consistent
  have hcmds : Orderly b.scheme b'.bare := by
    rw [← orderly_filter_iff, h.commands, orderly_filter_iff, bare, orderly_map_relocate_iff]
    exact hb.orderly
  refine ⟨?_, ?_, ?_⟩
  · have hpairwise := h.perm_announcements.symm.pairwise (pairwise_announcements hb hmarker) symm
    exact hpairwise.imp And.left
  · rw [← consistent_map_relocate_iff, ← assignments_bare]
    exact hasgs.perm (h.get?_kinds hb hmarker) (fun _ => hneeded.mem_iff.mpr) (h.perm.flatMap_right _).symm
  · rw [← orderly_map_relocate_iff]
    exact hcmds.congr (h.get?_kinds hb hmarker) fun _ => (h.perm_outputs hb hmarker).mem_iff.mpr

end Rearranges

end Block

/-! ### Akin environments -/

namespace Environment

open Act

/-- The same is known in two environments, though perhaps in another order. The places up to `n` lie in the source of
the first one. -/
structure Akin (n : Nat) (e e' : Environment) : Prop where
  source : n ≤ e.source.length
  kindOf : ∀ name, e'.kindOf name = e.kindOf name
  values : ∀ path, get? path e'.values = get? path e.values
  folder : e'.folder = e.folder
  missingShapes : e'.missingShapes = e.missingShapes
  problems : e'.problems = [] ↔ e.problems = []
  generators : e'.generators.Perm e.generators
  names : (e.generators.map (·.1)).Nodup

variable {gs gs' : List (String × Generator)} {e e' : Environment}

theorem Akin.withGenerators {n : Nat} (h : Akin n e e')
    (hperm : gs'.Perm gs) (hnames : gs.map (·.1) = e.generators.map (·.1)) :
    Akin n { e with generators := gs } { e' with generators := gs' } :=
  { h with generators := hperm, names := hnames ▸ h.names }

theorem onEach_of_ok {act : Act Generator PUnit}
    (h : ∀ g ∈ gs, ¬act.Fails g.2) : onEach act gs = (.ok ⟨⟩, gs.map fun g => (g.1, (act g.2).2)) := by
  induction gs with
  | nil => rfl
  | cons g rest ih =>
    obtain ⟨_, g', hact⟩ := eq_ok_of_not_fails (h g mem_cons_self)
    rw [onEach, hact, ih fun k hk => h k (mem_cons_of_mem g hk), map_cons, hact]

theorem onEach_of_fails {act : Act Generator PUnit} {g : String × Generator}
    (hg : g ∈ gs) (h : act.Fails g.2) : ∃ f gs', onEach act gs = (.error f, gs') := by
  induction gs with
  | nil => cases hg
  | cons k rest ih =>
    rw [onEach]
    rcases hact : act k.2 with ⟨f | _, k'⟩
    · exact ⟨f, _, rfl⟩
    · rcases mem_cons.mp hg with rfl | hg
      · exact absurd h (not_fails_of_eq_ok hact)
      · obtain ⟨f, gs', hrest⟩ := ih hg
        exact ⟨f, _, by rw [hrest]⟩

theorem longestBy_perm {size : Generator → Nat} (h : gs'.Perm gs) : longestBy size gs' = longestBy size gs := by
  have : RightCommutative fun (n : Nat) (g : String × Generator) => max n (size g.2) := ⟨fun n g k => by omega⟩
  exact h.foldl_eq 0

theorem mirrors_onOutput_akin (n : Nat) (name : String) (act : Act Generator PUnit) :
    Mirrors (Akin n) (some fun _ _ => True) (onOutput name act) (onOutput name act) := by
  intro e e' he
  have hget := get?_of_perm he.names he.generators name
  cases hg : get? name e.generators with
  | none =>
    exact .inr ⟨_, e', onOutput_of_none (hget.trans hg), by rintro _ ⟨⟩; exact ⟨_, e, onOutput_of_none hg, trivial⟩⟩
  | some g =>
    rcases hact : act g with ⟨f | _, g'⟩
    · refine .inr ⟨f, _, onOutput_of_some (hget.trans hg) hact, ?_⟩
      rintro _ ⟨⟩
      exact ⟨f, _, onOutput_of_some hg hact, trivial⟩
    · refine .inl ⟨⟨⟩, _, _, onOutput_of_some hg hact, onOutput_of_some (hget.trans hg) hact, ?_⟩
      refine he.withGenerators (put_perm he.names he.generators name g') ?_
      exact map_fst_put_of_mem (mem_map_of_mem (mem_of_get? hg))

/-- Akin environments stay akin while commands are carried out, until there is a fault; it then comes in both. -/
theorem congruence_akin (n : Nat) : Congruence (fun _ => 0) (some n) (Akin n) (some fun _ _ => True) where
  fault := by
    rintro _ ⟨⟩ _ _ _ _
    trivial
  kindOf := Akin.kindOf
  valueAt := fun he path => by rw [valueAt, he.values, valueAt]
  folder := Akin.folder
  missingShapes := Akin.missingShapes
  stack := fun he _ => { he with }
  note := fun he _ => { he with missingShapes := rfl }
  problem := by
    intro message place hplace e e' he
    have hloc := locate_of_le ((hplace n rfl).trans he.source)
    have hloc' := locate_of_le (Nat.zero_le e'.source.length)
    refine .inl ⟨⟨⟩, _, _, addProblem_of_ok hloc, addProblem_of_ok hloc', ?_⟩
    exact { he with problems := by simp }
  onOutput name act _ := mirrors_onOutput_akin n name act
  onAll := by
    intro act _ e e' he
    -- the first fault depends on the order of the waveforms, but not whether there is one
    by_cases hall : ∀ g ∈ e.generators, ¬act.Fails g.2
    · have hall' : ∀ g ∈ e'.generators, ¬act.Fails g.2 := fun g hg => hall g (he.generators.mem_iff.mp hg)
      refine .inl ⟨⟨⟩, _, _, onAll_of_eq (onEach_of_ok hall), onAll_of_eq (onEach_of_ok hall'), ?_⟩
      exact he.withGenerators (he.generators.map _) (by simp [Function.comp_def])
    · push Not at hall
      obtain ⟨g, hg, hfail⟩ := hall
      obtain ⟨f, gs, hgs⟩ := onEach_of_fails hg hfail
      obtain ⟨f', gs', hgs'⟩ := onEach_of_fails (he.generators.mem_iff.mpr hg) hfail
      exact .inr ⟨f', _, onAll_of_eq hgs', by rintro _ ⟨⟩; exact ⟨f, _, onAll_of_eq hgs, trivial⟩⟩

/-! ### Whole programs -/

theorem mirrors_level_akin (n : Nat) : Mirrors (Akin n) (some fun _ _ => True) level level := by
  intro e e' he
  rw [level_eq]
  refine .inl ⟨⟨⟩, _, _, levelBy_eq _ e, levelBy_eq _ e', ?_⟩
  refine he.withGenerators ?_ (by simp [leveled, Function.comp_def])
  rw [leveled, leveled, longestBy_perm he.generators]
  exact he.generators.map _

theorem mirrors_close_akin (n : Nat) : Mirrors (Akin n) (some fun _ _ => True) close close := by
  refine .get_bind fun e e' he => ?_
  simp only [Bool.not_eq_true', isEmpty_eq_false_iff, ne_eq, he.problems]
  split
  · exact fun s s' _ => .inr ⟨_, s', rfl, by rintro _ ⟨⟩; exact ⟨_, s, rfl, trivial⟩⟩
  · exact .pure _

theorem mirrors_run_akin {b : Block} {n : Nat} (hb : ∀ s ∈ b, s.WrittenIn n) :
    Mirrors (Akin n) (some fun _ _ => True) (run b) (run b.bare) := by
  have h := congruence_akin n
  refine h.run (h.acquireBy fun _ _ _ name => mirrors_onOutput_akin n name _) (mirrors_level_akin n)
    (mirrors_close_akin n) ?_
  rintro _ ⟨⟩
  exact hb

theorem playAll_filter (ss : List Statement) : playAll (ss.filter Statement.isCommand) = playAll ss := by
  induction ss with
  | nil => rfl
  | cons s rest ih =>
    by_cases hs : s.isCommand = true
    · rw [filter_cons_of_pos hs, playAll, playAll, ih]
    · rw [filter_cons_of_neg hs, ih, playAll]
      cases s with
      | assign a => rfl
      | declare place kind names => rfl
      | _ => exact absurd rfl hs

/-- Two computations both succeed, with the same waveforms in some order, or both of them end in a fault. -/
def Concur (act act' : Act Environment PUnit) (e e' : Environment) : Prop :=
  (∃ t t', act e = (.ok ⟨⟩, t) ∧ act' e' = (.ok ⟨⟩, t') ∧ t'.generators.Perm t.generators) ∨ act.Fails e ∧ act'.Fails e'

theorem concur_run {b b' : Block} (h : b.Rearranges b') {n : Nat} (he : Akin n e e')
    (hb : ∀ s ∈ b, s.WrittenIn n) (hb' : ∀ s ∈ b', s.WrittenIn e'.source.length) : Concur (run b) (run b') e e' := by
  have hself : Akin e'.source.length e' e' := ⟨Nat.le_refl _, fun _ => rfl, fun _ => rfl, rfl, rfl, Iff.rfl, .refl _,
      (he.generators.map _).nodup_iff.mpr he.names⟩
  have hbare : run b.bare = run b'.bare := by
    rw [run, run, ← playAll_filter b.bare, ← h.commands, playAll_filter]
  -- both are compared with the commands without places
  rcases (mirrors_run_akin hb').cases hself with ⟨⟨⟩, t', u', ht', hu', htu'⟩ | ⟨f', g', t', u', ht', hu', -⟩
  · rcases hbare ▸ (mirrors_run_akin hb).cases he with ⟨⟨⟩, t, u, ht, hu, htu⟩ | ⟨f, g, t, u, ht, hu, -⟩
    · cases hu.symm.trans hu'
      exact .inl ⟨t, t', ht, ht', htu'.generators.symm.trans htu.generators⟩
    · cases hu.symm.trans hu'
  · rcases hbare ▸ (mirrors_run_akin hb).cases he with ⟨⟨⟩, t, u, ht, hu, htu⟩ | ⟨f, g, t, u, ht, hu, -⟩
    · cases hu.symm.trans hu'
    · exact .inr ⟨⟨f, t, ht⟩, ⟨f', t', ht'⟩⟩

theorem akin_started (hkinds : ∀ name, e'.kindOf name = e.kindOf name)
    (hvals : ∀ path, get? path e'.values = get? path e.values) (hfolder : e'.folder = e.folder)
    (hfreq : e'.frequency = e.frequency) (hnames : (e'.generators.map (·.1)).Perm (e.generators.map (·.1)))
    (hnd : (e.generators.map (·.1)).Nodup) (rehearsal : Bool) :
    Akin e.source.length (started rehearsal e) (started rehearsal e') := by
  have hgens (e : Environment) : (started rehearsal e).generators =
      (e.generators.map (·.1)).map fun name => (name, Generator.fresh e.frequency rehearsal) := map_fresh _ _
  refine ⟨Nat.le_refl _, hkinds, hvals, hfolder, rfl, Iff.rfl, ?_, ?_⟩
  · rw [hgens, hgens, hfreq]
    exact hnames.map _
  · rw [hgens, map_map]
    simpa [Function.comp_def] using hnd

theorem missing_eq_nil_iff {paths paths' : List Path} (h : e.required = some paths)
    (h' : e'.required = some paths') (hperm : paths'.Perm paths)
    (hvals : ∀ path, get? path e'.values = get? path e.values) : e'.missing = .ok [] ↔ e.missing = .ok [] := by
  have hfilt := hperm.filter fun path => !has path e.values
  simp only [missing, h, h', has_congr (hvals _), Except.ok.injEq]
  exact ⟨fun hnil => (hnil ▸ hfilt).symm.eq_nil, fun hnil => (hnil ▸ hfilt).eq_nil⟩

theorem concur_perform {b b' : Block} (h : b.Rearranges b') {rehearsal : Bool}
    (he : Akin e.source.length (started rehearsal e) (started rehearsal e'))
    (hmiss : e'.missing = .ok [] ↔ e.missing = .ok []) (hb : ∀ s ∈ b, s.WrittenIn e.source.length)
    (hb' : ∀ s ∈ b', s.WrittenIn e'.source.length) :
    Concur (Program.perform b rehearsal) (Program.perform b' rehearsal) e e' := by
  by_cases hnone : e.missing = .ok []
  · have hrun := concur_run h he hb hb'
    rwa [Concur, Fails, Fails, ← perform_of_missing hnone, ← perform_of_missing (hmiss.mpr hnone)] at hrun
  · obtain ⟨f, hf⟩ := perform_of_missing_ne hnone b rehearsal
    obtain ⟨f', hf'⟩ := perform_of_missing_ne (mt hmiss.mp hnone) b' rehearsal
    exact .inr ⟨⟨f, _, hf e rfl⟩, ⟨f', _, hf' e' rfl⟩⟩

end Environment

namespace Program

open Environment Text

/-- Two programs have the same waveforms for all outputs, or neither of them has any. -/
def SameWaveforms (rehearsal : Bool) (p p' : Program) : Prop :=
  (∃ ws ws' q q', generate rehearsal p = (.ok ws, q) ∧ generate rehearsal p' = (.ok ws', q') ∧ ws'.Perm ws) ∨
    Act.Fails (generate rehearsal) p ∧ Act.Fails (generate rehearsal) p'

theorem sameWaveforms_of_concur {rehearsal : Bool} {p p' : Program}
    (h : Concur (perform p.block rehearsal) (perform p'.block rehearsal) p.env p'.env) :
    SameWaveforms rehearsal p p' := by
  rcases h with ⟨t, t', ht, ht', hperm⟩ | ⟨⟨f, t, ht⟩, f', t', ht'⟩
  · exact .inl ⟨_, _, _, _, by rw [generate, ht]; rfl, by rw [generate, ht']; rfl, hperm.map _⟩
  · exact .inr ⟨⟨f, _, by rw [generate, ht]; rfl⟩, ⟨f', _, by rw [generate, ht']; rfl⟩⟩

variable {source source' : String} {folder : Option Folder} {frequency frequency' : Value} {b b' : Block}

/-- A program and its rearrangement have the same waveforms, once they have the same parameters. -/
theorem concur_perform_adjusted (h : b.Rearranges b') (hb : b.Admissible)
    (hmarker : ∀ kind, .named markerName kind ∉ b.announcements) (hsrc : ∀ s ∈ b, s.WrittenIn source.length)
    (hsrc' : ∀ s ∈ b', s.WrittenIn source'.length) (settings : List (Path × Value)) (v : Value) (rehearsal : Bool) :
    Concur (perform b rehearsal) (perform b' rehearsal)
      ((b.environment (.blank source frequency folder)).adjusted settings v)
      ((b'.environment (.blank source' frequency' folder)).adjusted settings v) := by
  have hvals := get?_putAll_congr (h.get?_values hb) settings
  have hnames {b : Block} {start : Environment} :
      ((b.environment start).adjusted settings v).generators.map (·.1) = b.outputs := by
    simp [adjusted, Block.environment, noting, having, Block.outset, Function.comp_def]
  refine concur_perform h ?_ ?_ hsrc hsrc'
  · apply akin_started
    · exact h.get?_kinds hb hmarker
    · exact hvals
    · rfl
    · rfl
    · rw [hnames, hnames]
      exact h.perm_outputs hb hmarker
    · rw [hnames]
      exact b.nodup_outputs
  · exact missing_eq_nil_iff rfl rfl (h.perm_needed hb hmarker) hvals

variable (folder) (filename : String)

/-- If the statements of an accepted source are rearranged, and its commands stay in their order, then it is accepted
as well, with the same kinds, values and values that are needed. The same waveforms are generated, or none by both. -/
theorem ofSource_rearranges (h : read (expandTabs source) = .ok b) (h' : read (expandTabs source') = .ok b')
    (hrearranges : b.Rearranges b') (hmarker : ∀ kind, .named markerName kind ∉ b.announcements)
    {p : Program} (hp : ofSource source folder filename = .ok p) :
    ∃ p', ofSource source' folder filename = .ok p' ∧ (∀ name, p'.env.kindOf name = p.env.kindOf name) ∧
      (∀ path, get? path p'.env.values = get? path p.env.values) ∧
      (∃ paths paths', p.env.required = some paths ∧ p'.env.required = some paths' ∧ paths'.Perm paths) ∧
      ∀ settings frequency rehearsal, SameWaveforms rehearsal ((p.setValues settings).setFrequency frequency)
        ((p'.setValues settings).setFrequency frequency) := by
  have hb : b.Admissible := (exists_ofSource_iff h).mp ⟨p, hp⟩
  have hexists : ∃ p', ofSource source' folder filename = .ok p' :=
    (exists_ofSource_iff h').mpr (hrearranges.admissible hb hmarker)
  obtain ⟨p', hp'⟩ := hexists
  obtain ⟨rfl, hertz, -, henv⟩ := exists_environment_of_ofSource h hp
  obtain ⟨rfl, hertz', -, henv'⟩ := exists_environment_of_ofSource h' hp'
  refine ⟨p', hp', ?_, ?_, ⟨p.block.needed, p'.block.needed, ?_, ?_, hrearranges.perm_needed hb hmarker⟩, ?_⟩
  · rw [henv, henv']
    exact hrearranges.get?_kinds hb hmarker
  · rw [henv, henv']
    exact hrearranges.get?_values hb
  · rw [henv]
    rfl
  · rw [henv']
    rfl
  · intro settings frequency rehearsal
    rw [setFrequency_setValues, setFrequency_setValues, henv, henv']
    exact sameWaveforms_of_concur (concur_perform_adjusted hrearranges hb hmarker (writtenIn_of_read h)
      (writtenIn_of_read h') settings frequency rehearsal)

/-- All commands before all declarations and assignments. -/
theorem ofSource_rearranges_commands_first : ∃ p p',
    ofSource "output o\npulse p\np.shape = 'square'\n(p):o\nacquire\n" = .ok p ∧
      ofSource "(p):o\nacquire\noutput o\npulse p\np.shape = 'square'\n" = .ok p' ∧
      (∀ name, p'.env.kindOf name = p.env.kindOf name) ∧
      (∀ path, get? path p'.env.values = get? path p.env.values) ∧
      (∃ paths paths', p.env.required = some paths ∧ p'.env.required = some paths' ∧ paths'.Perm paths) ∧
      ∀ settings frequency rehearsal, SameWaveforms rehearsal ((p.setValues settings).setFrequency frequency)
        ((p'.setValues settings).setFrequency frequency) := by
  have h : read (expandTabs "output o\npulse p\np.shape = 'square'\n(p):o\nacquire\n") = .ok
      ([.declare 0 .output [.plain 7 "o"], .declare 9 .pulse [.plain 15 "p"],
        .assign ⟨17, .part 17 "p" "shape", .value (.text "square")⟩] ++
        [.pulses [⟨36, [.named "p"], "o"⟩], .acquire 42]) := by
    with_unfolding_all rfl
  have h' : read (expandTabs "(p):o\nacquire\noutput o\npulse p\np.shape = 'square'\n") = .ok
      ([.pulses [⟨0, [.named "p"], "o"⟩], .acquire 6] ++
        [.declare 14 .output [.plain 21 "o"], .declare 23 .pulse [.plain 29 "p"],
          .assign ⟨31, .part 31 "p" "shape", .value (.text "square")⟩]) := by
    with_unfolding_all rfl
  obtain ⟨p, hp⟩ := Outcome.exists_of_isOk
    (show (ofSource "output o\npulse p\np.shape = 'square'\n(p):o\nacquire\n").isOk = true by decide +kernel)
  obtain ⟨p', hp', hsame⟩ := ofSource_rearranges none "" h h' ⟨by
      rw [Block.bare, Block.bare, map_append, map_append]
      exact perm_append_comm, rfl⟩
    (by
      intro kind hkind
      simp [Block.announcements, Statement.announcements, Declared.name, Declared.path, markerName] at hkind) hp
  exact ⟨p, p', hp, hp', hsame⟩

-- a variable that is called like the marker has to be declared before the acquisition
example : (ofSource "int _acq_marker\nacquire\n").isOk = true ∧
    (ofSource "acquire\nint _acq_marker\n").isOk = false := by
  decide +kernel

end Program

end LabBench.Pulse
