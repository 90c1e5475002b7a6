import LabBench.Proofs.Pulse.Acceptance
import LabBench.Proofs.Pulse.Mirroring
/-!
# Pulse programs that have been used before

When the waveforms of a program are generated, traces are left in its environment, above all if a fault ends this
halfway: frames, problems, missing shapes, and waveforms that are not finished. None of them matters when the waveforms
are generated the next time. The outcome is always that of a program which is made afresh from the same source and gets
the same values, the same frequency and the same shape files.

## Main results

* `generate_after`
-/

namespace LabBench.Pulse

open Entries

namespace Environment

open Act

/-! ### Traces -/

/-- An environment without the traces of earlier waveforms. -/
def renewed (e : Environment) : Environment :=
  { e with
    stack := []
    problems := []
    rehearsal := false
    missingShapes := []
    generators := e.generators.map fun g => (g.1, Generator.fresh e.frequency false) }

theorem renewed_withGenerators {e : Environment} {gs : List (String × Generator)}
    (h : gs.map (·.1) = e.generators.map (·.1)) : { e with generators := gs }.renewed = e.renewed := by
  simp only [renewed, map_fresh, h]

theorem renewed_withFrequency (e : Environment) (frequency : Value) : { e with frequency }.renewed = { e.renewed with
      frequency
      generators := e.renewed.generators.map fun g => (g.1, Generator.fresh frequency false) } := by
  simp [renewed, Function.comp_def]

theorem parameters_of_renewed {e e' : Environment} (h : e'.renewed = e.renewed) :
    e'.values = e.values ∧ e'.frequency = e.frequency ∧ e'.folder = e.folder := by
  have hvals : e'.renewed.values = e.renewed.values := by rw [h]
  have hfreq : e'.renewed.frequency = e.renewed.frequency := by rw [h]
  have hfolder : e'.renewed.folder = e.renewed.folder := by rw [h]
  exact ⟨hvals, hfreq, hfolder⟩

/-- The start of a program does not depend on traces, apart from the frames. -/
theorem started_eq (rehearsal : Bool) (e : Environment) : started rehearsal e = { e.renewed with
      stack := e.stack
      rehearsal
      generators := e.renewed.generators.map fun g => (g.1, Generator.fresh e.renewed.frequency rehearsal) } := by
  simp [started, renewed, Function.comp_def]

/-! ### Echoes -/

/-- An environment with other frames, and with other values. -/
def recast (stack : List Frame) (values : List (Path × Value)) (e : Environment) : Environment :=
  { e with stack, values }

/-- Two environments that differ in their frames and in the order of their values, where it is known what the first one
is without traces. -/
structure Echoes (base e e' : Environment) : Prop where
  rest : ∃ stack values, e' = e.recast stack values
  values : ∀ path, get? path e'.values = get? path e.values
  renewed : e.renewed = base

/-- The same fault in two environments, where it is known what the first one is without traces. -/
def EchoesFault (base : Environment) (a b : Fault × Environment) : Prop :=
  b.1 = a.1 ∧ a.2.renewed = base

variable {base : Environment}

/-- What does not look at frames and values, and leaves only traces, does the same in both environments. -/
theorem mirrors_echoes {act : Act Environment PUnit}
    (hact : ∀ e stack values, act (e.recast stack values) = ((act e).1, (act e).2.recast stack values))
    (hrenew : Keeps renewed act) : Mirrors (Echoes base) (some (EchoesFault base)) act act := by
  intro e e' he
  obtain ⟨⟨stack, values, rfl⟩, hvals, hbase⟩ := he
  have hrecast := hact e stack values
  have hafter : (act e).2.renewed = base := (hrenew e).trans hbase
  have hkept : (act e).2.renewed.values = e.renewed.values := by rw [hrenew e]
  rcases hrun : act e with ⟨f | u, t⟩
  · rw [hrun] at hrecast hafter
    exact .inr ⟨f, _, hrecast, by rintro _ ⟨⟩; exact ⟨f, t, rfl, rfl, hafter⟩⟩
  · rw [hrun] at hrecast hafter hkept
    refine .inl ⟨u, t, _, rfl, hrecast, ⟨stack, values, rfl⟩, fun path => ?_, hafter⟩
    exact (hvals path).trans (congrArg (get? path) hkept.symm)

theorem keeps_renewed_onOutput (name : String) (act : Act Generator PUnit) : Keeps renewed (onOutput name act) := by
  intro e
  cases hget : get? name e.generators with
  | none => rw [onOutput_of_none hget]
  | some g =>
    rcases hact : act g with ⟨r, g'⟩
    rw [onOutput_of_some hget hact]
    exact renewed_withGenerators (map_fst_put_of_mem (List.mem_map_of_mem (mem_of_get? hget)))

theorem keeps_renewed_onAll (act : Act Generator PUnit) : Keeps renewed (onAll act) := by
  intro e
  have hkeeps : Keeps (fixtures fun _ => ()) (onAll act) := keeps_onAll fun _ => rfl
  exact renewed_withGenerators (congrArg Scheme.outputs (keeps_scheme_of_fixtures hkeeps e))

theorem mirrors_onOutput_echoes (name : String) (act : Act Generator PUnit) :
    Mirrors (Echoes base) (some (EchoesFault base)) (onOutput name act) (onOutput name act) := by
  refine mirrors_echoes (fun e stack values => ?_) (keeps_renewed_onOutput name act)
  cases hget : get? name e.generators with
  | none => rw [onOutput_of_none hget, onOutput_of_none (e := e.recast stack values) hget]
  | some g =>
    rcases hact : act g with ⟨r, g'⟩
    rw [onOutput_of_some hget hact, onOutput_of_some (e := e.recast stack values) hget hact]
    rfl

/-- Environments stay echoes of each other while commands are carried out, and all faults are the same. -/
theorem congruence_echoes : Congruence id none (Echoes base) (some (EchoesFault base)) where
  fault := by
    rintro _ ⟨⟩ _ _ he _
    exact ⟨rfl, he.renewed⟩
  kindOf := by
    intro e e' he name
    obtain ⟨_, _, rfl⟩ := he.rest
    rfl
  valueAt := fun he path => by rw [valueAt, he.values, valueAt]
  folder := by
    intro e e' he
    obtain ⟨_, _, rfl⟩ := he.rest
    rfl
  missingShapes := by
    intro e e' he
    obtain ⟨_, _, rfl⟩ := he.rest
    rfl
  stack := by
    intro e e' he g
    obtain ⟨⟨stack, values, rfl⟩, hvals, hbase⟩ := he
    exact ⟨⟨g stack, values, rfl⟩, hvals, hbase⟩
  note := by
    intro e e' he missingShapes
    obtain ⟨⟨stack, values, rfl⟩, hvals, hbase⟩ := he
    exact ⟨⟨stack, values, rfl⟩, hvals, hbase⟩
  problem := by
    intro message place _
    refine mirrors_echoes (fun e stack values => ?_) fun e => ?_
    · cases hloc : locate e.source place with
      | error f => rw [addProblem_of_error hloc, addProblem_of_error (e := e.recast stack values) hloc]
      | ok location =>
        rw [addProblem_of_ok hloc, addProblem_of_ok (e := e.recast stack values) hloc]
        rfl
    · cases hloc : locate e.source place with
      | error f => rw [addProblem_of_error hloc]
      | ok location =>
        rw [addProblem_of_ok hloc]
        rfl
  onOutput name act _ := mirrors_onOutput_echoes name act
  onAll _ := mirrors_echoes (fun _ _ _ => rfl) (keeps_renewed_onAll _)

/-! ### Whole programs -/

theorem mirrors_close_echoes : Mirrors (Echoes base) (some (EchoesFault base)) close close := by
  refine .get_bind fun e e' he => ?_
  have hprob : e'.problems = e.problems := by
    obtain ⟨_, _, rfl⟩ := he.rest
    rfl
  rw [reports, reports, hprob]
  split
  · exact .fail (by rintro _ ⟨⟩ _ _ he _; exact ⟨rfl, he.renewed⟩) _
  · exact .pure _

/-- Traces do not matter when a program is carried out, and are all that is left behind. -/
theorem perform_renewed {b : Block} {e e' : Environment} (h : e'.renewed = e.renewed.recast [] e'.values)
    (hvals : ∀ path, get? path e'.values = get? path e.values) (rehearsal : Bool) :
    (∃ t t', Program.perform b rehearsal e = (.ok ⟨⟩, t) ∧ Program.perform b rehearsal e' = (.ok ⟨⟩, t') ∧
        t'.generators = t.generators ∧ t.renewed = e.renewed) ∨
      ∃ f t t', Program.perform b rehearsal e = (.error f, t) ∧ Program.perform b rehearsal e' = (.error f, t') ∧
        t.renewed = e.renewed := by
  have hrequired : e'.renewed.required = e.renewed.required := by
    rw [h]
    rfl
  have hmiss : e'.missing = e.missing := by
    simp only [missing, show e'.required = e.required from hrequired, has_congr (hvals _)]
  -- either both start with the same fresh waveforms, or both say which values are missing
  by_cases hnone : e.missing = .ok []
  · have hstarted : Echoes e.renewed (started rehearsal e) (started rehearsal e') := by
      refine ⟨⟨e'.stack, e'.values, ?_⟩, hvals, ?_⟩
      · rw [started_eq, started_eq, h]
        rfl
      · rw [started_eq]
        simp [renewed, Function.comp_def]
    have hrun := (congruence_echoes.run (congruence_echoes.acquireBy fun _ _ _ name => mirrors_onOutput_echoes name _)
      (mirrors_echoes (fun _ _ _ => rfl) fun e => keeps_renewed_onAll _ e) mirrors_close_echoes (b := b) nofun).cases
      hstarted
    rw [← relocateAll_eq_map, relocateAll_id, ← perform_of_missing hnone,
      ← perform_of_missing (hmiss.trans hnone)] at hrun
    rcases hrun with ⟨⟨⟩, t, t', ht, ht', htt'⟩ | ⟨f, f', t, t', ht, ht', rfl, hrenew⟩
    · obtain ⟨⟨_, _, rfl⟩, -, hrenew⟩ := htt'
      exact .inl ⟨t, _, ht, ht', rfl, hrenew⟩
    · exact .inr ⟨_, t, t', ht, ht', hrenew⟩
  · obtain ⟨f, hf⟩ := perform_of_missing_ne hnone b rehearsal
    exact .inr ⟨f, _, _, hf e rfl, hf e' hmiss, rfl⟩

theorem keeps_renewed_perform (b : Block) (rehearsal : Bool) : Keeps renewed (Program.perform b rehearsal) := by
  intro e
  have hself : e.renewed = e.renewed.recast [] e.values := rfl
  rcases perform_renewed hself (fun _ => rfl) rehearsal with
    ⟨t, t', ht, -, -, hrenew⟩ | ⟨f, t, t', ht, -, hrenew⟩
  · rw [ht]
    exact hrenew
  · rw [ht]
    exact hrenew

end Environment

/-! ### Programs that are used again and again -/

namespace Program

open Environment Text

/-- What can be done with a program: a parameter or the frequency is set, waveforms are generated, successfully or not,
or its shape files become others. -/
inductive Use where
  | setValue (path : Path) (v : Value)
  | setFrequency (v : Value)
  | generate (rehearsal : Bool)
  | replaceFiles (folder : Option Folder)

/-- The program after it has been used. -/
def use (p : Program) : Use → Program
  | .setValue path v => p.setValue path v
  | .setFrequency v => p.setFrequency v
  | .generate rehearsal => (generate rehearsal p).2
  | .replaceFiles folder => { p with env := { p.env with folder } }

/-- The program after it has been used several times. -/
def after (uses : List Use) (p : Program) : Program :=
  uses.foldl use p

/-- What a program keeps of its beginnings: all but parameters, frequency, shape files and traces. -/
structure Descends (p₀ p : Program) : Prop where
  block : p.block = p₀.block
  env : p.env.renewed =
    { p₀.env with values := p.env.values, frequency := p.env.frequency, folder := p.env.folder }.renewed
  keys : ∀ path ∈ p₀.env.values.map (·.1), path ∈ p.env.values.map (·.1)
  nodup : (p.env.values.map (·.1)).Nodup

theorem descends_refl {p : Program} (h : (p.env.values.map (·.1)).Nodup) : p.Descends p :=
  ⟨rfl, rfl, fun _ => id, h⟩

variable {p₀ p : Program}

theorem Descends.setValue (h : p₀.Descends p) (path : Path) (v : Value) : p₀.Descends (p.setValue path v) := by
  refine ⟨h.block, ?_, fun k hk => mem_keys_put.mpr (.inr (h.keys k hk)), nodup_keys_put h.nodup⟩
  have henv := congrArg (recast [] (put path v p.env.values)) h.env
  exact henv

theorem Descends.setFrequency (h : p₀.Descends p) (v : Value) : p₀.Descends (p.setFrequency v) := by
  refine ⟨h.block, ?_, h.keys, h.nodup⟩
  have henv := renewed_withFrequency p.env v
  rw [h.env, ← renewed_withFrequency] at henv
  exact henv

theorem Descends.replaceFiles (h : p₀.Descends p) (folder : Option Folder) :
    p₀.Descends (p.use (.replaceFiles folder)) := by
  refine ⟨h.block, ?_, h.keys, h.nodup⟩
  have henv := congrArg (fun e : Environment => { e with folder }) h.env
  exact henv

theorem Descends.generate (h : p₀.Descends p) (rehearsal : Bool) : p₀.Descends (Program.generate rehearsal p).2 := by
  have hrenew : (Program.generate rehearsal p).2.env.renewed = p.env.renewed :=
    keeps_renewed_perform p.block rehearsal p.env
  -- the parameters are no traces
  obtain ⟨hvals, hfreq, hfolder⟩ := parameters_of_renewed hrenew
  refine ⟨h.block, ?_, ?_, ?_⟩
  · rw [hrenew, hvals, hfreq, hfolder]
    exact h.env
  · rw [hvals]
    exact h.keys
  · rw [hvals]
    exact h.nodup

theorem Descends.after (h : p₀.Descends p) (uses : List Use) : p₀.Descends (p.after uses) := by
  induction uses generalizing p with
  | nil => exact h
  | cons u rest ih =>
    refine ih (p := p.use u) ?_
    cases u with
    | setValue path v => exact h.setValue path v
    | setFrequency v => exact h.setFrequency v
    | generate rehearsal => exact h.generate rehearsal
    | replaceFiles folder => exact h.replaceFiles folder

theorem generate_fst (rehearsal : Bool) (p : Program) : (generate rehearsal p).1 =
    (perform p.block rehearsal p.env).1.map fun _ =>
      (perform p.block rehearsal p.env).2.generators.map fun g => (g.1, g.2.waveform, g.2.length) :=
  rfl

/-- A program that has been used has the waveforms, or the fault, of an earlier version of it with its parameters. -/
theorem Descends.generate_eq {p₀ p q : Program} (h : p₀.Descends p) (hblk : q.block = p₀.block)
    (henv : q.env = { p₀.env with folder := p.env.folder }) (rehearsal : Bool) :
    (∀ path, get? path (q.setValues p.env.values).env.values = get? path p.env.values) ∧
      (Program.generate rehearsal p).1 =
        (Program.generate rehearsal ((q.setValues p.env.values).setFrequency p.env.frequency)).1 := by
  have hset : (q.setValues p.env.values).env.values = putAll p.env.values q.env.values :=
    congrArg (fun q : Program => q.env.values) (setFrequency_setValues p.env.values p.env.frequency q)
  have hvals (path : Path) : get? path (putAll p.env.values q.env.values) = get? path p.env.values := by
    -- all values that the source sets are set again
    refine get?_putAll_of_subset h.nodup ?_ path
    rw [henv]
    exact h.keys
  refine ⟨fun path => by rw [hset, hvals], ?_⟩
  have hrenew : (q.env.adjusted p.env.values p.env.frequency).renewed =
      p.env.renewed.recast [] (q.env.adjusted p.env.values p.env.frequency).values := by
    rw [h.env, henv]
    rfl
  rw [setFrequency_setValues, generate_fst, generate_fst, h.block, hblk]
  rcases perform_renewed hrenew hvals rehearsal with ⟨t, t', ht, ht', hsame, -⟩ | ⟨f, t, t', ht, ht', -⟩
  · rw [ht, ht', hsame]
  · rw [ht, ht']
    rfl

variable {source : String} {folder : Option Folder} {filename : String} {p : Program}

/-- Waveforms are generated as if the program had just been made from its source, and then got its values, its frequency
and its shape files. -/
theorem generate_after (h : ofSource source folder filename = .ok p) (uses : List Use) (rehearsal : Bool) :
    ∃ q, ofSource source (p.after uses).env.folder filename = .ok q ∧
      (∀ path, get? path (q.setValues (p.after uses).env.values).env.values = get? path (p.after uses).env.values) ∧
      (generate rehearsal (p.after uses)).1 = (generate rehearsal
          ((q.setValues (p.after uses).env.values).setFrequency (p.after uses).env.frequency)).1 := by
  obtain ⟨b, hread, -⟩ := Outcome.bind_eq_ok.mp h
  have hexists : ∃ q, ofSource source (p.after uses).env.folder filename = .ok q :=
    (exists_ofSource_iff hread).mpr ((exists_ofSource_iff hread).mp ⟨p, h⟩)
  obtain ⟨q, hq⟩ := hexists
  obtain ⟨hblock, hertz, hhertz, henv⟩ := exists_environment_of_ofSource hread h
  obtain ⟨hblock', hertz', hhertz', henv'⟩ := exists_environment_of_ofSource hread hq
  cases hhertz.symm.trans hhertz'
  have hnodup : (p.env.values.map (·.1)).Nodup := by
    rw [henv]
    exact nodup_keys_ofList _
  refine ⟨q, hq, ((descends_refl hnodup).after uses).generate_eq ?_ ?_ rehearsal⟩
  · rw [hblock, hblock']
  · rw [henv, henv']
    rfl

/-- A program whose waveforms could not be generated, until it got another value. -/
theorem generate_after_failure : ∃ p q, ofSource "output o\ndelay d\ntimes 2 \x7b\n(d):o\n\x7d\n" = .ok p ∧
      ofSource "output o\ndelay d\ntimes 2 \x7b\n(d):o\n\x7d\n" = .ok q ∧
      ∀ v frequency, (generate false (p.after [.setValue ["d"] (.text "late"), .generate false, .setValue ["d"] v,
          .setFrequency frequency, .replaceFiles none])).1 =
        (generate false ((q.setValues (p.after [.setValue ["d"] (.text "late"), .generate false, .setValue ["d"] v,
          .setFrequency frequency, .replaceFiles none]).env.values).setFrequency frequency)).1 := by
  obtain ⟨p, hp⟩ := Outcome.exists_of_isOk
    (show (ofSource "output o\ndelay d\ntimes 2 \x7b\n(d):o\n\x7d\n").isOk = true by decide +kernel)
  refine ⟨p, p, hp, hp, fun v frequency => ?_⟩
  obtain ⟨q, hq, -, hsame⟩ := generate_after hp [.setValue ["d"] (.text "late"), .generate false, .setValue ["d"] v,
    .setFrequency frequency, .replaceFiles none] false
  cases hp.symm.trans hq
  exact hsame

-- the frames that are left behind by the fault
example : (ofSource "output o\ndelay d\ntimes 2 \x7b\n(d):o\n\x7d\n").map
    (fun p => (p.after [.setValue ["d"] (.text "late"), .generate false]).env.stack) =
      .ok [.train, .pulses, .block, .loop, .block] := by
  decide +kernel

end Program

end LabBench.Pulse
