import LabBench.Proofs.Pulse.Mirroring
/-!
# Waveforms of equal length

A delay goes to all outputs, whereas a sequence goes to one of them and may take any number of points;
after the sequences of a statement the shorter waveforms are filled up with zeros. So the waveforms of
all outputs have equally many points between any two statements, at the top level and in loops.

This is shown by a watch: something that is done before and after every statement. A watch that
raises an alarm as soon as two waveforms differ in length makes no difference to the program.

## Main results

* `generateUnder_insist`
-/

/-! ### Waveforms only grow

All that commands do to the waveforms is to put more points on them, apart from an acquisition, which
switches a marker on.
-/

namespace LabBench

open Act List

/-! ### Waveforms under construction -/

namespace Generator

open Pulse.Environment (grown_empty)

theorem grown_grown (points more : Array Float) (g : Generator) :
    (g.grown points).grown more = g.grown (points ++ more) := by
  cases hreh : g.rehearsal <;> simp [grown, hreh, Nat.add_assoc, Array.append_assoc]

/-- A waveform that only got more points. -/
def Continues (g₀ g : Generator) : Prop :=
  ∃ points, g = g₀.grown points

variable {g₀ g : Generator}

theorem Continues.refl (g : Generator) : g.Continues g :=
  ⟨#[], (grown_empty g).symm⟩

theorem Continues.grown (h : g₀.Continues g) (points : Array Float) : g₀.Continues (g.grown points) := by
  obtain ⟨before, rfl⟩ := h
  exact ⟨before ++ points, grown_grown before points g₀⟩

theorem Continues.markers_eq (h : g₀.Continues g) : g.markers = g₀.markers := by
  obtain ⟨points, rfl⟩ := h
  rfl

theorem Continues.size_le (h : g₀.Continues g) : g₀.wave.size ≤ g.wave.size := by
  obtain ⟨points, rfl⟩ := h
  rw [Generator.grown]
  split
  · exact Nat.le_refl _
  · rw [Array.size_append]
    exact Nat.le_add_right _ _

theorem IsGrowth.preserves_continues {act : Act Generator PUnit} (h : IsGrowth act) (g₀ : Generator) :
    Preserves g₀.Continues act := by
  refine h _ fun additional points _ => ?_
  have hchk : Preserves g₀.Continues (checkLength additional) := by
    intro g hg
    change g₀.Continues ((if g.length + additional > g.maxLength then _ else pure ⟨⟩ : Act Generator PUnit) g).2
    split
    · exact hg
    · exact hg
  exact hchk.bind fun _ => .modify fun _ hg => hg.grown points

end Generator

namespace Pulse

/-- There is no acquisition among the statements, at any depth. -/
def Quiet (ss : List Statement) : Prop :=
  ∀ s ∈ allInside ss, s.isAcquisition = false

namespace Environment

/-! ### Outputs -/

section Matched

variable {G : Generator → Generator → Prop} {gs gs' : List (String × Generator)}

theorem Matched.map_fst_eq (h : Matched G gs gs') : gs'.map (·.1) = gs.map (·.1) := by
  induction h with
  | nil => rfl
  | cons hhead _ ih => rw [map_cons, map_cons, hhead.1, ih]

theorem Matched.put (h : Matched G gs gs') {name : String} {g g' : Generator}
    (hget : Entries.get? name gs' = some g) (hg : ∀ g₀, G g₀ g → G g₀ g') :
    Matched G gs (Entries.put name g' gs') := by
  induction h with
  | nil => cases hget
  | @cons a b as bs hhead htail ih =>
    rw [Entries.get?] at hget
    rw [Entries.put]
    split at hget
    · rename_i hname
      cases hget
      rw [if_pos hname]
      exact .cons ⟨hhead.1, hg a.2 hhead.2⟩ htail
    · rename_i hname
      rw [if_neg hname]
      exact .cons hhead (ih hget)

theorem Matched.onEach (h : Matched G gs gs') {act : Act Generator PUnit} (hact : ∀ g₀, Preserves (G g₀) act) :
    Matched G gs (onEach act gs').2 := by
  induction h with
  | nil => exact .nil
  | @cons a b as bs hhead htail ih =>
    have hhead' := hact a.2 b.2 hhead.2
    rw [Environment.onEach]
    rcases hb : act b.2 with ⟨f | _, g⟩
    · rw [hb] at hhead'
      exact .cons ⟨hhead.1, hhead'⟩ htail
    · rw [hb] at hhead'
      exact .cons ⟨hhead.1, hhead'⟩ ih

end Matched

/-- An environment in which waveforms only got more points, and problems were only added. -/
structure Continues (e₀ e : Environment) : Prop where
  generators : Matched Generator.Continues e₀.generators e.generators
  problems : e₀.problems <+: e.problems

variable {e₀ e : Environment}

theorem Continues.refl (e : Environment) : e.Continues e :=
  ⟨forall₂_same.mpr fun _ _ => ⟨rfl, .refl _⟩, prefix_refl _⟩

/-- What does not concern waveforms and problems can be anything. -/
theorem Continues.update (h : e₀.Continues e) (stack : List Frame) (missingShapes : List Value) :
    e₀.Continues { e with stack, missingShapes } :=
  ⟨h.generators, h.problems⟩

/-! ### Commands -/

theorem lasting_continues (e₀ : Environment) : Lasting e₀.Continues where
  update _ he := he.update
  problem message place := by
    intro e he
    change e₀.Continues ((lift (locate e.source place) >>= _) e).2
    refine of_lift_bind he fun location _ => ?_
    exact ⟨he.generators, he.problems.trans (prefix_append _ _)⟩
  onOutput name act hact := by
    intro e he
    unfold onOutput
    split
    · exact he
    · rename_i g hget
      exact ⟨he.generators.put hget fun g₀ hg => hact.preserves_continues g₀ g hg, he.problems⟩
  onAll hact := fun _ he => ⟨he.generators.onEach hact.preserves_continues, he.problems⟩
  level := by
    intro e he
    rw [level_eq, levelBy_eq]
    refine ⟨?_, he.problems⟩
    unfold leveled
    exact forall₂_map_right_iff.mpr (he.generators.imp fun _ _ hab => ⟨hab.1, hab.2.grown _⟩)

mutual

theorem playStatementWith_of_quiet (acquire : Act Environment PUnit) (s : Statement)
    (hs : ∀ t ∈ s :: s.inside, t.isAcquisition = false) : playStatementWith acquire level s = playStatement s := by
  cases s with
  | acquire place => exact absurd (hs _ mem_cons_self) (by simp [Statement.isAcquisition])
  | loop place count body =>
    rw [Statement.inside] at hs
    rw [playStatementWith, playStatement, playAllWith_of_quiet acquire body (forall_mem_cons.mp hs).2]
  | pulses trains => rw [playStatementWith, playStatement]
  | delay place length => rw [playStatementWith]
  | assign a | declare place kind names => rfl

theorem playAllWith_of_quiet (acquire : Act Environment PUnit) (ss : List Statement) (hss : Quiet ss) :
    playAllWith acquire level ss = playAll ss := by
  cases ss with
  | nil => rw [playAllWith, playAll]
  | cons s rest =>
    rw [Quiet, allInside, ← cons_append, forall_mem_append] at hss
    rw [playAllWith, playAll, playStatementWith_of_quiet acquire s hss.1, playAllWith_of_quiet acquire rest hss.2]

end

theorem preserves_playAll (ss : List Statement) (hss : Quiet ss) : Preserves e₀.Continues (playAll ss) := by
  rw [← playAllWith_of_quiet (pure ⟨⟩) ss hss]
  exact (lasting_continues e₀).playAllWith (.pure _) ss

end Environment

end Pulse

end LabBench

namespace LabBench.Pulse

open Act List

namespace Environment

open Generator (manner grown grow grow_eq_ok)

/-- The waveforms of all outputs have equally many points. -/
def Aligned (e : Environment) : Prop :=
  ∀ a ∈ e.generators, ∀ b ∈ e.generators, a.2.wave.size = b.2.wave.size

instance (e : Environment) : Decidable e.Aligned :=
  inferInstanceAs (Decidable (∀ a ∈ e.generators, ∀ b ∈ e.generators, a.2.wave.size = b.2.wave.size))

/-- All waveforms are kept and generated at one frequency, and they have equally many points. -/
structure Steady (frequency : Value) (e : Environment) : Prop where
  manner : ∀ g ∈ e.generators, g.2.manner = (frequency, false)
  aligned : e.Aligned

variable {frequency : Value} {e e' : Environment} {u : PUnit} {P : Environment → Prop}

theorem manner_of_fixtures (h : e'.fixtures manner = e.fixtures manner)
    (hmanner : ∀ g ∈ e.generators, g.2.manner = (frequency, false)) :
    ∀ g ∈ e'.generators, g.2.manner = (frequency, false) := by
  intro g' hg'
  obtain ⟨g, hg, hsame⟩ := exists_of_fixtures h hg'
  rw [hsame, hmanner g hg]

theorem Steady.withStack (h : Steady frequency e) (stack : List Frame) : Steady frequency { e with stack } :=
  ⟨h.manner, h.aligned⟩

theorem steady_of_within {frame : Frame} {act : Act Environment PUnit}
    (hact : ∀ {e e' : Environment} {u : PUnit}, Steady frequency e → act e = (.ok u, e') →
      Steady frequency e') (h : Steady frequency e)
    (hok : within frame act e = (.ok u, e')) : Steady frequency e' := by
  obtain ⟨t, ht, rfl⟩ := within_eq_ok.mp hok
  exact (hact (h.withStack _) ht).withStack _

/-! ### Delays -/

theorem size_of_pause {time : Value} {g g' : Generator} (h : pause time g = (.ok u, g')) (hkept : g.rehearsal = false) :
    ∃ n, g.samples time = .ok n ∧ g'.wave.size = g.wave.size + 1 + (n - 1).toNat := by
  obtain ⟨_, t, hfst, h⟩ := bind_eq_ok.mp h
  obtain ⟨-, rfl⟩ := grow_eq_ok.mp (show grow 1 #[0.0] g = (.ok _, t) from hfst)
  obtain ⟨n, hn, h⟩ := lift_bind_eq_ok.mp
    (show (Act.lift ((grown #[0.0] g).samples time) >>= _) (grown #[0.0] g) = _ from h)
  obtain ⟨-, rfl⟩ := grow_eq_ok.mp (show grow (n - 1) _ (grown #[0.0] g) = _ from h)
  exact ⟨n, hn, by simp [grown, hkept]⟩

theorem matched_of_onEach {act : Act Generator PUnit} {gs gs' : List (String × Generator)}
    (h : onEach act gs = (.ok u, gs')) : Matched (fun g g' => act g = (.ok ⟨⟩, g')) gs gs' := by
  induction gs generalizing gs' with
  | nil =>
    cases h
    exact .nil
  | cons a rest ih =>
    rw [onEach] at h
    rcases hact : act a.2 with ⟨f | _, g⟩
    · rw [hact] at h
      cases h
    · rw [hact] at h
      rcases hrest : onEach act rest with ⟨r, rest'⟩
      rw [hrest] at h
      cases h
      exact .cons ⟨rfl, hact⟩ (ih hrest)

theorem aligned_of_onAll_pause (h : Steady frequency e) {time : Value}
    (hok : onAll (pause time) e = (.ok u, e')) : e'.Aligned := by
  unfold onAll at hok
  rcases heach : onEach (pause time) e.generators with ⟨r, gs'⟩
  rw [heach] at hok
  cases hok
  have hmatched := (matched_of_onEach heach).flip
  intro a' ha' b' hb'
  obtain ⟨a, ha, -, hpa⟩ := hmatched.exists_right ha'
  obtain ⟨b, hb, -, hpb⟩ := hmatched.exists_right hb'
  obtain ⟨hfa, hka⟩ := Prod.mk.inj (h.manner a ha)
  obtain ⟨hfb, hkb⟩ := Prod.mk.inj (h.manner b hb)
  obtain ⟨m, hm, hsa⟩ := size_of_pause hpa hka
  obtain ⟨n, hn, hsb⟩ := size_of_pause hpb hkb
  -- the number of points is the same for both, since the frequency is
  have hmn : m = n := by
    have hsamples : a.2.samples time = b.2.samples time := by
      unfold Generator.samples
      rw [hfa, hfb]
    rw [hm, hn] at hsamples
    cases hsamples
    rfl
  rw [hsa, hsb, hmn, h.aligned a ha b hb]

/-! ### Sequences -/

/-- Whatever the sequences of a statement have done, the waveforms are equally long in the end. -/
theorem aligned_of_level (hmanner : ∀ g ∈ e.generators, g.2.manner = (frequency, false))
    (hok : level e = (.ok u, e')) : e'.Aligned := by
  rw [level_eq, levelBy_eq] at hok
  cases hok
  have hsize : ∀ a ∈ leveled (·.wave.size) e.generators, a.2.wave.size = longestBy (·.wave.size) e.generators := by
    intro a' ha'
    obtain ⟨a, ha, rfl⟩ := mem_map.mp ha'
    have hkept : a.2.rehearsal = false := congrArg Prod.snd (hmanner a ha)
    have hle := longestBy_le_iff.mp (le_refl (longestBy (·.wave.size) e.generators)) a ha
    simp only [grown, hkept, Bool.false_eq_true, if_false, Array.size_append, Array.size_replicate]
    omega
  intro a ha b hb
  rw [hsize a ha, hsize b hb]

theorem aligned_of_playPulses (h : Steady frequency e) {trains : List Train}
    (hok : playStatement (.pulses trains) e = (.ok u, e')) : e'.Aligned := by
  rw [playStatement] at hok
  obtain ⟨_, t, htrains, hlev⟩ := bind_eq_ok.mp hok
  have hkeeps : Keeps (fixtures manner) (within .pulses (trains.forM playTrain)) :=
    keeps_within .pulses (.forM fun train _ => keeps_playTrain train)
  exact aligned_of_level (manner_of_fixtures (hkeeps.apply htrains) h.manner) hlev

/-! ### Markers -/

theorem keeps_wave_mark (number level : Value) : Keeps (·.wave) (Generator.mark number level) := by
  refine .get_bind fun g => ?_
  split
  · rfl
  · split
    · rfl
    · rfl

theorem aligned_of_playAcquisition (h : Steady frequency e) (hok : playAcquisition e = (.ok u, e')) : e'.Aligned := by
  have hkeeps : Keeps (fixtures (·.wave)) playAcquisition := keeps_playAcquisition keeps_wave_mark
  intro a' ha' b' hb'
  obtain ⟨a, ha, hwa⟩ := exists_of_fixtures (hkeeps.apply hok) ha'
  obtain ⟨b, hb, hwb⟩ := exists_of_fixtures (hkeeps.apply hok) hb'
  rw [hwa, hwb, h.aligned a ha b hb]

/-! ### Statements -/

theorem of_repeated {act : Act Environment PUnit}
    (hact : ∀ {e e' : Environment} {u : PUnit}, P e → act e = (.ok u, e') → P e') (n : Nat) (he : P e)
    (h : repeated act n e = (.ok u, e')) : P e' := by
  induction n generalizing e with
  | zero =>
    obtain ⟨-, rfl⟩ := pure_eq_ok.mp h
    exact he
  | succ n ih =>
    obtain ⟨_, t, hround, h⟩ := bind_eq_ok.mp h
    exact ih (hact he hround) h

mutual

theorem steady_of_playStatement (s : Statement) {e e' : Environment} {u : PUnit}
    (h : Steady frequency e) (hok : playStatement s e = (.ok u, e')) : Steady frequency e' := by
  refine ⟨manner_of_fixtures ((keeps_playStatement s).apply hok) h.manner, ?_⟩
  cases s with
  | loop place count body =>
    rw [playStatement] at hok
    obtain ⟨n, -, hok⟩ := lift_bind_eq_ok.mp (show (Act.lift (repetitions e count) >>= _) e = _ from hok)
    have hround {e e' : Environment} {u : PUnit} (he : Steady frequency e)
        (hok : within .loop (within .block (playAll body)) e = (.ok u, e')) : Steady frequency e' :=
      steady_of_within (steady_of_within (steady_of_playAll body)) he hok
    exact (of_repeated hround n h hok).aligned
  | pulses trains => exact aligned_of_playPulses h hok
  | acquire place =>
    rw [playStatement] at hok
    exact aligned_of_playAcquisition h hok
  | delay place length =>
    cases length with
    | named name =>
      unfold playStatement at hok
      obtain ⟨time, -, hok⟩ := lift_bind_eq_ok.mp (show (Act.lift (e.valueAt [name]) >>= _) e = _ from hok)
      exact aligned_of_onAll_pause h hok
    | literal q =>
      unfold playStatement at hok
      exact aligned_of_onAll_pause h hok
  | assign a | declare place kind names =>
    cases hok
    exact h.aligned

theorem steady_of_playAll (ss : List Statement) {e e' : Environment} {u : PUnit}
    (h : Steady frequency e) (hok : playAll ss e = (.ok u, e')) : Steady frequency e' := by
  cases ss with
  | nil =>
    rw [playAll] at hok
    cases hok
    exact h
  | cons s rest =>
    rw [playAll] at hok
    obtain ⟨_, t, hs, hok⟩ := bind_eq_ok.mp hok
    exact steady_of_playAll rest (steady_of_playStatement s h hs) hok

end

/-! ### Statements under a watch -/

/-- Something is done before and after a computation. -/
def watched (watch act : Act Environment PUnit) : Act Environment PUnit := do
  watch
  act
  watch

mutual

/-- A command is carried out under a watch, and so are the rounds of a loop and the commands in them. -/
def playStatementUnder (watch : Act Environment PUnit) : Statement → Act Environment PUnit
  | .loop _ count body => watched watch do
    let n ← Act.lift (repetitions (← get) count)
    repeated (watched watch (within .loop (within .block (playAllUnder watch body)))) n
  | s => watched watch (playStatement s)

/-- Commands are carried out one after the other under a watch. -/
def playAllUnder (watch : Act Environment PUnit) : List Statement → Act Environment PUnit
  | [] => return
  | s :: rest => do
    playStatementUnder watch s
    playAllUnder watch rest

end

/-- The alarm is raised if two waveforms differ in length. -/
def insist (alarm : Fault) : Act Environment PUnit := do
  if ¬(← get).Aligned then .fail alarm

theorem insist_of_aligned (h : e.Aligned) (alarm : Fault) : insist alarm e = (.ok ⟨⟩, e) := by
  change (if ¬e.Aligned then Act.fail alarm else pure ⟨⟩ : Act Environment PUnit) e = _
  rw [if_neg (not_not_intro h)]
  rfl

theorem watched_insist {act act' : Act Environment PUnit} (h : e.Aligned) (hact : act' e = act e)
    (hafter : ∀ u e', act e = (.ok u, e') → e'.Aligned) (alarm : Fault) : watched (insist alarm) act' e = act e := by
  unfold watched
  rw [bind_of_ok (insist_of_aligned h alarm)]
  rcases hrun : act e with ⟨f | u, t⟩
  · exact bind_of_error (hact.trans hrun)
  · rw [bind_of_ok (hact.trans hrun)]
    exact insist_of_aligned (hafter u t hrun) alarm

theorem within_congr {α : Type} {frame : Frame} {act act' : Act Environment α}
    (h : act' { e with stack := frame :: e.stack } = act { e with stack := frame :: e.stack }) :
    within frame act' e = within frame act e := by
  change (act' >>= _) { e with stack := frame :: e.stack } = _
  exact Act.bind_congr h fun _ _ _ => rfl

theorem repeated_congr {act act' : Act Environment PUnit} (hsame : ∀ {e : Environment}, P e → act' e = act e)
    (hact : ∀ {e e' : Environment} {u : PUnit}, P e → act e = (.ok u, e') → P e') (n : Nat) (he : P e) :
    repeated act' n e = repeated act n e := by
  induction n generalizing e with
  | zero => rfl
  | succ n ih => exact Act.bind_congr (hsame he) fun _ _ hround => ih (hact he hround)

mutual

theorem playStatementUnder_insist (alarm : Fault) (s : Statement) {e : Environment}
    (h : Steady frequency e) : playStatementUnder (insist alarm) s e = playStatement s e := by
  have hafter (u : PUnit) (e' : Environment) (hok : playStatement s e = (.ok u, e')) : e'.Aligned :=
    (steady_of_playStatement s h hok).aligned
  cases s with
  | loop place count body =>
    rw [playStatementUnder]
    refine watched_insist h.aligned ?_ hafter alarm
    rw [playStatement]
    refine Act.bind_congr rfl fun _ _ hget => ?_
    cases hget
    refine Act.bind_congr rfl fun n t hn => ?_
    obtain rfl : e = t := congrArg Prod.snd hn
    have hround {e e' : Environment} {u : PUnit} (he : Steady frequency e)
        (hok : within .loop (within .block (playAll body)) e = (.ok u, e')) : Steady frequency e' :=
      steady_of_within (steady_of_within (steady_of_playAll body)) he hok
    -- the watch has nothing to say in a round, so the rounds are those without it
    have hsame {e : Environment} (he : Steady frequency e) :
        watched (insist alarm) (within .loop (within .block (playAllUnder (insist alarm) body))) e =
          within .loop (within .block (playAll body)) e :=
      watched_insist he.aligned
        (within_congr (within_congr (playAllUnder_insist alarm body ((he.withStack _).withStack _))))
        (fun _ _ hok => (hround he hok).aligned) alarm
    exact repeated_congr hsame hround n h
  | _ =>
    simp only [playStatementUnder]
    exact watched_insist h.aligned rfl hafter alarm

theorem playAllUnder_insist (alarm : Fault) (ss : List Statement) {e : Environment}
    (h : Steady frequency e) : playAllUnder (insist alarm) ss e = playAll ss e := by
  cases ss with
  | nil => rw [playAllUnder, playAll]
  | cons s rest =>
    rw [playAllUnder, playAll]
    exact Act.bind_congr (playStatementUnder_insist alarm s h) fun _ _ hs =>
      playAllUnder_insist alarm rest (steady_of_playStatement s h hs)

end

/-! ### Whole programs -/

theorem steady_started (e : Environment) : Steady e.frequency (started false e) := by
  refine ⟨fun g hg => ?_, fun a ha b hb => ?_⟩
  · obtain ⟨_, _, rfl⟩ := mem_map.mp hg
    rfl
  · obtain ⟨_, _, rfl⟩ := mem_map.mp ha
    obtain ⟨_, _, rfl⟩ := mem_map.mp hb
    rfl

end Environment

namespace Program

open Environment

/-- The commands of a program are carried out under a watch, on the waveforms that a program without
commands leaves. -/
def performUnder (watch : Act Environment PUnit) (block : Block) : Act Environment PUnit := do
  perform [] false
  within .block (playAllUnder watch block)
  let env ← get
  if !env.problems.isEmpty then .fail ⟨.pulse, none, env.reports⟩

/-- The waveforms of the outputs with the numbers of their points, generated under a watch. -/
def generateUnder (watch : Act Environment PUnit) : Act Program (List (String × Waveform × Nat)) :=
  fun p =>
    let run := performUnder watch p.block p.env
    (run.1.map fun _ => run.2.generators.map fun entry =>
      (entry.1, entry.2.waveform, entry.2.length), { p with env := run.2 })

theorem performUnder_insist (alarm : Fault) (block : Block) (e : Environment) :
    performUnder (insist alarm) block e = perform block false e := by
  have hperf (block : Block) : perform block false e =
      (play block >>= _) { e with rehearsal := false, missingShapes := [], problems := [] } := rfl
  rcases play_cases { e with rehearsal := false, missingShapes := [], problems := [] } with
    ⟨f, -, hplay⟩ | hplay
  · have hfault (block : Block) : perform block false e =
        (.error f, { e with rehearsal := false, missingShapes := [], problems := [] }) := by
      rw [hperf, bind_of_error (hplay block)]
    -- the fault is found before any command, so it is the same without commands
    rw [hfault, performUnder, bind_of_error (hfault [])]
  · have hstart : perform [] false e = (.ok ⟨⟩, started false e) := by
      rw [hperf, bind_of_ok (hplay [])]
      rfl
    rw [performUnder, bind_of_ok hstart, hperf]
    refine Act.bind_congr ?_ fun _ _ _ => rfl
    rw [hplay]
    exact within_congr (playAllUnder_insist alarm block ((steady_started e).withStack _))

/-- The waveforms of all outputs have equally many points before and after every statement and every round of a loop,
at any depth: no alarm is raised where they would not. -/
theorem generateUnder_insist (alarm : Fault) (p : Program) : generateUnder (insist alarm) p = generate false p := by
  unfold generateUnder
  rw [performUnder_insist]
  rfl

end Program

end LabBench.Pulse
