import LabBench.Proofs.Sweep.Ends
/-!
# Where a sweep leaves its resources

At the end of every cycle, and when it is aborted, a run takes those variables to their constants that
are to end smoothly. This file shows where their resources are when the run is over: at the constants
if there are at least two steps on the way, but at the start of the way if there is only one.

## Main results

* `settings_of_run`
-/

namespace LabBench.Sweep

open List

namespace Plan

variable {σ : Type} [Clocked σ] {plan : Plan σ} {ledger : Ledger σ} {following : Option Phase} {n : Nat}
  {phase : Phase} {r : Run σ}

/-! ### The way to the constants -/

/-- A variable that goes smoothly to its constant, at a place with a resource. -/
structure Descends (plan : Plan σ) (p i : Nat) (x : Variable) : Prop where
  place : cell plan.groups p i = some x
  resource : ∃ name y, cell plan.resources p i = some (name, some y)
  moves : x.isConst = false
  smooth : x.smoothTo = true

/-- From one world to another, the resources have been taken from the values of the rows to where the
ramps to the constants lead, unless one has refused a value. -/
def Landed (plan : Plan σ) (ledger : Ledger σ) (rows : List (List Value)) (w w' : σ) : Prop :=
  ledger.failed w' = true ∨ ∀ p i x, plan.Descends p i x → ∃ v c, cell rows p i = some v ∧ x.typed x.const = .ok c ∧
    ledger.settings w' p i = Value.landing v c x.smoothSteps (ledger.settings w p i)

theorem rampAll_landed (hnotes : plan.Notes ledger) {p : Progress} {dials : List Dial}
    (hshown : plan.Shown p) (hdials : p.dials = some dials) {changes : List (Change (Run σ))}
    (h : plan.lastChanges p.rows = .ok changes) (r : Run σ) :
    plan.Landed ledger p.rows r.world (plan.rampAll changes r).2.world := by
  obtain ⟨marked, rfl, hnd, hmark, hall⟩ := exists_marked_of_changesAt h
  by_cases hfail : ledger.failed (plan.rampAll (marked.map (·.2)) r).2.world = true
  · exact Or.inl hfail
  refine Or.inr fun q j x hx => ?_
  obtain ⟨name, y, hy⟩ := hx.resource
  obtain ⟨v, hv, -⟩ := hshown.exists_cell_rows hdials hx.place
  have hq : q < plan.groups.length := by
    obtain ⟨g, hg, -⟩ := Option.bind_eq_some_iff.mp hx.place
    exact (List.getElem?_eq_some_iff.mp hg).1
  obtain ⟨c, hc⟩ := hall q j x _ v v (Nat.zero_le q) hq hx.place hy hv hv hx.moves hx.smooth
  obtain ⟨-, hrsc, z, a, b, hz, -, -, ha, -, hends, hsteps⟩ := hmark _ hc
  obtain rfl : x = z := Option.some.inj (hx.place.symm.trans hz)
  obtain rfl : v = a := Option.some.inj (hv.symm.trans ha)
  obtain ⟨const, hconst, hends⟩ := Outcome.bind_eq_ok.mp hends
  cases hends
  have hcy : c.resource = some y := by
    rw [hy] at hrsc
    simpa using (congrArg (fun o => o.map (·.2)) hrsc).symm
  have hlands := (rampAll_lands hnotes hnd (fun k hk => (hmark k hk).2.resource) r hc hcy).resolve_left hfail
  exact ⟨c.first, c.last, hv, hconst, by rw [hlands, hsteps]⟩

theorem rampDown_landed (hnotes : plan.Notes ledger) {r' : Run σ}
    (hshown : plan.Shown r.status.progress) (hdials : r.status.dials ≠ none)
    (h : plan.rampDown r = (.ok following, r')) : plan.Landed ledger (rows r.status) r.world r'.world := by
  obtain ⟨dials, hdials⟩ := Option.ne_none_iff_exists'.mp hdials
  rcases @rampDown_cases σ _ plan r with
    ⟨-, f, hf⟩ | ⟨-, hrows, -⟩ | ⟨-, -, ⟨f, -, hf⟩ | ⟨changes, _, hchgs, hok⟩⟩
  · cases h.symm.trans hf
  · -- without rows there are no variables
    refine Or.inr fun q j x hx => ?_
    obtain ⟨v, hv, -⟩ := hshown.exists_cell_rows hdials hx.place
    rw [show r.status.progress.rows = [] from hrows] at hv
    cases hv
  · cases h.symm.trans hf
  · cases h.symm.trans hok
    exact rampAll_landed hnotes hshown hdials hchgs r

/-! ### Rest -/

/-- The resources have been taken to where the ramps to the constants lead from values of their
variables, unless one has refused a value. -/
def Rested (plan : Plan σ) (ledger : Ledger σ) (w : σ) : Prop :=
  ledger.failed w = true ∨ ∀ p i x, plan.Descends p i x → ∃ v c stood, .ok v ∈ x.values ∧
    x.typed x.const = .ok c ∧ ledger.settings w p i = Value.landing v c x.smoothSteps stood

section

omit [Clocked σ]

theorem Landed.rested {p : Progress} {w w' : σ} (h : plan.Landed ledger p.rows w w')
    (hshown : plan.Shown p) (hdials : p.dials ≠ none) : plan.Rested ledger w' := by
  obtain ⟨dials, hdials⟩ := Option.ne_none_iff_exists'.mp hdials
  refine h.imp_right fun h q j x hx => ?_
  obtain ⟨v, c, hv, hc, hset⟩ := h q j x hx
  obtain ⟨v', hv', hmem⟩ := hshown.exists_cell_rows hdials hx.place
  obtain rfl : v = v' := Option.some.inj (hv.symm.trans hv')
  exact ⟨v, c, _, hmem, hc, hset⟩

theorem Rested.decided (plan : Plan σ) : Decided ledger (plan.Rested ledger) := by
  intro w w' hset hfail h
  rw [Rested, hset]
  exact h.imp_left hfail

/-- What is known before each phase, after a number of turns: from the first item of a cycle on there
are values to start from, and between two cycles the resources rest. -/
def Calm (plan : Plan σ) (ledger : Ledger σ) (n : Nat) (following : Option Phase) (r : Run σ) : Prop :=
  match following with
  | none => plan.Rested ledger r.world
  | some .init => n = 0 ∨ plan.Rested ledger r.world
  | some .next => r.status.dials ≠ none ∨ n = 1 ∨ plan.Rested ledger r.world
  | some _ => r.status.dials ≠ none

/-- If there is nothing to start from after the first item, the resources rest. -/
theorem Calm.rested (h : plan.Calm ledger n (some phase) r)
    (hn : 2 ≤ n) (hdials : r.status.dials = none) : plan.Rested ledger r.world := by
  cases phase with
  | init => exact h.resolve_left (by omega)
  | next => exact (h.resolve_left (not_not_intro hdials)).resolve_left (by omega)
  | _ => exact absurd hdials h

theorem calm_of_dials (hphase : phase ≠ .init)
    (hdials : r.status.dials ≠ none) : plan.Calm ledger n (some phase) r := by
  cases phase with
  | init => exact absurd rfl hphase
  | next => exact Or.inl hdials
  | _ => exact hdials

end

theorem Calm.turn? (hp : plan.Private) (hnotes : plan.Notes ledger) {r' : Run σ} (hfin : phase ≠ .finish)
    (hshown : plan.Shown r.status.progress) (h : plan.Calm ledger n (some phase) r)
    (hturn : plan.turn? phase r = some (following, r')) : plan.Calm ledger (n + 1) following r' := by
  have hmoves := hp.moves hfin hturn
  obtain ⟨s, hs, hperf⟩ := (hp.undisturbed r.status.progress).exists_stepOf hturn rfl
  -- the phases that leave the dials alone lead to such phases, with dials to start from
  have hkeep (hdials : r.status.dials ≠ none) (hsame : r'.status.progress.dials = r.status.dials)
      {phase' : Phase} (hfollowing : following = some phase') (hphase : phase' ≠ .init) :
      plan.Calm ledger (n + 1) following r' := by
    subst hfollowing
    refine calm_of_dials hphase ?_
    rw [show r'.status.dials = r.status.dials from hsame]
    exact hdials
  cases phase with
  | init =>
    obtain ⟨rfl, -⟩ := hmoves.of_init
    refine Or.inr (h.imp (fun hn => by omega) fun hrested => ?_)
    have hP := hnotes.undisturbed (Rested.decided plan)
    obtain ⟨t, ht, hinit⟩ := hP.exists_stepOf hturn hrested
    exact ((init_leads hP ht).1 _ _ hinit).2
  | next =>
    obtain ⟨rfl, ⟨-, dials, -, rfl⟩ | ⟨dials, dials', moved, -, -, rfl⟩⟩ := next_eq_ok hperf
    · exact Option.some_ne_none _
    · exact Option.some_ne_none _
  | transition =>
    obtain ⟨hfollowing, hsame⟩ := hmoves.of_transition
    exact hkeep h (congrArg Progress.dials hsame) hfollowing (by simp)
  | write =>
    obtain ⟨hfollowing, hsame⟩ := hmoves.of_write
    exact hkeep h (congrArg Progress.dials hsame) hfollowing (by simp)
  | rampDown =>
    have hdials : s.status.progress.dials ≠ none := by
      rw [hs]
      exact h
    have hrested : plan.Rested ledger r'.world :=
      (rampDown_landed hnotes (hs ▸ hshown) hdials hperf).rested (hs ▸ hshown) hdials
    obtain ⟨-, rfl | ⟨rfl, -⟩⟩ := hmoves.of_rampDown
    · exact hrested
    · exact Or.inr hrested
  | finish => exact absurd rfl hfin
  | dwell | pulse | read | condition | conditionalDwell =>
    obtain ⟨hsame, phase', hfollowing, hphase⟩ := hmoves.of_quiet rfl
    refine hkeep h hsame hfollowing ?_
    rintro rfl
    rcases hphase with hphase | hphase | hphase <;> cases hphase

theorem calm_of_after? (hp : plan.Private) (hnotes : plan.Notes ledger) {start : Run σ} (hstart : Unstarted start)
    (h : plan.after? n (some .init, start) = some (following, r)) :
    plan.Shown r.status.progress ∧ plan.Calm ledger n following r := by
  have hshown : plan.Shown start.status.progress := fun dials hdials => by
    cases hstart.dials.symm.trans hdials
  have hcalm : plan.Calm ledger 0 (some .init) start := Or.inl rfl
  have hI := after?_induction (I := fun n following r => following ≠ some .finish ∧
    plan.Shown r.status.progress ∧ plan.Calm ledger n following r)
    ⟨by simp, hshown, hcalm⟩ (fun k phase r₁ following₁ r₂ hI hturn => ?_) h
  · exact hI.2
  · obtain ⟨hphase, hshown₁, hcalm⟩ := hI
    have hfin : phase ≠ .finish := fun hfin => hphase (congrArg some hfin)
    have hmoves := hp.moves hfin hturn
    exact ⟨hmoves.ne_finish, hmoves.shown hshown₁, hcalm.turn? hp hnotes hfin hshown₁ hturn⟩

/-- A run that is aborted after the first item has been found takes the resources to the constants, or
finds them there. -/
theorem Aborted.rested (hp : plan.Private) (hnotes : plan.Notes ledger)
    (haligned : plan.resources.map length = plan.groups.map length)
    (hconst : ∀ g ∈ plan.groups, ∀ x ∈ g, x.isConst = false → x.smoothTo = true →
      ∃ c, x.typed x.const = .ok c) {start : Run σ} (hstart : Unstarted start) {s : Run σ} (h :
    plan.Aborted (some .init, start) n phase s) (hn : 2 ≤ n)
    (hfatal : s.status.fatal = false) : plan.Rested ledger (plan.breakOff s).2.world := by
  have hfail : ¬plan.breakOff.Fails s := by
    rw [h.fails_iff hp haligned hstart]
    rintro ⟨-, hzero | ⟨-, g, hg, x, hx, hmoves, hsmooth, f, hf⟩⟩
    · omega
    · obtain ⟨c, hc⟩ := hconst g hg x hx hmoves hsmooth
      cases hc.symm.trans hf
  obtain ⟨⟨r, hafter, hres⟩, -⟩ := h
  obtain ⟨hshown, hcalm⟩ := calm_of_after? hp hnotes hstart hafter
  have hs := hp.progress_resume hres
  rw [breakOff_fails_iff] at hfail
  obtain ⟨following, t, hramp⟩ := Act.eq_ok_of_not_fails fun hramp => hfail ⟨hfatal, hramp⟩
  rw [breakOff_of_not_fatal hfatal, Act.bind_of_ok hramp]
  by_cases hdials : s.status.dials = none
  · have hP := hnotes.undisturbed (Rested.decided plan)
    have hrested : plan.Rested ledger s.world := (resume_preserves hP).apply hres
      (hcalm.rested hn ((congrArg Progress.dials hs).symm.trans hdials))
    have hrows : rows (broken s).status = [] := by
      rw [show rows (broken s).status = (s.status.dials.getD []).map (·.row) from rfl, hdials]
      rfl
    rcases @rampDown_cases σ _ plan (broken s) with ⟨-, f, hf⟩ | ⟨-, -, hok⟩ | ⟨-, hne, -⟩
    · cases hramp.symm.trans hf
    · cases hramp.symm.trans hok
      exact hrested
    · exact absurd hrows hne
  · have hshown' : plan.Shown (broken s).status.progress := by
      rw [← hs] at hshown
      exact hshown
    exact (rampDown_landed hnotes hshown' hdials hramp).rested hshown' hdials

/-- Where the resources are when a run is over, at its end or after an abort at any time after the first item was
found. Unless a value has been refused, the resource of every variable that should end smoothly was left by a ramp to
its constant: at the constant if there are several steps, and otherwise at the start of the ramp. -/
theorem settings_of_run (hp : plan.Private) (hnotes : plan.Notes ledger)
    (haligned : plan.resources.map length = plan.groups.map length)
    (hconst : ∀ g ∈ plan.groups, ∀ x ∈ g, x.isConst = false → x.smoothTo = true →
      ∃ c, x.typed x.const = .ok c) {start : Run σ} (hstart : Unstarted start) {limit : Nat}
    (hend : (∃ n r, n ≤ limit ∧ plan.after? n (some .init, start) = some (none, r)) ∨
      ∃ n phase s, 2 ≤ n ∧ n < limit ∧ plan.Aborted (some .init, start) n phase s ∧ s.status.fatal = false)
    {p i : Nat} {x : Variable} (hx : plan.Descends p i x) :
    ledger.failed (plan.run limit start).2.world = true ∨ ∃ v c, .ok v ∈ x.values ∧ x.typed x.const = .ok c ∧
        ∀ a b vs, Value.matchZero v c = .ok (a, b) → Value.spaced a b x.smoothSteps = .ok vs →
          (2 ≤ x.smoothSteps → ∃ e, b.smoothed = .ok e ∧ ledger.settings (plan.run limit start).2.world p i = some e) ∧
          (x.smoothSteps = 1 → ∃ e, vs = [e] ∧ ledger.settings (plan.run limit start).2.world p i = some e) := by
  have hfinish : Act.Preserves (fun r : Run σ => plan.Rested ledger r.world) plan.finish :=
    finish_preserves (hnotes.undisturbed (Rested.decided plan))
      (fun _ h => hnotes.preserves (Rested.decided plan) (.onClose h)) fun _ hr => hr
  have hrested : plan.Rested ledger (plan.run limit start).2.world := by
    rcases hend with ⟨n, r, hn, hafter⟩ | ⟨n, phase, s, hn, hlimit, haborted, hfatal⟩
    · rw [run_of_after? hafter hn]
      exact hfinish r (calm_of_after? hp hnotes hstart hafter).2
    · rw [run_of_aborted haborted hlimit]
      exact hfinish _ (haborted.rested hp hnotes haligned hconst hstart hn hfatal)
  refine hrested.imp_right fun hrested => ?_
  obtain ⟨v, c, stood, hv, hc, hsettings⟩ := hrested p i x hx
  refine ⟨v, c, hv, hc, fun a b vs hmatch hspaced => ⟨fun hsteps => ?_, fun hsteps => ?_⟩⟩
  · rw [hsettings]
    exact Value.landing_of_two_le hmatch hspaced hsteps stood
  · rw [hsettings]
    rw [hsteps] at hspaced ⊢
    exact Value.landing_one hmatch hspaced stood

end Plan

namespace Notebook

/-- A variable that should end at five, in a number of steps. -/
def descending (name : String) (steps : Int) : Variable :=
  { listed name 1 [1, 2] with const := .int 5, smoothTo := true, smoothSteps := steps }

/-- Two variables that should end at five, one of them in a single step. -/
def descendingPlan : Plan Notebook :=
  plan [[descending "x" 1, descending "y" 3]] 2 []

theorem descendingPlan_ends : ((descendingPlan.after? 14 (some .init, sampleStart)).map fun s => s.1) = some none := by
  decide +kernel

theorem descendingPlan_accepted : ledger.failed (descendingPlan.run 100 sampleStart).2.world = false := by
  decide +kernel

theorem mem_values_descending {name : String} {steps : Int} {v : Value}
    (h : .ok v ∈ (descending name steps).values) : v = .int 1 ∨ v = .int 2 := by
  rw [show (descending name steps).values = [.ok (.int 1), .ok (.int 2)] from rfl] at h
  simpa using h

/-- The variable with several steps ends at five, and the other one does not. -/
theorem descending_settings : ledger.settings (descendingPlan.run 100 sampleStart).2.world 0 1 = some (.real 5.0) ∧
      ∃ e ∈ [1.0, 2.0], ledger.settings (descendingPlan.run 100 sampleStart).2.world 0 0 = some (.real e) := by
  obtain ⟨⟨_, r⟩, hafter, rfl⟩ := Option.map_eq_some_iff.mp descendingPlan_ends
  have hstart : Unstarted sampleStart := ⟨rfl, rfl, rfl⟩
  have hconst : ∀ g ∈ descendingPlan.groups, ∀ x ∈ g, x.isConst = false → x.smoothTo = true →
      ∃ c, x.typed x.const = .ok c := by
    intro g hg x hx _ _
    obtain rfl := mem_singleton.mp hg
    rcases mem_pair.mp hx with rfl | rfl <;> exact ⟨_, rfl⟩
  have hp : descendingPlan.Private := plan_private
  have hnotes : descendingPlan.Notes ledger := plan_notes
  have hlimit : 14 ≤ 100 := by decide
  have hsettings {i : Nat} {x : Variable} (hx : descendingPlan.Descends 0 i x) :=
    (Plan.settings_of_run hp hnotes rfl hconst hstart (Or.inl ⟨14, r, hlimit, hafter⟩)
      hx).resolve_left (by rw [descendingPlan_accepted]; exact Bool.false_ne_true)
  refine ⟨?_, ?_⟩
  · obtain ⟨v, c, hv, hc, hall⟩ := hsettings (i := 1) ⟨rfl, ⟨_, _, rfl⟩, rfl, rfl⟩
    cases hc
    rcases mem_values_descending hv with rfl | rfl
    · obtain ⟨e, he, h⟩ := (hall _ _ _ rfl rfl).1 (by decide)
      cases he
      exact h
    · obtain ⟨e, he, h⟩ := (hall _ _ _ rfl rfl).1 (by decide)
      cases he
      exact h
  · obtain ⟨v, c, hv, hc, hall⟩ := hsettings (i := 0) ⟨rfl, ⟨_, _, rfl⟩, rfl, rfl⟩
    cases hc
    rcases mem_values_descending hv with rfl | rfl
    · obtain ⟨e, he, h⟩ := (hall _ _ _ rfl rfl).2 rfl
      cases he
      exact ⟨1.0, by simp, h⟩
    · obtain ⟨e, he, h⟩ := (hall _ _ _ rfl rfl).2 rfl
      cases he
      exact ⟨2.0, by simp, h⟩

end Notebook

end LabBench.Sweep
