import LabBench.Proofs.Sweep.Phases
/-!
# Turns of a run

A run takes one turn after the other: it waits while it is paused, and then performs a phase, which
names the next one. This file follows runs from turn to turn.

Nothing but the phases themselves writes the bookkeeping of a run, whatever resources, instruments
and hooks do otherwise. What a turn does to the bookkeeping is then a move from one phase to the
next, and there are few kinds of moves.
-/

namespace LabBench.Sweep.Plan

open Act

variable {σ : Type} [Clocked σ] {plan : Plan σ} {P : Run σ → Prop} {phase : Phase} {following : Option Phase}
  {r r' : Run σ} {at₀ : Option Phase × Run σ} {I : Phase → Run σ → Prop}

/-! ### Turns -/

/-- A run enters a phase. Waiting for conditions is not counted as a phase of its own. -/
def entered (phase : Phase) (r : Run σ) : Run σ :=
  if phase = .conditionalDwell then r else { r with status := { r.status with phase := some phase } }

def stepOf (plan : Plan σ) : Phase → Act (Run σ) (Option Phase)
  | .init => plan.init
  | .next => plan.next
  | .transition => plan.transition
  | .write => plan.write
  | .dwell => plan.dwell
  | .pulse => plan.pulse
  | .read => plan.read
  | .condition => plan.condition
  | .conditionalDwell => conditionalDwell
  | .rampDown => plan.rampDown
  | .finish => return none

theorem perform_eq (phase : Phase) (r : Run σ) : plan.perform phase r = plan.stepOf phase (entered phase r) := by
  cases phase <;> rfl

omit [Clocked σ] in
theorem entered_progress (phase : Phase) (r : Run σ) : (entered phase r).status.progress = r.status.progress := by
  unfold entered
  split <;> rfl

theorem Undisturbed.entered (hP : plan.Undisturbed P) (hr : P r) (phase : Phase) : P (entered phase r) := by
  unfold Plan.entered
  split
  · exact hr
  · exact hP.status r _ rfl hr

/-- The phases in which a run neither moves its dials nor sets a variable. -/
def quiet : Phase → Bool
  | .dwell | .pulse | .read | .condition | .conditionalDwell => true
  | _ => false

theorem quiet_preserves (hP : plan.Undisturbed P)
    (hitem : ∀ s : Run σ, P s → P { s with status := { s.status with item := s.status.item + 1 } })
    {phase : Phase} (hphase : quiet phase = true)
    (hdata : phase = .read → ∀ hook, plan.hooks.onData = some hook →
      ∀ t vs ms, Preserves P (hook t vs ms)) : Preserves P (plan.stepOf phase) := by
  intro r hr
  cases phase with
  | dwell => exact (dwell_leads hP hr).snd
  | pulse => exact (pulse_leads hP hr).snd
  | read => exact (read_leads hP hr (hdata rfl)).snd
  | condition => exact condition_preserves hP hitem r hr
  | conditionalDwell => exact (conditionalDwell_leads hP hr).snd
  | _ => cases hphase

/-- A property is preserved by a phase if nothing around the run disturbs it and neither the new
bookkeeping nor the resources of the variables nor, when measurements are passed on, the receiver
does. -/
theorem stepOf_preserves (hP : plan.Undisturbed P) (hrenew : ∀ r, P r → P (plan.renewed r))
    (hitem : ∀ s : Run σ, P s → P { s with status := { s.status with item := s.status.item + 1 } })
    (hw : ∀ {x : Resource (Run σ)}, plan.Sets x → ∀ v, Preserves P (x.write v)) {phase : Phase}
    (hstray : phase = .write → ∀ (s : Run σ) strays, P s → P { s with status := { s.status with strays } })
    (hnext : phase = .next → Preserves P plan.next)
    (hdata : phase = .read → ∀ hook, plan.hooks.onData = some hook →
      ∀ t vs ms, Preserves P (hook t vs ms)) : Preserves P (plan.stepOf phase) := by
  intro r hr
  cases phase with
  | init => exact (init_leads hP (hrenew r hr)).snd
  | next => exact hnext rfl r hr
  | transition => exact (transition_leads hP hr fun x hx => hw hx.sets).snd
  | write => exact (write_leads hP hr (hstray rfl) fun x hx => hw hx.sets).snd
  | rampDown => exact (rampDown_leads hP hr fun x hx => hw hx.sets).snd
  | finish => exact hr
  | _ => exact quiet_preserves hP hitem rfl hdata r hr

theorem resume_preserves (hP : plan.Undisturbed P) : Preserves P plan.resume := by
  refine Undisturbed.status?.bind fun s => ?_
  split
  · exact hP.surroundings .onPause
  · exact .pure _

/-- One turn: the run waits while it is paused, and performs a phase. There is no result if the run
has been aborted or a fault ends the turn. -/
def turn? (plan : Plan σ) (phase : Phase) (r : Run σ) : Option (Option Phase × Run σ) :=
  match plan.resume r with
  | (.ok _, s) =>
    if s.status.aborting then none
    else match plan.perform phase s with
      | (.ok following, r') => some (following, r')
      | (.error _, _) => none
  | (.error _, _) => none

/-- Where a run stands after a number of turns. -/
def after? (plan : Plan σ) : Nat → Option Phase × Run σ → Option (Option Phase × Run σ)
  | 0, stage => some stage
  | _ + 1, (none, _) => none
  | n + 1, (some phase, r) => (plan.turn? phase r).bind (plan.after? n)

theorem turn?_eq_some : plan.turn? phase r = some (following, r') ↔ ∃ s, plan.resume r = (.ok ⟨⟩, s) ∧
      s.status.aborting = false ∧ plan.perform phase s = (.ok following, r') := by
  unfold turn?
  constructor
  · intro h
    split at h
    · rename_i s hres
      split at h
      · cases h
      · rename_i habort
        split at h
        · rename_i hperf
          cases h
          exact ⟨s, hres, by simpa using habort, hperf⟩
        · cases h
    · cases h
  · rintro ⟨s, hres, habort, hperf⟩
    simp [hres, habort, hperf]

/-- A turn comes from a step of its phase, before which nothing has been disturbed. -/
theorem Undisturbed.exists_stepOf (hP : plan.Undisturbed P) (h : plan.turn? phase r = some (following, r')) (hr : P r) :
    ∃ s, P s ∧ plan.stepOf phase s = (.ok following, r') := by
  obtain ⟨s, hres, -, hperf⟩ := turn?_eq_some.mp h
  exact ⟨_, hP.entered ((resume_preserves hP).apply hres hr) phase, perform_eq phase s ▸ hperf⟩

theorem after?_induction {I : Nat → Option Phase → Run σ → Prop} {n : Nat} (hfst : I 0 at₀.1 at₀.2)
    (hstep : ∀ k phase r following r', I k (some phase) r →
      plan.turn? phase r = some (following, r') → I (k + 1) following r') (h : plan.after? n at₀ =
    some (following, r)) :
    I n following r := by
  suffices hfrom : ∀ m k (at₁ : Option Phase × Run σ), I k at₁.1 at₁.2 →
      plan.after? m at₁ = some (following, r) → I (k + m) following r by
    simpa using hfrom n 0 at₀ hfst h
  intro m
  induction m with
  | zero =>
    intro k at₁ hI hat
    cases hat
    exact hI
  | succ m ih =>
    rintro k ⟨_ | phase, r₁⟩ hI hat
    · cases hat
    · obtain ⟨⟨following₁, r₂⟩, hturn, hat⟩ := Option.bind_eq_some_iff.mp hat
      have hI' := ih (k + 1) _ (hstep k phase r₁ following₁ r₂ hI hturn) hat
      rwa [Nat.add_right_comm] at hI'

/-! ### Whole runs -/

/-- What comes after a phase: the next one, or the end of the run if the phase has failed. -/
def proceed (plan : Plan σ) (limit : Nat) (phase : Phase) : Outcome (Option Phase) → Act (Run σ) (Option Phase)
  | .ok following => plan.phases limit following
  | .error f => do
    plan.phaseFault phase f
    return none

theorem phases_succ (limit : Nat) (phase : Phase) (r : Run σ) : plan.phases (limit + 1) (some phase) r = (do
      plan.resume
      if (← Run.status?).aborting then do
        plan.breakOff
        return none
      else plan.proceed limit phase (← Act.attempt (plan.perform phase)) : Act (Run σ) (Option Phase)) r := by
  rfl

theorem phases_none (limit : Nat) (r : Run σ) : plan.phases limit none r = (.ok none, r) := by
  cases limit <;> rfl

theorem phases_of_turn? (h : plan.turn? phase r = some (following, r')) (limit : Nat) :
    plan.phases (limit + 1) (some phase) r = plan.phases limit following r' := by
  obtain ⟨s, hres, habort, hperf⟩ := turn?_eq_some.mp h
  have hattempt : Act.attempt (plan.perform phase) s = (.ok (.ok following), r') := by
    rw [attempt_eq, hperf]
  rw [phases_succ, bind_of_ok hres, run_status?_bind, habort, if_neg Bool.false_ne_true, bind_of_ok hattempt]
  rfl

theorem phases_of_after? {n : Nat} (h : plan.after? n at₀ = some (following, r)) (limit : Nat) :
    plan.phases (n + limit) at₀.1 at₀.2 = plan.phases limit following r := by
  induction n generalizing at₀ with
  | zero =>
    cases h
    rw [Nat.zero_add]
  | succ n ih =>
    obtain ⟨_ | phase, r₀⟩ := at₀
    · cases h
    · obtain ⟨⟨following₁, r₁⟩, hturn, hafter⟩ := Option.bind_eq_some_iff.mp h
      rw [Nat.add_right_comm, phases_of_turn? hturn]
      exact ih hafter

theorem finish_preserves (hP : plan.Undisturbed P)
    (hclose : ∀ hook, plan.hooks.onClose = some hook → Preserves P hook)
    (hdone : ∀ s : Run σ, P s → P { s with status := { s.status with done := true } }) : Preserves P plan.finish := by
  unfold finish
  refine Preserves.bind (hP.update (by intro s; rfl)) fun _ => Undisturbed.status?.bind fun s => ?_
  cases hhook : plan.hooks.onClose with
  | some hook =>
    have hclose := Preserves.bind (.modify hdone) fun _ =>
      hclose hook hhook
    cases s.done
    · exact hclose
    · exact (Preserves.fail _).bind fun _ => hclose
  | none =>
    have hclose := Preserves.bind (.modify hdone) fun _ =>
      .pure PUnit.unit
    cases s.done
    · exact hclose
    · exact (Preserves.fail _).bind fun _ => hclose

theorem run_eq (limit : Nat) (start : Run σ) : plan.run limit start =
    plan.conclude (plan.phases limit (some .init) start).1 (plan.phases limit (some .init) start).2 :=
  bind_of_ok (attempt_eq _ _)

omit [Clocked σ] in
theorem conclude_snd {x : Outcome (Option Phase)} (h : ∀ phase, x ≠ .ok (some phase)) (r : Run σ) :
    (plan.conclude x r).2 = (plan.finish r).2 := by
  rcases x with f | _ | phase
  · have hfail : (Act.fail f : Act (Run σ) PUnit) r = (.error f, r) := rfl
    rw [conclude, Act.always, hfail]
    dsimp only
    rcases plan.finish r with ⟨_ | _, _⟩ <;> rfl
  · rfl
  · exact absurd rfl (h phase)

theorem run_of_after? {n limit : Nat} {start : Run σ}
    (h : plan.after? n (some .init, start) = some (none, r)) (hlim : n ≤ limit) :
    (plan.run limit start).2 = (plan.finish r).2 := by
  obtain ⟨rest, rfl⟩ := Nat.exists_eq_add_of_le hlim
  rw [run_eq, phases_of_after? h rest, phases_none]
  rfl

theorem breakOff_preserves (hP : plan.Undisturbed P)
    (hcont : ∀ s : Run σ, P s → P { s with status := { s.status with continuous := false } })
    (hw : ∀ {x : Resource (Run σ)}, plan.Sets x → ∀ v, Preserves P (x.write v)) : Preserves P plan.breakOff := by
  refine Undisturbed.status?.bind fun s => ?_
  have hramp : Preserves P (plan.perform .rampDown) := fun r hr => by
    rw [perform_eq]
    exact (rampDown_leads hP (hP.entered hr _) fun x hx => hw hx.sets).snd
  split
  · exact Preserves.bind (.modify hcont) fun _ =>
      hramp.bind fun _ => .pure _
  · exact .pure _

theorem phaseFault_preserves (hP : plan.Undisturbed P) (phase : Phase) (f : Fault) :
    Preserves P (plan.phaseFault phase f) := by
  unfold phaseFault
  cases hhook : plan.hooks.onFault with
  | none => exact .pure _
  | some hook => exact hP.surroundings (.onFault (show plan.endless.hooks.onFault = _ from hhook) phase f)

/-- A property that every phase preserves holds at the end, however it comes. Here `I` says what else
is known before each phase; it is not known after a fault. -/
theorem phases_induction (hI : ∀ phase, plan.Undisturbed (I phase))
    (hP : plan.Undisturbed P) (hbreak : Preserves P plan.breakOff)
    (hstep : ∀ phase r, I phase r → P r → P (plan.stepOf phase r).2 ∧
      ∀ following r', plan.stepOf phase r = (.ok (some following), r') → I following r')
    (limit : Nat) (hr : I phase r) (hPr : P r) : P (plan.phases limit (some phase) r).2 := by
  induction limit generalizing phase r with
  | zero => exact hPr
  | succ limit ih =>
    rw [phases_succ]
    rcases hres : plan.resume r with ⟨f | _, s⟩
    · rw [bind_of_error hres]
      exact (resume_preserves hP).apply hres hPr
    obtain ⟨hs, hPs⟩ := (resume_preserves ((hI phase).and hP)).apply hres ⟨hr, hPr⟩
    rw [bind_of_ok hres, run_status?_bind]
    cases s.status.aborting with
    | true => exact hbreak.bind (fun _ => .pure none) s hPs
    | false =>
      obtain ⟨hPs', hnext⟩ :=
        hstep phase _ ((hI phase).entered hs phase) (hP.entered hPs phase)
      rw [if_neg Bool.false_ne_true, bind_of_ok (attempt_eq _ _), perform_eq]
      rcases hperf : plan.stepOf phase (entered phase s) with ⟨f | following, s'⟩
      · rw [hperf] at hPs'
        exact (phaseFault_preserves hP phase f).bind (fun _ => .pure none) s' hPs'
      · rw [hperf] at hPs'
        cases following with
        | none =>
          rw [show plan.proceed limit phase (.ok none) s' = (.ok none, s') from phases_none limit s']
          exact hPs'
        | some following => exact ih (hnext following s' hperf) hPs'

theorem run_induction (hI : ∀ phase, plan.Undisturbed (I phase)) (hP : plan.Undisturbed P)
    (hclose : ∀ hook, plan.hooks.onClose = some hook → Preserves P hook)
    (hdone : ∀ s : Run σ, P s → P { s with status := { s.status with done := true } })
    (hbreak : Preserves P plan.breakOff)
    (hstep : ∀ phase r, I phase r → P r → P (plan.stepOf phase r).2 ∧
      ∀ following r', plan.stepOf phase r = (.ok (some following), r') → I following r')
    (limit : Nat) {start : Run σ} (hfst : I .init start) (hstart : P start) : P (plan.run limit start).2 := by
  have hphases := phases_induction hI hP hbreak hstep limit hfst hstart
  rw [run_eq]
  generalize (plan.phases limit (some .init) start).1 = x
  by_cases hx : ∃ phase, x = .ok (some phase)
  · obtain ⟨phase, rfl⟩ := hx
    exact hphases
  · rw [conclude_snd (not_exists.mp hx)]
    exact finish_preserves hP hclose hdone _ hphases

/-! ### Moves -/

/-- Nothing outside of a run writes its bookkeeping: resources, instruments and hooks may do what they
want with the world, and may pause or abort the run, but leave its place in the sweep to the run. -/
structure Private (plan : Plan σ) : Prop where
  surroundings : ∀ {α : Type} {act : Act (Run σ) α}, plan.Surrounds α act → Keeps (fun r => r.status.progress) act
  resources : ∀ {x : Resource (Run σ)}, plan.Sets x → ∀ v, Keeps (fun r => r.status.progress) (x.write v)
  data : ∀ {hook : Float → List Value → List Value → Act (Run σ) PUnit},
    plan.hooks.onData = some hook → ∀ t vs ms, Keeps (fun r => r.status.progress) (hook t vs ms)

/-- What is seen of the bookkeeping. -/
theorem Private.undisturbed_view {α : Type} (hp : plan.Private) (view : Progress → α) (c : α) :
    plan.Undisturbed fun r => view r.status.progress = c where
  status _ _ hs hr := (congrArg view hs).trans hr
  surroundings hact r hr := (congrArg view (hp.surroundings hact.of_endless r)).trans hr

theorem Private.undisturbed (hp : plan.Private) (c : Progress) : plan.Undisturbed fun r => r.status.progress = c :=
  hp.undisturbed_view id c

theorem Private.progress_resume (hp : plan.Private) (h : plan.resume r = (.ok ⟨⟩, r')) :
    r'.status.progress = r.status.progress :=
  (resume_preserves (hp.undisturbed _)).apply h rfl

/-- The moves of the bookkeeping, each with the phase that makes it and the phase that follows. -/
inductive Moves (plan : Plan σ) : Phase → Progress → Option Phase → Progress → Prop
  | renew (p : Progress) : Moves plan .init p (some .next)
      { p with dials := none, last := none, item := -1, periods := some plan.periods }
  | start {p : Progress} {dials : List Dial} (hnone : p.dials = none)
      (hstart : (plan.groups.map fun g => g.map Variable.values).mapM Dial.start = .ok dials) :
      Moves plan .next p (some .transition)
        { p with item := p.item + 1, dials := some dials,
                 changed := positionsFrom 0 plan.groups.length }
  | turn {p : Progress} {dials dials' : List Dial} {moved : Option Nat} (hsome : p.dials = some dials)
      (hturn : turnAll dials = .ok (dials', moved)) :
      Moves plan .next p (some .transition)
        { p with item := p.item + 1, dials := some dials', last := some (dials.map (·.row)),
                 changed := positionsFrom (moved.elim (-1) fun k => k) plan.groups.length }
  | transition (p : Progress) : Moves plan .transition p (some .write) p
  | write (p : Progress) : Moves plan .write p (some .dwell) { p with strays := [] }
  | dwell {p : Progress} (hchanged : p.changed ≠ []) :
      Moves plan .dwell p (some (if plan.pulsing.isSome then .pulse else .read)) p
  | pulse (p : Progress) : Moves plan .pulse p (some .read) p
  | read (p : Progress) : Moves plan .read p (some .condition) p
  | hold {p : Progress} (hguards : plan.guards ≠ []) : Moves plan .condition p (some .conditionalDwell) p
  | complete {p : Progress} (hitem : p.item = plan.itemCount - 1) :
      Moves plan .condition p (some .rampDown) { p with item := p.item + 1 }
  | goOn {p : Progress} (hitem : p.item ≠ plan.itemCount - 1) : Moves plan .condition p (some .next) p
  | wait (p : Progress) : Moves plan .conditionalDwell p (some .read) p
  | rampDown (p : Progress) : Moves plan .rampDown p none p
  | again {p : Progress} (hcontinuous : p.continuous = true) : Moves plan .rampDown p (some .init) p

namespace Moves

variable {phase : Phase} {following : Option Phase} {p p' : Progress}

section

omit [Clocked σ]

theorem of_init (h : plan.Moves .init p following p') : following = some .next ∧ p'.dials = none := by
  cases h
  exact ⟨rfl, rfl⟩

theorem of_transition (h : plan.Moves .transition p following p') : following = some .write ∧ p' = p := by
  cases h
  exact ⟨rfl, rfl⟩

theorem of_write (h : plan.Moves .write p following p') : following = some .dwell ∧ p' = { p with strays := [] } := by
  cases h
  exact ⟨rfl, rfl⟩

/-- A phase in which no variable is set leaves the dials alone, and none follows in which only some
of the variables are set. -/
theorem of_quiet (h : plan.Moves phase p following p') (hphase : quiet phase = true) :
    p'.dials = p.dials ∧ ∃ phase', following = some phase' ∧
      (phase' = .next ∨ phase' = .rampDown ∨ quiet phase' = true) := by
  cases h with
  | dwell => cases plan.pulsing <;> exact ⟨rfl, _, rfl, Or.inr (Or.inr rfl)⟩
  | pulse | read | hold | wait => exact ⟨rfl, _, rfl, Or.inr (Or.inr rfl)⟩
  | complete => exact ⟨rfl, _, rfl, Or.inr (Or.inl rfl)⟩
  | goOn => exact ⟨rfl, _, rfl, Or.inl rfl⟩
  | _ => cases hphase

theorem of_read (h : plan.Moves .read p following p') : following = some .condition ∧ p' = p := by
  cases h
  exact ⟨rfl, rfl⟩

theorem of_hold (h : plan.Moves .condition p (some .conditionalDwell) p') : p' = p := by
  cases h
  rfl

theorem of_conditionalDwell (h : plan.Moves .conditionalDwell p following p') : following = some .read ∧ p' = p := by
  cases h
  exact ⟨rfl, rfl⟩

theorem of_rampDown (h : plan.Moves .rampDown p following p') :
    p' = p ∧ (following = none ∨ (following = some .init ∧ p.continuous = true)) := by
  cases h with
  | rampDown => exact ⟨rfl, Or.inl rfl⟩
  | again hcont => exact ⟨rfl, Or.inr ⟨rfl, hcont⟩⟩

theorem isNone_eq_false (h : plan.Moves phase p following p') (hphase : phase ≠ .rampDown) :
    following.isNone = false := by
  cases h with
  | rampDown => exact absurd rfl hphase
  | _ => rfl

theorem continuous_eq (h : plan.Moves phase p following p') : p'.continuous = p.continuous := by
  cases h <;> rfl

end

end Moves

/-- Counts the phases from one reading to the next, over the start of a new cycle if need be. -/
def paces : Option Phase → Nat
  | some .condition => 0
  | some .conditionalDwell | some .rampDown => 1
  | some .init | some .finish | none => 2
  | some .next => 3
  | some .transition => 4
  | some .write => 5
  | some .dwell => 6
  | some .pulse => 7
  | some .read => 8

theorem paces_le (following : Option Phase) : paces following ≤ 8 := by
  unfold paces
  split <;> decide

omit [Clocked σ] in
theorem Moves.paces_lt {p p' : Progress} (h : plan.Moves phase p following p') (hread : phase ≠ .read) :
    paces (some phase) < paces following := by
  cases h with
  | dwell => cases plan.pulsing <;> simp [paces]
  | read => exact absurd rfl hread
  | _ => simp [paces]

theorem Private.moves_stepOf (hp : plan.Private) (hphase : phase ≠ .finish)
    (h : plan.stepOf phase r = (.ok following, r')) :
    plan.Moves phase r.status.progress following r'.status.progress := by
  have hP := hp.undisturbed r.status.progress
  have hw (positions : List Int) : ∀ x, plan.SetsAt positions x → ∀ v,
      Preserves (fun s => s.status.progress = r.status.progress) (x.write v) :=
    fun x hx v => (hp.resources hx.sets v).preserves _
  cases phase with
  | init =>
    obtain ⟨rfl, hr'⟩ := (init_leads (hp.undisturbed (plan.renewed r).status.progress) rfl).1 _ _ h
    rw [hr']
    exact .renew _
  | next =>
    obtain ⟨rfl, ⟨hnone, dials, hstart, rfl⟩ | ⟨dials, dials', moved, hsome, hturn, rfl⟩⟩ :=
      next_eq_ok h
    · exact .start hnone hstart
    · exact .turn hsome hturn
  | transition =>
    obtain ⟨rfl, hr'⟩ := (transition_leads hP rfl (hw _)).1 _ _ h
    rw [hr']
    exact .transition _
  | write =>
    -- the writers that are late leave the rest of the bookkeeping alone
    let rest (p : Progress) : Progress := { p with strays := [] }
    have hleads := write_leads (hp.undisturbed_view rest (rest r.status.progress)) rfl (fun _ _ hs => hs)
      fun x hx v s hs => (congrArg rest (hp.resources hx.sets v s)).trans hs
    obtain ⟨rfl, hr'⟩ := hleads.1 _ _ h
    have hnone : r'.status.progress = rest r'.status.progress := by
      obtain ⟨-, _, _, -, -, rfl⟩ := write_eq_ok h
      rfl
    rw [hnone.trans hr']
    exact .write _
  | dwell =>
    obtain ⟨⟨rfl, hchg⟩, hr'⟩ := (dwell_leads hP rfl).1 _ _ h
    rw [hr']
    exact .dwell hchg
  | pulse =>
    obtain ⟨rfl, hr'⟩ := (pulse_leads hP rfl).1 _ _ h
    rw [hr']
    exact .pulse _
  | read =>
    obtain ⟨rfl, hr'⟩ :=
      (read_leads hP rfl fun hook hhook t vs ms => (hp.data hhook t vs ms).preserves _).1 _ _ h
    rw [hr']
    exact .read _
  | condition =>
    obtain ⟨s₀, vs, s, -, hvs, hs, hcases⟩ := condition_eq_ok hP rfl h
    rcases hcases with ⟨hall, rfl, rfl⟩ | ⟨-, hitem, rfl, rfl⟩ | ⟨-, hitem, rfl, rfl⟩
    · rw [hs]
      refine .hold fun hguards => ?_
      rw [dueGuards_of_isEmpty hguards] at hvs
      cases hvs
      cases hall
    · have hmoved : plan.Moves .condition s.status.progress (some .rampDown)
          { s.status.progress with item := s.status.progress.item + 1 } := .complete (hs ▸ hitem)
      exact hs ▸ hmoved
    · rw [hs]
      exact .goOn hitem
  | conditionalDwell =>
    obtain ⟨rfl, hr'⟩ := (conditionalDwell_leads hP rfl).1 _ _ h
    rw [hr']
    exact .wait _
  | rampDown =>
    obtain ⟨hnext, hr'⟩ := (rampDown_leads hP rfl (hw _)).1 _ _ h
    rw [hr']
    obtain rfl | ⟨rfl, hcont⟩ := hnext
    · exact .rampDown _
    · exact .again hcont
  | finish => exact absurd rfl hphase

theorem Private.moves (hp : plan.Private) (hphase : phase ≠ .finish) (h : plan.turn? phase r = some (following, r')) :
    plan.Moves phase r.status.progress following r'.status.progress := by
  obtain ⟨s, hs, hstep⟩ := (hp.undisturbed _).exists_stepOf h rfl
  rw [← hs]
  exact hp.moves_stepOf hphase hstep

end LabBench.Sweep.Plan
