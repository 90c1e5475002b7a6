import LabBench.Proofs.Sweep.Ends
/-!
# The close of a run

Whatever fails during a run, and whenever it is aborted, the run is closed exactly once, and does
nothing after that. Writers that nobody waits for may do so, if the writers of a turn have failed. A
fault in a phase ends a run quietly. Only on the way to the constants after an abort is nothing done
about faults, and the run itself fails if the abort is noticed before the first cycle or if a constant
is not of the form of its variable.

What happens around a run is seen in a *journal* that the world keeps.

## Main results

* `run_closes`
-/

namespace LabBench.Sweep

open Act List

namespace Plan

variable {σ ε : Type} [Clocked σ] {plan : Plan σ} {P : Run σ → Prop}

omit [Clocked σ] in
/-- What a run does not count or turn on the way to its next item. -/
theorem next_view {α : Type} (view : Status → α)
    (hview : ∀ s item dials last changed, view { s with item, dials, last, changed } = view s) (r : Run σ) :
    view (plan.next r).2.status = view r.status := by
  rcases h : plan.next r with ⟨f | following, r'⟩
  · rw [next_eq_error h]
    exact hview _ _ _ _ _
  · rcases next_eq_ok h with ⟨-, ⟨-, dials, -, rfl⟩ | ⟨dials, dials', moved, -, -, rfl⟩⟩ <;> exact hview _ _ _ _ _

/-! ### Journals -/

/-- A computation adds entries to a journal, and none that closes it. -/
def Adds {α : Type} (entries : σ → List ε) (closing : ε → Prop) (act : Act (Run σ) α) : Prop :=
  ∀ r, ∃ es, entries (act r).2.world = entries r.world ++ es ∧ ∀ e ∈ es, ¬closing e

/-- A journal of what happens around the runs of a plan: only the receiver of the end closes it. -/
structure Journaled (plan : Plan σ) (entries : σ → List ε) (closing : ε → Prop)
    (close : Act (Run σ) PUnit) : Prop where
  surroundings : ∀ {α : Type} {act : Act (Run σ) α}, plan.endless.Surrounds α act → Adds entries closing act
  resources : ∀ {x : Resource (Run σ)}, plan.Sets x → ∀ v, Adds entries closing (x.write v)
  data : ∀ {hook : Float → List Value → List Value → Act (Run σ) PUnit},
    plan.hooks.onData = some hook → ∀ t vs ms, Adds entries closing (hook t vs ms)
  onClose : plan.hooks.onClose = some close
  close : ∀ r, ∃ e, entries (close r).2.world = entries r.world ++ [e] ∧ closing e

/-- Neither waiting nor the receivers of faults in phases and of the end fail. -/
structure Reliable (plan : Plan σ) : Prop where
  pause : ∀ r, ¬plan.hooks.onPause.Fails r
  fault : ∀ hook, plan.hooks.onFault = some hook → ∀ phase f r, ¬(hook phase f).Fails r
  close : ∀ hook, plan.hooks.onClose = some hook → ∀ r, ¬hook.Fails r

variable {entries : σ → List ε} {closing : ε → Prop} {close : Act (Run σ) PUnit} {start : Run σ}

/-- A run that has not been closed since some state of the world. -/
structure Unclosed (entries : σ → List ε) (closing : ε → Prop) (w : σ) (r : Run σ) : Prop where
  entries : ∃ es, entries r.world = entries w ++ es ∧ ∀ e ∈ es, ¬closing e
  done : r.status.done = false

omit [Clocked σ] in
theorem Adds.preserves {α : Type} {act : Act (Run σ) α} (h : Adds entries closing act)
    (hdone : Keeps (fun r => r.status.progress) act) (w : σ) : Preserves (Unclosed entries closing w) act := by
  rintro r ⟨⟨es, hes, hopen⟩, hr⟩
  obtain ⟨es', hes', hopen'⟩ := h r
  refine ⟨⟨es ++ es', ?_, forall_mem_append.mpr ⟨hopen, hopen'⟩⟩, ?_⟩
  · rw [hes', hes, append_assoc]
  · exact (congrArg Progress.done (hdone r)).trans hr

omit [Clocked σ] in
theorem Unclosed.of_world {w : σ} {r r' : Run σ} (h : Unclosed entries closing w r)
    (hworld : r'.world = r.world) (hdone : r'.status.done = r.status.done) : Unclosed entries closing w r' :=
  ⟨hworld ▸ h.entries, hdone.trans h.done⟩

theorem Journaled.unclosed (hp : plan.Private) (hj : plan.Journaled entries closing close)
    (hdone : start.status.done = false) (limit : Nat) :
    Unclosed entries closing start.world (plan.phases limit (some .init) start).2 := by
  have hP : plan.Undisturbed (Unclosed entries closing start.world) :=
    { status := fun _ _ hs hr => hr.of_world rfl (congrArg Progress.done hs)
      surroundings := fun hact => (hj.surroundings hact).preserves (hp.surroundings hact.of_endless) _ }
  have hw {x : Resource (Run σ)} (hx : plan.Sets x) (v : Value) :=
    (hj.resources hx v).preserves (hp.resources hx v) start.world
  refine phases_induction (I := fun _ _ => True) (fun _ => undisturbed_true) hP
    (breakOff_preserves hP (fun _ hr => hr.of_world rfl rfl) hw) (fun phase s _ hs => ⟨?_, fun _ _ _ => trivial⟩) limit
    trivial ⟨⟨[], (append_nil _).symm, by simp⟩, hdone⟩
  exact stepOf_preserves hP (fun _ hr => hr.of_world rfl rfl) (fun _ hr => hr.of_world rfl rfl) hw
    (fun _ _ _ hr => hr.of_world rfl rfl)
    (fun _ r hr => hr.of_world (next_world r) (next_view Status.done (fun _ _ _ _ _ => rfl) r))
    (fun _ hook hhook t vs ms => (hj.data hhook t vs ms).preserves (hp.data hhook t vs ms) _) s hs

omit [Clocked σ] in
theorem finish_eq {r : Run σ} (hclose : plan.hooks.onClose = some close) (h : r.status.done = false) : plan.finish r =
      close { r with status := { r.status with phase := some .finish, done := true } } := by
  rw [finish, run_update_bind, run_status?_bind]
  simp only [h, hclose]
  rfl

/-! ### The end of a run -/

/-- A run has made a number of turns without a fault or an abort, and goes on. -/
def GoesOn (plan : Plan σ) (start : Run σ) (n : Nat) : Prop :=
  ∃ phase r, plan.after? n (some .init, start) = some (some phase, r)

/-- The writers of a turn fail: a value cannot be passed on, and nobody waits for the writers. -/
def Disrupted (plan : Plan σ) (start : Run σ) (n : Nat) : Prop :=
  ∃ r s, plan.after? n (some .init, start) = some (some .write, r) ∧ plan.resume r = (.ok ⟨⟩, s) ∧
    (plan.perform .write).Fails s

theorem goesOn_iff {limit : Nat} :
    plan.GoesOn start limit ↔ ∃ phase s, plan.phases limit (some .init) start = (.ok (some phase), s) := by
  constructor
  · rintro ⟨phase, s, h⟩
    exact ⟨phase, s, phases_of_after? h 0⟩
  · rintro ⟨phase, s, h⟩
    have hnone {act : Act (Run σ) PUnit} {r : Run σ} :
        (act >>= fun _ => pure none : Act (Run σ) (Option Phase)) r ≠ (.ok (some phase), s) := by
      intro h
      obtain ⟨_, _, -, h⟩ := bind_eq_ok.mp h
      cases h
    rcases phases_cases limit (some .init) start with ⟨n, following, t, hend, hafter, heq⟩ | ⟨n, phase', r, -, -, hlast⟩
    · cases heq.symm.trans h
      obtain rfl := hend.resolve_right (Option.some_ne_none phase)
      exact ⟨phase, s, hafter⟩
    · rw [h] at hlast
      generalize hx : (Except.ok (some phase), s) = x at hlast
      cases hlast with
      | stuck => cases hx
      | aborted | failed => exact absurd hx.symm hnone

/-- The number of items of which measurements have been taken, by the phase that follows. -/
def Measured (plan : Plan σ) : Option Phase → Progress → Nat → Prop
  | some .init, _, k => k = 0
  | some .next, p, k => p.item + 1 = k ∧ k < plan.itemCount
  | some .condition, p, k => p.item + 1 = k ∧ k ≤ plan.itemCount
  | some .conditionalDwell, _, _ | some .finish, _, _ => False
  | some .rampDown, _, k => k ≤ plan.itemCount
  | some _, p, k => p.item = k ∧ k < plan.itemCount
  | none, _, _ => True

omit [Clocked σ] in
theorem Moves.measured {phase : Phase} {following : Option Phase} {p p' : Progress} {k : Nat}
    (h : plan.Moves phase p following p') (hguards : plan.guards = []) (hcount : 0 < plan.itemCount)
    (hcont : p.continuous = false) (hk : plan.Measured (some phase) p k) :
    ∃ k', plan.Measured following p' k' ∧ 9 * k + paces (some phase) < 9 * k' + paces following := by
  by_cases hread : phase = .read
  · subst hread
    obtain ⟨rfl, rfl⟩ := h.of_read
    obtain ⟨hitem, hlt⟩ := hk
    exact ⟨k + 1, ⟨by push_cast; omega, by push_cast; omega⟩, by simp only [paces]; omega⟩
  refine ⟨k, ?_, by have := h.paces_lt hread; omega⟩
  cases h with
  | renew => exact ⟨by rw [show k = 0 from hk]; rfl, by rw [show k = 0 from hk]; exact hcount⟩
  | dwell => cases plan.pulsing <;> exact hk
  | read => exact absurd rfl hread
  | hold hne => exact absurd hguards hne
  | goOn hitem => exact ⟨hk.1, by have := hk.1; have := hk.2; omega⟩
  | complete => exact hk.2
  | wait => exact False.elim hk
  | rampDown => trivial
  | again htrue => cases hcont.symm.trans htrue
  | _ => exact hk

/-- A run without guards that is not continuous comes to its end. -/
theorem Private.not_goesOn (hp : plan.Private) (hguards : plan.guards = []) (hcount : 0 < plan.itemCount)
    (hcont : start.status.continuous = false) {limit : Nat} (hlim : 9 * plan.itemCount + 6 < limit) :
    ¬plan.GoesOn start limit := by
  rintro ⟨phase, r, hafter⟩
  obtain ⟨-, -, k, hk, hpace⟩ := hp.moves_induction (I := fun n following p => p.continuous = false ∧
      ∃ k, plan.Measured following p k ∧ n + 2 ≤ 9 * k + paces following) ⟨hcont, 0, rfl, le_rfl⟩
    (fun n phase following p p' ⟨hcont, k, hk, hpace⟩ hmoves => by
      obtain ⟨k', hk', hlt⟩ := hmoves.measured hguards hcount hcont hk
      exact ⟨hmoves.continuous_eq.trans hcont, k', hk', by omega⟩) hafter
  have hpaces := paces_le (some phase)
  have hle : (k : Int) ≤ plan.itemCount := by
    cases phase with
    | init => rw [show k = 0 from hk]; exact hcount.le
    | conditionalDwell | finish => exact hk.elim
    | rampDown => exact hk
    | condition => exact hk.2
    | _ => exact hk.2.le
  omega

omit [Clocked σ] in
theorem Moves.strays {phase : Phase} {following : Option Phase} {p p' : Progress} (h : plan.Moves phase p following p')
    (hp : p.strays = []) : p'.strays = [] := by
  cases h with
  | write => rfl
  | _ => exact hp

/-- Unless the writers of some turn fail, all of them are waited for. -/
theorem Private.strays_phases (hp : plan.Private) {limit : Nat} (hstart : start.status.strays = []) :
    (plan.phases limit (some .init) start).2.status.strays = [] ∨ ∃ n < limit, plan.Disrupted start n := by
  have hP := hp.undisturbed_view (·.strays) []
  have hw {x : Resource (Run σ)} (hx : plan.Sets x) (v : Value) :
      Preserves (fun r : Run σ => r.status.progress.strays = []) (x.write v) :=
    fun s hs => (congrArg Progress.strays (hp.resources hx v s)).trans hs
  have hnone {n : Nat} {following : Option Phase} {r : Run σ}
      (h : plan.after? n (some .init, start) = some (following, r)) : r.status.progress.strays = [] :=
    (hp.moves_induction (I := fun _ _ p => p.strays = []) hstart (fun _ _ _ _ _ hI hmoves => hmoves.strays hI) h).2
  rcases phases_cases limit (some .init) start with ⟨_, _, _, -, h, heq⟩ | ⟨n, phase, r, hn, h, hlast⟩
  · rw [heq]
    exact .inl (hnone h)
  have hresume {s : Run σ} {x : Outcome PUnit} (hres : plan.resume r = (x, s)) : s.status.progress.strays = [] :=
    (resume_preserves hP).apply hres (hnone h)
  generalize plan.phases limit (some .init) start = x at hlast ⊢
  cases hlast with
  | stuck hres => exact .inl (hresume hres)
  | aborted hres =>
    exact .inl ((breakOff_preserves hP (fun _ hs => hs) hw).bind (fun _ => .pure none) _ (hresume hres))
  | failed hres hperf =>
    by_cases hwrite : phase = .write
    · subst hwrite
      exact .inr ⟨n, hn, r, _, h, hres, _, _, hperf⟩
    refine .inl ((phaseFault_preserves hP phase _).bind (fun _ => .pure none) _ ?_)
    rw [perform_eq] at hperf
    exact (stepOf_preserves hP (fun _ hs => hs) (fun _ hs => hs) hw (fun h => absurd h hwrite)
      (fun _ r hr => (next_view Status.strays (fun _ _ _ _ _ => rfl) r).trans hr) (fun _ hook hhook t vs ms s hs =>
        (congrArg Progress.strays (hp.data hhook t vs ms s)).trans hs)).apply hperf (hP.entered (hresume hres) phase)

/-! ### The close -/

/-- A run that has come to its end fails as its phases do, unless it fails when it is closed. -/
theorem run_fails_iff {limit : Nat} (hends : ¬plan.GoesOn start limit)
    (h : ¬plan.finish.Fails (plan.phases limit (some .init) start).2) :
    (plan.run limit).Fails start ↔ (plan.phases limit (some .init)).Fails start := by
  obtain ⟨_, t, ht⟩ := eq_ok_of_not_fails h
  rcases hphases : plan.phases limit (some .init) start with ⟨f | _ | phase, s⟩ <;> rw [hphases] at ht
  · have hfail : (Act.fail f : Act (Run σ) PUnit) s = (.error f, s) := rfl
    have hrun : plan.run limit start = (.error f, t) := by
      rw [run_eq, hphases, conclude, Act.always, hfail]
      dsimp only
      rw [ht]
    exact iff_of_true ⟨f, t, hrun⟩ ⟨f, s, hphases⟩
  · have hrun : plan.run limit start = (.ok ⟨⟩, t) := by
      rw [run_eq, hphases]
      exact ht
    exact iff_of_false (not_fails_of_eq_ok hrun) (not_fails_of_eq_ok hphases)
  · exact absurd (goesOn_iff.mpr ⟨phase, s, hphases⟩) hends

/-- A run comes to its end unless all its turns are made without a fault and without an abort that is noticed; if it
has no guards and is not continuous, then it does so after its items. At its end it is closed exactly once, and does
nothing after that. Only writers that nobody has waited for are left, and only if the writers of some turn have failed.
A run fails only if it notices an abort that is not fatal before its first turn, or at an item when one of the
constants is not of the form of its variable. -/
theorem run_closes (hp : plan.Private) (hj : plan.Journaled entries closing close) (hreliable : plan.Reliable)
    (haligned : plan.resources.map length = plan.groups.map length)
    (hstart : Unstarted start) (hnone : start.status.strays = []) (limit : Nat) :
    (plan.guards = [] → 0 < plan.itemCount → start.status.continuous = false → 9 * plan.itemCount + 6 < limit →
      ¬plan.GoesOn start limit) ∧
    (∀ n phase s, n < limit → plan.Aborted (some .init, start) n phase s → ¬plan.GoesOn start limit) ∧
    (plan.GoesOn start limit → (plan.run limit start).1 = .error (.plain .endless) ∧
      Unclosed entries closing start.world (plan.run limit start).2) ∧
    (¬plan.GoesOn start limit →
      (∃ es e t, (plan.run limit start).2 = (close t).2 ∧ entries t.world = entries start.world ++ es ∧
        entries (plan.run limit start).2.world = entries start.world ++ es ++ [e] ∧
        (∀ e' ∈ es, ¬closing e') ∧ closing e ∧
        ((plan.run limit start).2.status.strays = [] ∨ ∃ n < limit, plan.Disrupted start n)) ∧
      ((plan.run limit).Fails start ↔ ∃ n phase s, n < limit ∧
        plan.Aborted (some .init, start) n phase s ∧ s.status.fatal = false ∧
        (n = 0 ∨ (s.status.dials ≠ none ∧ ∃ g ∈ plan.groups, ∃ x ∈ g,
          x.isConst = false ∧ x.smoothTo = true ∧ ∃ f, x.typed x.const = .error f)))) := by
  have hunclosed := hj.unclosed hp hstart.done limit
  refine ⟨fun hguards hcount hcont => hp.not_goesOn hguards hcount hcont, fun n phase s hlim haborted hgoes => ?_,
    fun hgoes => ?_, fun hends => ?_⟩
  · obtain ⟨_, _, hphases⟩ := goesOn_iff.mp hgoes
    obtain ⟨_, _, -, h⟩ := bind_eq_ok.mp ((haborted.phases_eq hlim).symm.trans hphases)
    cases h
  · obtain ⟨phase, s, hphases⟩ := goesOn_iff.mp hgoes
    rw [hphases] at hunclosed
    rw [run_eq, hphases]
    exact ⟨rfl, hunclosed⟩
  have hended (phase : Phase) (s : Run σ) : plan.phases limit (some .init) start ≠ (.ok (some phase), s) :=
    fun h => hends (goesOn_iff.mpr ⟨phase, s, h⟩)
  have hfinish := finish_eq hj.onClose hunclosed.done
  refine ⟨?_, ?_⟩
  · obtain ⟨es, hes, hopen⟩ := hunclosed.entries
    obtain ⟨e, he, hclosing⟩ := hj.close { (plan.phases limit (some .init) start).2 with status :=
        { (plan.phases limit (some .init) start).2.status with phase := some .finish, done := true } }
    have hrun : (plan.run limit start).2 = _ := (congrArg Prod.snd (run_eq limit start)).trans
      (conclude_snd (fun phase hx => hended phase _ (Prod.ext hx rfl)) _)
    rw [hrun, hfinish]
    refine ⟨es, e, _, rfl, hes, by rw [he, hes], hopen, hclosing, (hp.strays_phases hnone).imp_left fun hstrays => ?_⟩
    exact (congrArg Progress.strays (hp.surroundings (.onClose hj.onClose) _)).trans hstrays
  · have hclosed : ¬plan.finish.Fails (plan.phases limit (some .init) start).2 := by
      rw [Act.fails_congr hfinish]
      exact hreliable.close close hj.onClose _
    rw [run_fails_iff hends hclosed, phases_fails_iff hreliable.pause hreliable.fault]
    refine exists_congr fun n => exists_congr fun phase => exists_congr fun s => ?_
    exact and_congr_right fun _ => and_congr_right fun haborted =>
      haborted.fails_iff hp haligned hstart

end Plan

/-! ### A logbook -/

inductive Note where
  | set (v : Value)
  | data (vs : List Value)
  | waited
  | closed

/-- A world with a clock that notes what happens to it. -/
structure Logbook where
  time : Float := 0.0
  notes : List Note := []

namespace Logbook

instance : Clocked Logbook where
  time w := w.time
  setTime t w := { w with time := t }

def add (note : Note) : Act (Run Logbook) PUnit :=
  Run.onWorld (modify fun w => { w with notes := w.notes ++ [note] })

/-- A plan for a run that is paused after its first measurements, and is then aborted. -/
def plan (groups : List (List Variable)) (itemCount : Int) : Plan Logbook where
  groups
  itemCount
  resources := groups.map fun g => g.map fun x => (x.name, none)
  hooks :=
    { onData := some fun _ vs _ => do
        add (.data vs)
        Run.pause
      onPause := do
        add .waited
        Run.abort
      onClose := some (add .closed) }

variable {groups : List (List Variable)} {itemCount : Int}

theorem length_resources : (plan groups itemCount).resources.map length = groups.map length := by
  simp [plan, Function.comp_def]

theorem not_sets (x : Resource (Run Logbook)) : ¬(plan groups itemCount).Sets x := by
  simp [Plan.Sets, plan]

theorem plan_private : (plan groups itemCount).Private where
  surroundings hact r := by
    cases hact with
    | clock | onPause => rfl
    | check hgs => cases hgs
    | onClose h =>
      cases h
      rfl
    | measure h | configure h | play h | onWrite h | onRead h | onResourceFault h | onFault h => cases h
  resources hx := absurd hx (not_sets _)
  data hhook t vs ms r := by
    cases hhook
    rfl

theorem plan_journaled : (plan groups itemCount).Journaled notes (fun e => e = .closed) (add .closed) where
  surroundings hact r := by
    cases hact with
    | clock => exact ⟨[], (append_nil _).symm, by simp⟩
    | onPause => exact ⟨[.waited], rfl, by simp⟩
    | check hgs => cases hgs
    | measure h | configure h | play h | onWrite h | onRead h | onResourceFault h | onFault h
    | onClose h => cases h
  resources hx := absurd hx (not_sets _)
  data hhook t vs ms r := by
    cases hhook
    exact ⟨[.data vs], rfl, by simp⟩
  onClose := rfl
  close r := ⟨.closed, rfl, rfl⟩

theorem plan_reliable : (plan groups itemCount).Reliable where
  pause _ := not_fails_of_eq_ok rfl
  fault _ h := by cases h
  close _ h _ := by
    cases h
    exact not_fails_of_eq_ok rfl

/-- A variable that should go down to a text, although it takes whole numbers. -/
def mistyped : Variable :=
  { Notebook.listed "x" 1 [1, 2] with const := .text "off", smoothTo := true, form := .integer }

/-- The run of the variable fails when it is aborted, and is closed all the same. -/
theorem mistyped_closes : ((plan [[mistyped]] 2).run 100).Fails ⟨{}, {}⟩ ∧
      ∃ es, ((plan [[mistyped]] 2).run 100 ⟨{}, {}⟩).2.world.notes = es ++ [.closed] ∧ .closed ∉ es := by
  have hp : (plan [[mistyped]] 2).Private := plan_private
  have hstart : Unstarted (⟨{}, {}⟩ : Run Logbook) := ⟨rfl, rfl, rfl⟩
  obtain ⟨-, hends, -, hcloses⟩ := Plan.run_closes hp plan_journaled plan_reliable length_resources hstart rfl 100
  have hafter : (((plan [[mistyped]] 2).after? 6 (some .init, ⟨{}, {}⟩)).map fun s =>
      (s.1, s.2.status.paused, s.2.status.dials.isSome)) = some (some .condition, true, true) := by
    decide +kernel
  obtain ⟨⟨following, r⟩, hr, heq⟩ := Option.map_eq_some_iff.mp hafter
  simp only [Prod.mk.injEq] at heq
  obtain ⟨rfl, hpaused, hdials⟩ := heq
  have hresume : (plan [[mistyped]] 2).resume r = (plan [[mistyped]] 2).hooks.onPause r := by
    rw [Plan.resume, Plan.run_status?_bind, hpaused]
    rfl
  have haborted : (plan [[mistyped]] 2).Aborted (some .init, ⟨{}, {}⟩) 6 .condition _ := ⟨⟨r, hr, hresume⟩, rfl⟩
  obtain ⟨⟨es, e, t, -, -, hes, hopen, rfl, -⟩, hfails⟩ := hcloses (hends 6 _ _ (by decide) haborted)
  refine ⟨hfails.mpr ⟨6, _, _, by decide, haborted, rfl, .inr ⟨?_, ?_⟩⟩, es, by simpa using hes,
    fun hmem => hopen _ hmem rfl⟩
  · exact Option.isSome_iff_ne_none.mp hdials
  · exact ⟨_, mem_cons_self, _, mem_cons_self, rfl, rfl, _, rfl⟩

/-- A plan in which the values cannot be passed on, and all writers are late. -/
def unawaited : Plan Logbook :=
  { plan [[Notebook.listed "x" 1 [1, 2]]] 2 with
    resources := [[("x", some { setter := some fun v => add (.set v) })]]
    hooks := { onWrite := some fun _ _ _ => .fail (.plain .badValue), onClose := some (add .closed) }
    late := fun _ _ _ => true }

/-- The variable is set after the run has been closed. -/
theorem unawaited_set : ((unawaited.run 100 >>= fun _ => unawaited.overtime) ⟨{}, {}⟩).2.world.notes =
    [.closed, .set (.int 1)] :=
  rfl

end Logbook

end LabBench.Sweep
