import LabBench.Proofs.Number.Binary
import LabBench.Proofs.Quantity.Conversion
import LabBench.Proofs.Sweep.Resting
/-!
# Ramps that go on from where they are

A ramp should start where its resource stands. This file follows the resources of the variables through
a run, phase by phase, and compares where they stand with the starts of the ramps. Ramps from one item
to the next and at the end of a cycle do start where their resources stand. If a run is aborted, this
depends on the phase before which the abort is noticed: between the choice of an item and the moment
when its values have been set, and after the end of a cycle, the values of the item are not those of
the resources.

## Main results

* `ramps_of_after?`
-/

namespace LabBench

open Act List

/-! ### The first value of a ramp -/

namespace Quantity

open Number

/-- Nothing comes of nothing when a quantity is made again, unless the magnitude is not finite. -/
theorem isZero_of_renew {q c : Quantity Float} (h : q.renew = .ok c)
    (hq : q.magnitude.isFinite → IsZero q.magnitude) (hc : c.magnitude.isFinite) : IsZero c.magnitude := by
  obtain ⟨x, hx, h⟩ := Outcome.bind_eq_ok.mp h
  obtain ⟨factor, ten, hmag⟩ := exists_of_make h
  rw [hmag] at hc ⊢
  obtain ⟨hfac, hprod⟩ := isFinite_of_isFinite_mul hc
  obtain ⟨hcut, hten⟩ := isFinite_of_isFinite_mul hprod
  have hfin : x.isFinite := by
    by_contra hnot
    have hself : Magnitude.cutTen x = x := cutDigits_eq_self (Or.inr hnot) 10
    exact hnot (hself ▸ hcut)
  have hzero : IsZero x := by
    unfold inUnits at hx
    split at hx
    · cases hx
      exact (hq (isFinite_of_isFinite_div hfin)).div_of_isFinite hfin
    · cases hx
  rw [show Magnitude.cutTen x = x from cutDigits_eq_self (Or.inl hzero) 10]
  exact mul_isZero hfac (hzero.mul hten)

/-- A ramp of quantities starts with the magnitude of its start, unless that of its first quantity is
not finite. -/
theorem head_of_spaced {a b : Quantity Float} {count : Nat} {qs : List (Quantity Float)}
    (hcnt : 0 < count) (h : spaced a b count = .ok qs) :
    ∃ e rest, qs = e :: rest ∧ (e.magnitude.isFinite → (e.magnitude == a.magnitude) = true) := by
  obtain ⟨n, rfl⟩ := Nat.exists_eq_succ_of_ne_zero (Nat.ne_of_gt hcnt)
  obtain ⟨step, h⟩ := spaced_eq_ok h
  rw [range_succ_eq_map, mapM_cons, onRamp_first] at h
  obtain ⟨e, he, h⟩ := Outcome.bind_eq_ok.mp h
  obtain ⟨rest, -, h⟩ := Outcome.bind_eq_ok.mp h
  cases h
  refine ⟨e, rest, rfl, fun hfin => ?_⟩
  obtain ⟨s, hmul, hadd⟩ := Outcome.bind_eq_ok.mp he
  obtain ⟨copy, -, hprod⟩ := Outcome.bind_eq_ok.mp hmul
  obtain ⟨-, -, hrenew⟩ := Outcome.bind_eq_ok.mp hadd
  obtain ⟨zero, hzero, hsum⟩ := Outcome.bind_eq_ok.mp hrenew
  cases hprod
  cases hsum
  obtain ⟨hzeroFinite, ha⟩ := isFinite_of_isFinite_add hfin
  refine (isZero_of_renew hzero (fun hprod => ?_) hzeroFinite).add_beq ha
  exact mul_isZero (isFinite_of_isFinite_mul hprod).1 ⟨.positive, rfl⟩

end Quantity

namespace Value

theorem matchZero_of_asFloat? {a b : Value} {x y : Float} (ha : a.asFloat? = some (.ok x))
    (hb : b.asFloat? = some (.ok y)) : matchZero a b = .ok (a, b) := by
  cases a with
  | quantity => cases ha
  | _ =>
    cases b with
    | quantity => cases hb
    | _ => rfl

variable {steps : Int}

theorem ramp_of_asFloat? {first last : Value} {x y : Float}
    (hx : first.asFloat? = some (.ok x)) (hy : last.asFloat? = some (.ok y)) (hsteps : 0 ≤ steps) :
    ramp first last steps = .ok ((Number.spaced x y steps.toNat).map .real) := by
  have hspace : spaced first last steps = .ok ((Number.spaced x y steps.toNat).map .real) := by
    have hneg : ¬steps < 0 := by omega
    cases first with
    | flag | int | real =>
      cases last with
      | flag | int | real =>
        simp only [spaced, hneg, if_false, hx, hy]
        rfl
      | _ => cases hy
    | _ => cases hx
  rw [ramp, matchZero_of_asFloat? hx hy]
  exact hspace

/-- How a ramp starts. The first of its numbers is equal to its start exactly if their distance is
finite; the first of its quantities has the magnitude of its start, unless this is not finite. -/
structure Starts (first last : Value) (steps : Int) : Prop where
  numbers : ∀ x y, first.asFloat? = some (.ok x) → last.asFloat? = some (.ok y) →
    ∃ z rest, ramp first last steps = .ok (.real z :: rest) ∧
      ((z == x) = true ↔ (Number.spacing x y steps.toNat).isFinite)
  quantities : ∀ p q vs, first = .quantity p → last = .quantity q →
    ramp first last steps = .ok vs → ∃ e rest, vs = .quantity e :: rest ∧
      (e.magnitude.isFinite → (e.magnitude == p.magnitude) = true)

theorem starts (first last : Value) (hsteps : 1 ≤ steps) : Starts first last steps where
  numbers x y hx hy := by
    obtain ⟨z, hz, hiff⟩ := @Number.head?_spaced x y steps.toNat (by omega)
    obtain ⟨rest, hrest⟩ := head?_eq_some_iff.mp hz
    refine ⟨z, rest.map .real, ?_, hiff⟩
    rw [ramp_of_asFloat? hx hy (by omega), hrest, map_cons]
  quantities p q vs hp hq hramp := by
    subst hp hq
    obtain ⟨⟨a, b⟩, hmatch, hspace⟩ := Outcome.bind_eq_ok.mp hramp
    obtain ⟨-, -, hmatch⟩ := Outcome.bind_eq_ok.mp hmatch
    cases hmatch
    obtain ⟨-, ⟨p', q', qs, hp, hq, hqs, rfl⟩ | ⟨x, y, hx, -⟩⟩ := spaced_eq_ok hspace
    · cases hp
      cases hq
      obtain ⟨e, rest, rfl, he⟩ := Quantity.head_of_spaced (by omega) hqs
      exact ⟨e, rest.map .quantity, rfl, he⟩
    · cases hx

/-- A ramp leads to the same value from wherever it is known to start. -/
theorem landing_mono {first last e : Value} {stood stood' : Option Value}
    (hstood : ∀ v, stood = some v → stood' = some v) (h : landing first last steps stood = some e) :
    landing first last steps stood' = some e := by
  unfold landing at h ⊢
  split at h
  · rename_i vs hvs
    cases hlast : vs.getLast? with
    | none =>
      rw [hlast] at h
      exact hstood e h
    | some v =>
      rw [hlast] at h
      exact h
  · exact hstood e h

end Value

namespace Sweep.Plan

variable {σ : Type} [Clocked σ] {plan : Plan σ} {all : List Variable} {ledger : Ledger σ}
  {now before : List (List Value)} {wanted : Variable → Bool}
  {ends : Variable → Value → Value → Outcome (Value × Value)}
  {stood : Nat → Nat → Option Value} {positions : List Int} {s : Run σ}

/-! ### Where the resources stand -/

/-- The resources stand at given values, unless one has refused a value. Nothing is said about places
without a value. -/
def StandsAt (plan : Plan σ) (ledger : Ledger σ) (stood : Nat → Nat → Option Value) (w : σ) : Prop :=
  ledger.failed w = true ∨ ∀ q j name x v, cell plan.resources q j = some (name, some x) →
    stood q j = some v → ledger.settings w q j = some v

namespace StandsAt

omit [Clocked σ] in
theorem decided : Decided ledger (plan.StandsAt ledger stood) := by
  intro w w' hset hfail h
  rw [StandsAt, hset]
  exact h.imp_left hfail

omit [Clocked σ] in
theorem of_none (h : ∀ q j, stood q j = none) (w : σ) : plan.StandsAt ledger stood w :=
  Or.inr fun q j _ _ _ _ hv => by cases (h q j).symm.trans hv

end StandsAt

section

omit [Clocked σ]

theorem SetBefore.standsAt {rows : List (List Value)} {p : Nat} {w : σ}
    (h : plan.SetBefore ledger rows p w) (hrows : rows.length ≤ p) : plan.StandsAt ledger (cell rows) w := by
  refine or_iff_not_imp_left.mpr fun hfail q j name x v hx hv => ?_
  obtain ⟨row, hrow, -⟩ := Option.bind_eq_some_iff.mp hv
  have hq : q < p := (List.getElem?_eq_some_iff.mp hrow).1.trans_le hrows
  exact (h q j hq).resolve_left hfail name x v hx hv

/-- Where smooth changes in the groups at some positions leave the resources. -/
def ramped (plan : Plan σ) (positions : List Int) (now before : List (List Value))
    (wanted : Variable → Bool) (ends : Variable → Value → Value → Outcome (Value × Value))
    (stood : Nat → Nat → Option Value) (q j : Nat) : Option Value :=
  match cell plan.groups q j, cell now q j, cell before q j with
  | some x, some v, some w =>
    if (q : Int) ∈ positions ∧ x.isConst = false ∧ wanted x = true then
      match ends x v w with
      | .ok (a, b) => Value.landing a b x.smoothSteps (stood q j)
      | .error _ => stood q j
    else stood q j
  | _, _, _ => stood q j

theorem ramped_of_changeAt {q j : Nat} {c : Change (Run σ)}
    (h : plan.ChangeAt now before wanted ends (q, j) c) (hq : (q : Int) ∈ positions) :
    plan.ramped positions now before wanted ends stood q j = Value.landing c.first c.last c.steps (stood q j) := by
  obtain ⟨-, x, v, w, hx, hconst, hwant, hv, hw, hends, hsteps⟩ := h
  simp only [ramped, show cell plan.groups q j = some x from hx, show cell now q j = some v from hv,
    show cell before q j = some w from hw, hends, hsteps]
  exact if_pos ⟨hq, hconst, hwant⟩

theorem ramped_of_forall_not {q j : Nat}
    (h : ∀ x v w, cell plan.groups q j = some x → cell now q j = some v → cell before q j = some w →
      ¬((q : Int) ∈ positions ∧ x.isConst = false ∧ wanted x = true)) :
    plan.ramped positions now before wanted ends stood q j = stood q j := by
  unfold ramped
  split
  · rename_i x v w hx hv hw
    exact if_neg (h x v w hx hv hw)
  · rfl

end

theorem StandsAt.rampAll (hnotes : plan.Notes ledger) {m : Nat} {changes : List (Change (Run σ))}
    (hchgs : plan.changesAt (positionsFrom m plan.groups.length) now before wanted ends =
      .ok changes) {r : Run σ} (h : plan.StandsAt ledger stood r.world) :
    plan.StandsAt ledger (plan.ramped (positionsFrom m plan.groups.length) now before wanted ends stood)
      (plan.rampAll changes r).2.world := by
  obtain ⟨marked, rfl, hnd, hmark, hall⟩ := exists_marked_of_changesAt hchgs
  have hrscs : ∀ k ∈ marked, cell plan.resources k.1.1 k.1.2 = some (k.2.name, k.2.resource) :=
    fun k hk => (hmark k hk).2.resource
  have helse := rampAll_elsewhere hnotes hrscs r
  by_cases hfail : ledger.failed (plan.rampAll (marked.map (·.2)) r).2.world = true
  · exact Or.inl hfail
  refine Or.inr fun q j name x v hx hv => ?_
  have hstood : ∀ v, stood q j = some v → ledger.settings r.world q j = some v := fun v hv =>
    h.resolve_left (fun hr => hfail (helse.failed hr)) q j name x v hx hv
  by_cases hhere : ∃ c, ((q, j), c) ∈ marked
  · obtain ⟨c, hc⟩ := hhere
    obtain ⟨hm, hchg⟩ := hmark _ hc
    have hcx : c.resource = some x := by
      have hrsc := hx.symm.trans hchg.resource
      simpa using (congrArg (fun o => o.map (·.2)) hrsc).symm
    rw [ramped_of_changeAt hchg (mem_positionsFrom.mpr ⟨q, rfl, hm, ?_⟩)] at hv
    · rw [(rampAll_lands hnotes hnd hrscs r hc hcx).resolve_left hfail]
      exact Value.landing_mono hstood hv
    · obtain ⟨-, y, -, -, hy, -⟩ := hchg
      obtain ⟨g, hg, -⟩ := Option.bind_eq_some_iff.mp hy
      exact (List.getElem?_eq_some_iff.mp hg).1
  · have hsame : (q, j) ∉ marked.map (·.1) := by
      rintro hmem
      obtain ⟨⟨place, c⟩, hc, rfl⟩ := mem_map.mp hmem
      exact hhere ⟨c, hc⟩
    rw [helse.settings q j hsame]
    rw [ramped_of_forall_not] at hv
    · exact hstood v hv
    · rintro y a b hy ha hb ⟨hq, hconst, hwant⟩
      obtain ⟨_, hsame, hm, hn⟩ := mem_positionsFrom.mp hq
      obtain rfl := Int.ofNat.inj hsame
      exact hhere (hall q j y _ a b hm hn hy hx ha hb hconst hwant)

/-- Where the resource at a place stands before a phase, by the bookkeeping of the run. -/
def whereabouts (plan : Plan σ) (phase : Phase) (p : Progress) : Nat → Nat → Option Value :=
  match phase with
  | .init =>
    plan.ramped (positionsFrom 0 plan.groups.length) p.rows p.rows (·.smoothTo)
      (fun x v _ => do return (v, ← x.typed x.const)) (cell p.rows)
  | .transition => cell (p.last.getD [])
  | .write =>
    match p.last with
    | none =>
      plan.ramped (positionsFrom 0 plan.groups.length) p.rows p.rows (·.smoothFrom)
        (fun x v _ => do return (← x.typed x.const, v)) (cell [])
    | some old =>
      plan.ramped p.changed.tail p.rows old (·.smoothTransition) (fun _ v w => .ok (w, v)) (cell old)
  | _ => cell p.rows

section

variable {p : Progress}

section

omit [Clocked σ]

theorem whereabouts_transition : plan.whereabouts .transition p = cell (p.last.getD []) := rfl

theorem whereabouts_write_of_none (h : p.last = none) : plan.whereabouts .write p =
    plan.ramped (positionsFrom 0 plan.groups.length) p.rows p.rows (·.smoothFrom)
      (fun x v _ => do return (← x.typed x.const, v)) (cell []) := by
  simp only [whereabouts, h]

theorem whereabouts_write_of_some {old : List (List Value)} (h : p.last = some old) : plan.whereabouts .write p =
      plan.ramped p.changed.tail p.rows old (·.smoothTransition) (fun _ v w => .ok (w, v)) (cell old) := by
  simp only [whereabouts, h]

theorem whereabouts_of_quiet {phase : Phase} (h : phase = .next ∨ phase = .rampDown ∨ quiet phase = true) :
    plan.whereabouts phase p = cell p.rows := by
  rcases h with rfl | rfl | h
  · rfl
  · rfl
  · cases phase with
    | dwell | pulse | read | condition | conditionalDwell => rfl
    | _ => cases h

end

end

omit [Clocked σ] in
theorem tail_positionsFrom (m n : Nat) : (positionsFrom m n).tail = positionsFrom ((m + 1 : Nat) : Int) n := by
  by_cases h : m < n
  · rw [positionsFrom_of_lt h, tail_cons]
  · rw [positionsFrom_of_le (by omega), positionsFrom_of_le (by omega), tail_nil]

/-- A run before a phase: what should be up to date is so, and the resources stand where they
should. -/
structure Placed (plan : Plan σ) (ledger : Ledger σ) (phase : Phase) (r : Run σ) : Prop where
  before : plan.Before ledger phase r
  stands : plan.StandsAt ledger (plan.whereabouts phase r.status.progress) r.world

namespace Placed

variable {phase following : Phase} {r r' : Run σ}

theorem undisturbed (hp : plan.Private) (hnotes : plan.Notes ledger) (phase : Phase) :
    plan.Undisturbed (plan.Placed ledger phase) where
  status r s hs hr := by
    refine ⟨(Before.undisturbed hp hnotes phase).status r s hs hr.before, ?_⟩
    rw [hs]
    exact hr.stands
  surroundings {α act} hact r hr := by
    refine ⟨(Before.undisturbed hp hnotes phase).surroundings hact r hr.before, ?_⟩
    rw [show (act r).2.status.progress = r.status.progress from hp.surroundings hact.of_endless r]
    exact (hnotes.undisturbed StandsAt.decided).surroundings hact r hr.stands

omit [Clocked σ] in
theorem of_unstarted {start : Run σ} (h : Unstarted start) : plan.Placed ledger .init start := by
  have hrows : start.status.progress.rows = [] := by
    rw [Progress.rows, show start.status.progress.dials = none from h.dials]
    rfl
  refine ⟨⟨⟨0, rfl⟩, trivial⟩, StandsAt.of_none (fun q j => ?_) _⟩
  rw [whereabouts, hrows, ramped_of_forall_not]
  · rfl
  · intro x v w hx hv
    cases hv

omit [Clocked σ] in
theorem standsAt_rows (hset : plan.SetBefore ledger r.status.progress.rows plan.groups.length r.world)
    (hshown : plan.Shown r.status.progress) : plan.StandsAt ledger (cell r.status.progress.rows) r.world := by
  refine hset.standsAt ?_
  cases hdials : r.status.progress.dials with
  | none =>
    rw [Progress.rows, hdials]
    exact Nat.zero_le _
  | some dials => exact (hshown.length_rows hdials).le

theorem transition (hnotes : plan.Notes ledger) {following : Option Phase}
    (h : plan.Placed ledger .transition r) (hstep : plan.transition r = (.ok following, r')) :
    plan.StandsAt ledger (plan.whereabouts .write r.status.progress) r'.world := by
  obtain ⟨m, hchg, hfst, -⟩ := h.before.settled
  rw [Plan.transition, run_status?_bind] at hstep
  obtain ⟨changes, hchgs, hstep⟩ := lift_bind_eq_ok.mp hstep
  obtain ⟨_, s, hramp, hstep⟩ := bind_eq_ok.mp hstep
  obtain ⟨-, rfl⟩ := pure_eq_ok.mp hstep
  have hstate : s = (plan.rampAll changes r).2 := by rw [hramp]
  have hstands := h.stands
  rw [whereabouts_transition] at hstands
  rw [hstate]
  cases hlast : r.status.last with
  | none =>
    have hnone : r.status.progress.last = none := hlast
    rw [hlast] at hchgs
    rw [whereabouts_write_of_none hnone]
    rw [hnone] at hstands
    exact hstands.rampAll hnotes hchgs
  | some old =>
    have hsome : r.status.progress.last = some old := hlast
    have htail : r.status.changed.tail = positionsFrom ((m + 1 : Nat) : Int) plan.groups.length := by
      rw [show r.status.changed = _ from hchg, tail_positionsFrom]
    rw [hlast, htail] at hchgs
    rw [whereabouts_write_of_some hsome, show r.status.progress.changed.tail = _ from htail]
    rw [hsome] at hstands
    exact hstands.rampAll hnotes hchgs

theorem rampDown (hnotes : plan.Notes ledger) {following : Option Phase}
    (h : plan.Placed ledger .rampDown r) (hstep : plan.rampDown r = (.ok following, r')) :
    plan.StandsAt ledger (plan.whereabouts .init r.status.progress) r'.world := by
  have hstands : plan.StandsAt ledger (cell r.status.progress.rows) r.world := h.stands
  rcases @rampDown_cases σ _ plan r with
    ⟨-, f, hf⟩ | ⟨-, hrows, -⟩ | ⟨-, -, ⟨f, -, hf⟩ | ⟨changes, _, hchgs, hok⟩⟩
  · cases hstep.symm.trans hf
  · refine StandsAt.of_none (fun q j => ?_) _
    rw [whereabouts, show r.status.progress.rows = [] from hrows, ramped_of_forall_not]
    · rfl
    · intro x v w hx hv
      cases hv
  · cases hstep.symm.trans hf
  · cases hstep.symm.trans hok
    exact hstands.rampAll hnotes hchgs

theorem stepOf (hplan : plan.Sweeps all) (hp : plan.Private) (hnotes : plan.Notes ledger)
    (h : plan.Placed ledger phase r) (hshown : plan.Shown r.status.progress)
    (hstep : plan.stepOf phase r = (.ok (some following), r')) : plan.Placed ledger following r' := by
  refine ⟨h.before.stepOf hplan hp hnotes hstep, ?_⟩
  obtain ⟨k, hstage⟩ := h.before.stage
  have hmoves := hp.moves_stepOf hstage.ne_finish hstep
  cases phase with
  | init =>
    obtain ⟨hnext, hdials⟩ := hmoves.of_init
    cases hnext
    refine StandsAt.of_none (fun q j => ?_) _
    rw [whereabouts_of_quiet (Or.inl rfl), Progress.rows, hdials]
    rfl
  | next =>
    obtain ⟨hnext, hcases⟩ := next_eq_ok hstep
    cases hnext
    rw [whereabouts_transition]
    rcases hcases with ⟨hnone, dials, -, rfl⟩ | ⟨dials, dials', moved, hdials, -, rfl⟩
    · rcases hstage with ⟨hfresh, -⟩ | ⟨i, hi, -⟩
      · refine StandsAt.of_none (fun q j => ?_) _
        rw [show (advanced r dials r.status.last _).status.progress.last = none from hfresh.last]
        rfl
      · obtain ⟨ds, hds, -⟩ := hi.dials
        cases hnone.symm.trans hds
    · have hstands := h.stands
      rw [whereabouts_of_quiet (Or.inl rfl), Progress.rows_of_dials hdials] at hstands
      exact hstands
  | transition =>
    obtain ⟨hnext, hprog⟩ := hmoves.of_transition
    cases hnext
    rw [hprog]
    exact h.transition hnotes hstep
  | write =>
    obtain ⟨hnext, -⟩ := hmoves.of_write
    cases hnext
    have hset := (h.before.stepOf hplan hp hnotes hstep).settled
    exact standsAt_rows hset (hmoves.shown hshown)
  | rampDown =>
    obtain ⟨hprog, hnext | ⟨hnext, -⟩⟩ := hmoves.of_rampDown
    · cases hnext
    · cases hnext
      rw [hprog]
      exact h.rampDown hnotes hstep
  | finish => exact absurd rfl hstage.ne_finish
  | dwell | pulse | read | condition | conditionalDwell =>
    obtain ⟨hdials, phase', hnext, hphase'⟩ := hmoves.of_quiet rfl
    cases hnext
    have hrows : r'.status.progress.rows = r.status.progress.rows := by
      rw [Progress.rows, hdials, Progress.rows]
    rw [whereabouts_of_quiet hphase', hrows]
    exact (quiet_preserves (hnotes.undisturbed StandsAt.decided) (fun _ hs => hs) rfl fun _ =>
      hnotes.preserves_data StandsAt.decided).apply hstep h.stands

end Placed

theorem placed_of_after? (hplan : plan.Sweeps all) (hp : plan.Private) (hnotes : plan.Notes ledger)
    {start r : Run σ} (hstart : Unstarted start) {n : Nat} {phase : Phase}
    (h : plan.after? n (some .init, start) = some (some phase, r)) : plan.Placed ledger phase r := by
  have hshown : plan.Shown start.status.progress := fun dials hdials => by
    cases hstart.dials.symm.trans hdials
  have hplaced : ∀ phase, some Phase.init = some phase → plan.Placed ledger phase start := by
    rintro phase hphase
    cases hphase
    exact Placed.of_unstarted hstart
  refine (after?_induction (I := fun _ following r => plan.Shown r.status.progress ∧
    ∀ phase, following = some phase → plan.Placed ledger phase r) ⟨hshown, hplaced⟩ ?_ h).2 phase rfl
  rintro - phase₁ r₁ following r₂ ⟨hshown₁, hplaced₁⟩ hturn
  have hpre := hplaced₁ phase₁ rfl
  obtain ⟨k, hstage⟩ := hpre.before.stage
  refine ⟨(hp.moves hstage.ne_finish hturn).shown hshown₁, ?_⟩
  rintro phase₂ rfl
  have hP := (Placed.undisturbed hp hnotes phase₁).and (hp.undisturbed r₁.status.progress)
  obtain ⟨s, ⟨hent, hs⟩, hstep⟩ := hP.exists_stepOf hturn ⟨hpre, rfl⟩
  exact hent.stepOf hplan hp hnotes (hs ▸ hshown₁) hstep

/-! ### Starts of ramps -/

/-- Smooth changes have been made one after the other, at different places. Each of them starts with the value of its
place in the rows, and finds its resource at the value that is given for the place, unless one has refused a value. -/
def Ramps (plan : Plan σ) (ledger : Ledger σ) (first : List (List Value))
    (stood : Nat → Nat → Option Value) (s t : Run σ) : Prop :=
  ∃ marked : List ((Nat × Nat) × Change (Run σ)), t = (plan.rampAll (marked.map (·.2)) s).2 ∧
    (marked.map (·.1)).Nodup ∧ ∀ front k back, marked = front ++ k :: back →
      cell plan.resources k.1.1 k.1.2 = some (k.2.name, k.2.resource) ∧
      cell first k.1.1 k.1.2 = some k.2.first ∧
      (1 ≤ k.2.steps → Value.Starts k.2.first k.2.last k.2.steps) ∧
      ∀ x v, k.2.resource = some x → stood k.1.1 k.1.2 = some v →
        ledger.failed (plan.rampAll (front.map (·.2)) s).2.world = true ∨
          ledger.settings (plan.rampAll (front.map (·.2)) s).2.world k.1.1 k.1.2 = some v

theorem Ramps.refl {first : List (List Value)} (s : Run σ) : plan.Ramps ledger first stood s s := by
  refine ⟨[], rfl, nodup_nil, fun front k back h => ?_⟩
  simp at h

theorem ramps_of_changesAt (hnotes : plan.Notes ledger) {m n : Nat} {first : List (List Value)}
    {changes : List (Change (Run σ))}
    (hchgs : plan.changesAt (positionsFrom m n) now before wanted ends = .ok changes)
    (hfst : ∀ place c, plan.ChangeAt now before wanted ends place c →
      cell first place.1 place.2 = some c.first) (h : plan.StandsAt ledger stood s.world) :
    plan.Ramps ledger first stood s (plan.rampAll changes s).2 := by
  obtain ⟨marked, rfl, hnd, hmark, -⟩ := exists_marked_of_changesAt hchgs
  refine ⟨marked, rfl, hnd, ?_⟩
  rintro front k back rfl
  have hk : k ∈ front ++ k :: back := mem_append_right _ mem_cons_self
  obtain ⟨-, hchg⟩ := hmark k hk
  refine ⟨hchg.resource, hfst k.1 k.2 hchg, Value.starts _ _, fun x v hx hv => ?_⟩
  -- the ramps before this one have moved other resources
  have helse := rampAll_elsewhere hnotes (fun l hl => (hmark l (mem_append_left _ hl)).2.resource) s
  have hnot : (k.1.1, k.1.2) ∉ front.map (·.1) := by
    rw [map_append, map_cons, nodup_append] at hnd
    exact fun hmem => hnd.2.2 _ hmem _ mem_cons_self rfl
  refine h.imp helse.failed fun h => ?_
  rw [helse.settings _ _ hnot]
  exact h _ _ _ x v (hchg.resource.trans (by rw [hx])) hv

theorem transition_ramps (hnotes : plan.Notes ledger) {m : Nat} {old : List (List Value)}
    (hlast : s.status.last = some old) (hchg : s.status.changed = positionsFrom m plan.groups.length)
    (h : plan.StandsAt ledger stood s.world) : plan.Ramps ledger old stood s (plan.transition s).2 := by
  rw [transition, run_status?_bind, hlast, hchg, tail_positionsFrom]
  dsimp only
  cases hchgs : plan.changesAt (positionsFrom ((m + 1 : Nat) : Int) plan.groups.length)
      (rows s.status) old (·.smoothTransition) fun _ v w => .ok (w, v) with
  | error f => exact Ramps.refl s
  | ok changes =>
    have hstate : ((do plan.rampAll changes; return some .write : Act (Run σ) (Option Phase)) s).2 =
        (plan.rampAll changes s).2 := by
      rw [bind_of_ok (rampAll_eq changes s)]
      rfl
    refine Eq.subst hstate.symm (ramps_of_changesAt hnotes hchgs (fun place c hc => ?_) h)
    obtain ⟨-, x, v, w, -, -, -, -, hw, hends, -⟩ := hc
    cases hends
    exact hw

theorem rampDown_ramps (hnotes : plan.Notes ledger) (h : plan.StandsAt ledger stood s.world) :
    plan.Ramps ledger (rows s.status) stood s (plan.rampDown s).2 := by
  rcases @rampDown_cases σ _ plan s with
    ⟨-, f, hf⟩ | ⟨-, -, hok⟩ | ⟨-, -, ⟨f, -, hf⟩ | ⟨changes, _, hchgs, hok⟩⟩
  · rw [hf]
    exact Ramps.refl s
  · rw [hok]
    exact Ramps.refl s
  · rw [hf]
    exact Ramps.refl s
  · rw [hok]
    refine ramps_of_changesAt hnotes hchgs (fun place c hc => ?_) h
    obtain ⟨-, x, v, w, -, -, -, hv, -, hends, -⟩ := hc
    obtain ⟨const, -, hends⟩ := Outcome.bind_eq_ok.mp hends
    cases hends
    exact hv

/-- Where the ramps of a run start, and where they find the resources. Ramps between items start with the values of
the item before, ramps at the end of a cycle with those of the last item, and both find the resources there. So do
ramps after an abort that is not fatal, if it is noticed once these values have been set and before the end of the
cycle. Otherwise the resources are on the way between two items, or at the ends of the ramps to the constants. -/
theorem ramps_of_after? (hplan : plan.Sweeps all) (hp : plan.Private) (hnotes : plan.Notes ledger)
    {start r s : Run σ} (hstart : Unstarted start) {n : Nat} {phase : Phase}
    (hafter : plan.after? n (some .init, start) = some (some phase, r))
    (hresume : plan.resume r = (.ok ⟨⟩, s)) :
    (phase = .transition → ∀ old, s.status.last = some old →
      plan.Ramps ledger old (cell old) (entered phase s) (plan.perform phase s).2) ∧
    (phase = .rampDown → plan.Ramps ledger (rows s.status) (cell (rows s.status)) (entered phase s)
        (plan.perform phase s).2) ∧
    (s.status.aborting = true → s.status.fatal = false →
      plan.Ramps ledger (rows s.status) (plan.whereabouts phase s.status.progress) (broken s) (plan.breakOff s).2 ∧
      (phase ≠ .init → phase ≠ .transition → phase ≠ .write →
        plan.whereabouts phase s.status.progress = cell (rows s.status)) ∧
      (phase = .transition → ∀ old, s.status.last = some old →
        plan.whereabouts phase s.status.progress = cell old)) := by
  have hP := Placed.undisturbed hp hnotes phase
  have hplaced : plan.Placed ledger phase s :=
    (resume_preserves hP).apply hresume (placed_of_after? hplan hp hnotes hstart hafter)
  refine ⟨?_, ?_, fun _ hfatal => ⟨?_, ?_, ?_⟩⟩
  · rintro rfl old hlast
    have hentered := hP.entered hplaced .transition
    obtain ⟨m, hchanged, -⟩ := hentered.before.settled
    have hstands := hentered.stands
    rw [whereabouts_transition, entered_progress,
      show s.status.progress.last = some old from hlast] at hstands
    rw [perform_eq]
    exact transition_ramps hnotes hlast hchanged hstands
  · rintro rfl
    rw [perform_eq]
    exact rampDown_ramps hnotes (hP.entered hplaced .rampDown).stands
  · have hramps := rampDown_ramps (s := broken s) hnotes hplaced.stands
    rw [breakOff_of_not_fatal hfatal]
    rcases hramp : plan.rampDown (broken s) with ⟨_ | _, t⟩
    · rw [Act.bind_of_error hramp]
      rwa [hramp] at hramps
    · rw [Act.bind_of_ok hramp]
      rwa [hramp] at hramps
  · intro hinit htransition hwrite
    cases phase with
    | init => exact absurd rfl hinit
    | transition => exact absurd rfl htransition
    | write => exact absurd rfl hwrite
    | _ => rfl
  · rintro rfl old hlast
    rw [whereabouts_transition, show s.status.progress.last = some old from hlast]
    rfl

end Sweep.Plan

namespace Sweep.Notebook

/-- A paused run is aborted as soon as the second item has been chosen. -/
def interrupt : Act (Run Notebook) PUnit := do
  let s ← Run.status?
  if s.phase == some .next && s.item == 1 then Run.abort

/-- A variable that should end at five, in three steps, and an interruption. -/
def interruptedPlan : Plan Notebook :=
  { plan [[descending "x" 3]] 2 [] with
    hooks := { (plan [[descending "x" 3]] 2 []).hooks with onPause := interrupt } }

def pausedStart : Run Notebook :=
  ⟨{ paused := true }, {}⟩

theorem interruptedPlan_sweeps : interruptedPlan.Sweeps [descending "x" 3] := by
  have harr : arrange [descending "x" 3] = (interruptedPlan.groups, 2) := by
    simp [arrange, descending, listed, byOrder]
    exact ⟨rfl, rfl⟩
  exact ⟨congrArg Prod.fst harr.symm, congrArg (fun a => (a.2 : Int)) harr.symm⟩

theorem idle_interrupt : Idle interrupt := by
  intro r
  rw [interrupt, Plan.run_status?_bind]
  split
  · exact ⟨_, rfl, rfl⟩
  · exact ⟨_, rfl, rfl⟩

/-- The run notices the abort before the transition to the second item. -/
theorem interruptedPlan_aborts : ∃ r s,
    interruptedPlan.after? 8 (some .init, pausedStart) = some (some .transition, r) ∧
      interruptedPlan.resume r = (.ok ⟨⟩, s) ∧ s.status.aborting = true ∧ s.status.fatal = false ∧
      Plan.rows s.status = [[.int 2]] ∧ s.status.last = some [[.int 1]] ∧ s.world.written = [((0, 0), .int 1)] ∧
      (interruptedPlan.breakOff s).2.world.written =
        [((0, 0), .real 5.0), ((0, 0), .real 3.5), ((0, 0), .real 2.0), ((0, 0), .int 1)] :=
  ⟨_, _, rfl, rfl, rfl, rfl, rfl, rfl, rfl, rfl⟩

/-- The ramp to the constant starts at two, where the resource has never been. -/
theorem interrupted_ramps : ∃ s, interruptedPlan.Aborted (some .init, pausedStart) 8 .transition s ∧
    s.status.fatal = false ∧ ledger.settings s.world 0 0 = some (.int 1) ∧
    interruptedPlan.Ramps ledger [[.int 2]] (cell [[.int 1]]) (Plan.broken s) (interruptedPlan.breakOff s).2 ∧
    (interruptedPlan.breakOff s).2.world.written =
      [((0, 0), .real 5.0), ((0, 0), .real 3.5), ((0, 0), .real 2.0), ((0, 0), .int 1)] := by
  obtain ⟨r, s, hafter, hresume, habort, hfatal, hrows, hlast, hwritten, hafterwards⟩ :=
    interruptedPlan_aborts
  obtain ⟨hramps, -, hwhere⟩ := (Plan.ramps_of_after? interruptedPlan_sweeps
    (pausing_private idle_interrupt) (pausing_notes idle_interrupt) ⟨rfl, rfl, rfl⟩ hafter hresume).2.2 habort hfatal
  rw [hrows, hwhere rfl _ hlast] at hramps
  refine ⟨s, ⟨⟨r, hafter, hresume⟩, habort⟩, hfatal, ?_, hramps, hafterwards⟩
  simp only [ledger, hwritten]
  rfl

end Sweep.Notebook

end LabBench
