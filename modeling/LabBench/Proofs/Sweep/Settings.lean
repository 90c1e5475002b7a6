import LabBench.Proofs.Sweep.Standing
/-!
# The settings of a sweep

From one item to the next a run sets only the variables of those groups that have changed. This file
shows that nothing goes out of date: whenever the values of an item are passed on, every resource has
been set to the value that is passed on for its variable, although ramps have taken it through other
values in between.

Which values have been set is read off from the world through a *ledger*. The places before some place
are up to date at any time; a transition leaves them so, and setting the variables moves the place on
to the end.

## Main results

* `faithful_records`
-/

namespace LabBench.Sweep

open Act List

/-- The element of a group at a place in the group. -/
def cell {α : Type} (groups : List (List α)) (p i : Nat) : Option α :=
  groups[p]?.bind fun g => g[i]?

/-- What can be seen of a run in the world: the value to which the resource at a place in a group has
been set last, whether a resource has refused a value, and the records, each with what was seen at its
time. -/
structure Ledger (σ : Type) where
  settings : σ → Nat → Nat → Option Value
  failed : σ → Bool
  records : σ → List (List Value × (Nat → Nat → Option Value) × Bool)

/-- The settings and the records are the same later, and a failure is not forgotten. -/
structure Ledger.Later {σ : Type} (ledger : Ledger σ) (w w' : σ) : Prop where
  settings : ledger.settings w' = ledger.settings w
  failed : ledger.failed w = true → ledger.failed w' = true
  records : ledger.records w' = ledger.records w

namespace Plan

variable {σ : Type} [Clocked σ] {plan : Plan σ} {all : List Variable} {ledger : Ledger σ} {phase : Phase}
  {p : Progress} {x : Resource (Run σ)} {w : σ} {r r' : Run σ} {m n : Nat}

/-- A ledger that is kept: every resource is that of one variable and changes only the setting of this
variable, a value that is refused is noted as a failure, and what is passed on is recorded. -/
structure Notes (plan : Plan σ) (ledger : Ledger σ) : Prop where
  surroundings : ∀ {α : Type} {act : Act (Run σ) α}, plan.Surrounds α act → ∀ r, ledger.Later r.world (act r).2.world
  elsewhere : ∀ {p i name x}, cell plan.resources p i = some (name, some x) → ∀ v r, (∀ q j, (q, j) ≠ (p, i) →
      ledger.settings (x.write v r).2.world q j = ledger.settings r.world q j) ∧
    (ledger.failed r.world = true → ledger.failed (x.write v r).2.world = true) ∧
    ledger.records (x.write v r).2.world = ledger.records r.world
  written : ∀ {p i name x}, cell plan.resources p i = some (name, some x) → ∀ v r,
    (x.write v r).1 = .ok ⟨⟩ → ledger.settings (x.write v r).2.world p i = some v
  refused : ∀ {p i name x}, cell plan.resources p i = some (name, some x) → ∀ v r f, (x.write v r).1 = .error f →
      ledger.failed (plan.resourceFault name f true (x.write v r).2).2.world = true
  data : ∃ hook, plan.hooks.onData = some hook ∧ ∀ t vs ms r,
    ledger.settings (hook t vs ms r).2.world = ledger.settings r.world ∧
    (ledger.failed r.world = true → ledger.failed (hook t vs ms r).2.world = true) ∧
    ledger.records (hook t vs ms r).2.world =
      ledger.records r.world ++ [(vs, ledger.settings r.world, ledger.failed r.world)]

/-- Only the settings and the failures decide whether a property holds. -/
def Decided (ledger : Ledger σ) (P : σ → Prop) : Prop :=
  ∀ w w', ledger.settings w' = ledger.settings w → (ledger.failed w = true → ledger.failed w' = true) → P w → P w'

theorem Notes.preserves (hnotes : plan.Notes ledger) {P : σ → Prop} (hP : Decided ledger P) {α : Type}
    {act : Act (Run σ) α} (hact : plan.Surrounds α act) : Preserves (fun r => P r.world) act :=
  fun r => hP _ _ (hnotes.surroundings hact r).settings (hnotes.surroundings hact r).failed

theorem Notes.undisturbed (hnotes : plan.Notes ledger) {P : σ → Prop} (hP : Decided ledger P) :
    plan.Undisturbed fun r => P r.world :=
  ⟨fun _ _ _ hr => hr, fun hact => hnotes.preserves hP hact.of_endless⟩

theorem Notes.preserves_data (hnotes : plan.Notes ledger) {P : σ → Prop} (hP : Decided ledger P)
    (hook : Float → List Value → List Value → Act (Run σ) PUnit) (hhook : plan.hooks.onData = some hook)
    (t : Float) (vs ms : List Value) : Preserves (fun r => P r.world) (hook t vs ms) := by
  intro r hr
  obtain ⟨hook', hhook', hdata⟩ := hnotes.data
  obtain rfl : hook' = hook := Option.some.inj (hhook'.symm.trans hhook)
  obtain ⟨hset, hfail, -⟩ := hdata t vs ms r
  exact hP _ _ hset hfail hr

/-! ### Positions -/

section

omit [Clocked σ]

theorem elementAt_natCast {α : Type} {xs : List α} {p : Nat} {x : α} :
    elementAt xs p = .ok x ↔ xs[p]? = some x := by
  have hp : ¬(p : Int) < 0 := by omega
  simp only [elementAt, hp, if_false, Int.natCast_nonneg, if_true, Int.toNat_natCast]
  cases xs[p]? <;> simp

theorem positionsFrom_of_lt (h : m < n) : positionsFrom m n = (m : Int) :: positionsFrom ((m + 1 : Nat) : Int) n := by
  have hcnt : ((n : Int) - (m : Int)).toNat = ((n : Int) - ((m + 1 : Nat) : Int)).toNat + 1 := by
    omega
  rw [positionsFrom, positionsFrom, hcnt, range_succ_eq_map, map_cons, map_map]
  refine congrArg₂ _ (by simp) (map_congr_left fun k _ => ?_)
  simp only [Function.comp_apply, Int.ofNat_eq_natCast]
  omega

theorem positionsFrom_of_le (h : n ≤ m) : positionsFrom m n = [] := by
  have hcnt : ((n : Int) - (m : Int)).toNat = 0 := by omega
  rw [positionsFrom, hcnt]
  rfl

theorem mem_positionsFrom {c : Int} : c ∈ positionsFrom m n ↔ ∃ q : Nat, c = q ∧ m ≤ q ∧ q < n := by
  simp only [positionsFrom, mem_map, mem_range, Int.ofNat_eq_natCast]
  constructor
  · rintro ⟨k, hk, rfl⟩
    exact ⟨m + k, by omega, by omega, by omega⟩
  · rintro ⟨q, rfl, hm, hn⟩
    exact ⟨q - m, by omega, by omega⟩

end

/-! ### Places that are up to date -/

/-- The resource at a place has been set to the value of the rows, unless one has refused a value. -/
def UpToDate (plan : Plan σ) (ledger : Ledger σ) (rows : List (List Value)) (q j : Nat) (w : σ) : Prop :=
  ledger.failed w = true ∨ ∀ name x v, cell plan.resources q j = some (name, some x) → cell rows q j = some v →
    ledger.settings w q j = some v

/-- The resources in all groups before a group have been set to the values of the rows, unless one has refused a
value. -/
def SetBefore (plan : Plan σ) (ledger : Ledger σ) (rows : List (List Value)) (p : Nat) (w : σ) : Prop :=
  ∀ q j, q < p → plan.UpToDate ledger rows q j w

section

variable {rows rows' : List (List Value)} {p q i j : Nat} {w w' : σ} {x : Resource (Run σ)} {name : String} {v : Value}

omit [Clocked σ] in
theorem UpToDate.decided : Decided ledger (plan.UpToDate ledger rows q j) := by
  intro w w' hset hfail h
  rw [UpToDate, hset]
  exact h.imp_left hfail

theorem UpToDate.write (hnotes : plan.Notes ledger) (hx : cell plan.resources p i = some (name, some x))
    (hne : (q, j) ≠ (p, i)) (v : Value) : Preserves (fun r => plan.UpToDate ledger rows q j r.world) (x.write v) := by
  intro r h
  obtain ⟨hset, hfail, -⟩ := hnotes.elsewhere hx v r
  rw [UpToDate, hset q j hne]
  exact h.imp_left hfail

/-- To write the value of a variable brings its own place up to date, and leaves the others as they are. -/
theorem UpToDate.writeResource (hnotes : plan.Notes ledger) (hx : cell plan.resources p i = some (name, some x))
    (hv : cell rows p i = some v) (r : Run σ) (h : plan.UpToDate ledger rows q j r.world ∨ (q, j) = (p, i)) :
    plan.UpToDate ledger rows q j (plan.writeResource name x v r).2.world := by
  rw [Plan.writeResource, bind_of_ok (attempt_eq _ _)]
  cases hwrite : (x.write v r).1 with
  | error f => exact .inl (hnotes.refused hx v r f hwrite)
  | ok _ =>
    by_cases hhere : (q, j) = (p, i)
    · cases hhere
      refine .inr fun name' x' v' _ hv' => ?_
      obtain rfl : v' = v := Option.some.inj (hv'.symm.trans hv)
      exact hnotes.written hx v' r hwrite
    · exact UpToDate.write hnotes hx hhere v r (h.resolve_right hhere)

namespace SetBefore

omit [Clocked σ] in
theorem decided : Decided ledger (plan.SetBefore ledger rows p) :=
  fun _ _ hset hfail h q j hq => UpToDate.decided _ _ hset hfail (h q j hq)

omit [Clocked σ] in
theorem congr {m : Nat} (h : plan.SetBefore ledger rows p w) (hm : m ≤ p)
    (hrows : rows'.take m = rows.take m) : plan.SetBefore ledger rows' m w := by
  intro q j hq
  have hcell : cell rows' q j = cell rows q j := by
    rw [cell, cell, ← getElem?_take_of_lt hq, hrows, getElem?_take_of_lt hq]
  rw [UpToDate, hcell]
  exact h q j (by omega)

theorem write (hnotes : plan.Notes ledger) (hx : cell plan.resources q j = some (name, some x)) (hpast : p ≤ q)
    (v : Value) : Preserves (fun r => plan.SetBefore ledger rows p r.world) (x.write v) := by
  intro r hr q' j' hq'
  have hne : (q', j') ≠ (q, j) := by
    rw [Ne, Prod.mk.injEq]
    omega
  exact UpToDate.write hnotes hx hne v r (hr q' j' hq')

end SetBefore

end

/-! ### Phases -/

variable {rows : List (List Value)}

omit [Clocked σ] in
theorem Occurs.exists_cell {s : Status} {position : Int} {i : Nat} {resource : String × Option (Resource (Run σ))}
    {v : Value} (h : plan.Occurs s position i resource v) (hchg : s.changed = positionsFrom m n) :
    ∃ p : Nat, cell plan.resources p i = some resource ∧ cell (Plan.rows s) p i = some v := by
  obtain ⟨hpos, ⟨group, hgrp, hres⟩, values, hvals, hv⟩ := h
  obtain ⟨p, rfl, -⟩ := mem_positionsFrom.mp (hchg ▸ hpos)
  rw [elementAt_natCast] at hgrp hvals
  exact ⟨p, by rw [cell, hgrp, Option.bind_some, hres], by rw [cell, hvals, Option.bind_some, hv]⟩

omit [Clocked σ] in
theorem occurs_of_cell {s : Status} {q j : Nat} {resource : String × Option (Resource (Run σ))} {v : Value}
    (hq : (q : Int) ∈ s.changed) (hx : cell plan.resources q j = some resource)
    (hv : cell (Plan.rows s) q j = some v) : plan.Occurs s q j resource v := by
  obtain ⟨group, hgrp, hres⟩ := Option.bind_eq_some_iff.mp hx
  obtain ⟨values, hvals, hv⟩ := Option.bind_eq_some_iff.mp hv
  exact ⟨hq, ⟨group, elementAt_natCast.mpr hgrp, hres⟩, values, elementAt_natCast.mpr hvals, hv⟩

/-- Every place in the groups that have changed is brought up to date when its writer is started, or when it is waited
for if the writer is late. -/
theorem write_setBefore (hnotes : plan.Notes ledger)
    {following : Option Phase} (hchg : r.status.changed = positionsFrom m n)
    (hr : plan.SetBefore ledger (Plan.rows r.status) m r.world) (h : plan.write r = (.ok following, r')) :
    plan.SetBefore ledger (Plan.rows r.status) n r'.world := by
  obtain ⟨-, s, t, hstart, hjoin, rfl⟩ := write_eq_ok h
  intro q j hq
  have hP := hnotes.undisturbed (@UpToDate.decided _ plan ledger (Plan.rows r.status) q j)
  change plan.UpToDate ledger (Plan.rows r.status) q j t.world
  have hw {position i resource v} (hocc : plan.Occurs r.status position i resource v) (name : String)
      (x : Resource (Run σ)) (hx : resource = (name, some x)) :
      Preserves (fun r' => plan.UpToDate ledger (Plan.rows r.status) q j r'.world) (plan.writeResource name x v) := by
    subst hx
    obtain ⟨p, hcell, hv⟩ := hocc.exists_cell hchg
    exact fun r' hr' => UpToDate.writeResource hnotes hcell hv r' (.inl hr')
  have hstarts : ∀ position i resource v, plan.Occurs r.status position i resource v →
      Preserves (fun r' => plan.UpToDate ledger (Plan.rows r.status) q j r'.world) (do
        plan.startWriter r.status.item position i resource v
        plan.note position i v) := fun position i _ v hocc =>
    (startWriter_preserves (fun _ _ hs => hs) (hw hocc)).bind fun _ => hP.note position i v
  have hjoins : ∀ position i resource v, plan.Occurs r.status position i resource v →
      Preserves (fun r' => plan.UpToDate ledger (Plan.rows r.status) q j r'.world)
        (plan.joinWriter r.status.item position i resource v) := fun _ _ _ _ hocc =>
    joinWriter_preserves (hw hocc)
  rcases Nat.lt_or_ge q m with hold | hnew
  · exact (forChanged_preserves hjoins).apply hjoin ((forChanged_preserves hstarts).apply hstart (hr q j hold))
  rcases hx : cell plan.resources q j with _ | ⟨name, _ | x⟩
  · exact .inr fun _ _ _ hx' => by cases hx.symm.trans hx'
  · exact .inr fun _ _ _ hx' => by cases hx.symm.trans hx'
  rcases hv : cell (Plan.rows r.status) q j with _ | v
  · exact .inr fun _ _ _ _ hv' => by cases hv.symm.trans hv'
  have hocc := occurs_of_cell (hchg ▸ mem_positionsFrom.mpr ⟨q, rfl, hnew, hq⟩) hx hv
  have hset (r' : Run σ) := UpToDate.writeResource hnotes hx hv r' (.inr rfl)
  cases hlate : plan.late r.status.item q j with
  | true =>
    refine forChanged_establishes hocc hjoins (fun r' => ?_) hjoin
    rw [joinWriter, if_pos hlate]
    exact hset r'
  | false =>
    refine (forChanged_preserves hjoins).apply hjoin (forChanged_establishes hocc hstarts (fun r' => ?_) hstart)
    rw [startWriter, hlate, if_neg Bool.false_ne_true]
    have hset := hset r'
    rcases hwrite : plan.writeResource name x v r' with ⟨_ | _, s'⟩ <;> rw [hwrite] at hset
    · rwa [bind_of_error hwrite]
    · rw [bind_of_ok hwrite]
      exact hP.note q j v s' hset

omit [Clocked σ] in
theorem SetsAt.exists_cell {positions : List Int}
    (h : plan.SetsAt positions x) (hposs : ∀ c ∈ positions, c ∈ positionsFrom m n) :
    ∃ q j name, m ≤ q ∧ cell plan.resources q j = some (name, some x) := by
  obtain ⟨c, hc, group, name, hgrp, hmem⟩ := h
  obtain ⟨q, rfl, hq, -⟩ := mem_positionsFrom.mp (hposs c hc)
  obtain ⟨j, hj⟩ := mem_iff_getElem?.mp hmem
  refine ⟨q, j, name, hq, ?_⟩
  rw [cell, elementAt_natCast.mp hgrp, Option.bind_some, hj]

theorem transition_setBefore (hnotes : plan.Notes ledger) {m : Nat} {r : Run σ}
    (hchg : r.status.changed = positionsFrom m plan.groups.length) (hfst : r.status.last = none → m = 0)
    (hr : plan.SetBefore ledger rows m r.world) : plan.SetBefore ledger rows m (plan.transition r).2.world := by
  refine Leads.snd (transition_leads (hnotes.undisturbed SetBefore.decided) hr fun x hx v => ?_)
  have hposs : ∀ c ∈ plan.rampedAt r.status, c ∈ positionsFrom m plan.groups.length := by
    unfold rampedAt
    cases hlast : r.status.last with
    | none =>
      rw [hfst hlast]
      exact fun c hc => hc
    | some before =>
      rw [← hchg]
      exact fun c hc => mem_of_mem_tail hc
  obtain ⟨q, j, name, hq, hcell⟩ := hx.exists_cell hposs
  exact SetBefore.write hnotes hcell hq v

/-! ### What is up to date -/

/-- What is up to date before a phase, by the bookkeeping of the run. -/
def Settled (plan : Plan σ) (ledger : Ledger σ) (phase : Phase) (p : Progress) (w : σ) : Prop :=
  match phase with
  | .init | .rampDown | .finish => True
  | .next => p.dials = none ∨ plan.SetBefore ledger p.rows plan.groups.length w
  | .transition | .write =>
    ∃ m : Nat, p.changed = positionsFrom m plan.groups.length ∧ (p.last = none → m = 0) ∧
      plan.SetBefore ledger p.rows m w
  | _ => plan.SetBefore ledger p.rows plan.groups.length w

section

omit [Clocked σ]

theorem Settled.later {w' : σ} (h : plan.Settled ledger phase p w)
    (hlater : ledger.Later w w') : plan.Settled ledger phase p w' := by
  have hset {n : Nat} (h : plan.SetBefore ledger p.rows n w) : plan.SetBefore ledger p.rows n w' :=
    SetBefore.decided _ _ hlater.settings hlater.failed h
  cases phase with
  | init | rampDown | finish => trivial
  | next => exact h.imp_right hset
  | transition | write =>
    obtain ⟨m, hchg, hfst, h⟩ := h
    exact ⟨m, hchg, hfst, hset h⟩
  | _ => exact hset h

theorem Settled.of_quiet (h : plan.Settled ledger phase p w)
    (hphase : quiet phase = true) : plan.SetBefore ledger p.rows plan.groups.length w := by
  cases phase with
  | dwell | pulse | read | condition | conditionalDwell => exact h
  | _ => cases hphase

theorem settled_of_quiet (hphase : phase = .next ∨ phase = .rampDown ∨ quiet phase = true)
    (h : plan.SetBefore ledger p.rows plan.groups.length w) : plan.Settled ledger phase p w := by
  rcases hphase with rfl | rfl | hphase
  · exact Or.inr h
  · trivial
  · cases phase with
    | dwell | pulse | read | condition | conditionalDwell => exact h
    | _ => cases hphase

end

/-- A run before a phase: it stands at its item, and what should be up to date is so. -/
structure Before (plan : Plan σ) (ledger : Ledger σ) (phase : Phase) (r : Run σ) : Prop where
  stage : ∃ k, plan.Stage (some phase) r.status.progress k
  settled : plan.Settled ledger phase r.status.progress r.world

namespace Before

theorem undisturbed (hp : plan.Private) (hnotes : plan.Notes ledger) (phase : Phase) :
    plan.Undisturbed (plan.Before ledger phase) where
  status r s hs hr := by
    refine ⟨?_, ?_⟩
    · rw [hs]
      exact hr.stage
    · rw [hs]
      exact hr.settled
  surroundings {α act} hact r hr := by
    have hprog : (act r).2.status.progress = r.status.progress := hp.surroundings hact.of_endless r
    refine ⟨?_, ?_⟩
    · rw [hprog]
      exact hr.stage
    · rw [hprog]
      exact hr.settled.later (hnotes.surroundings hact.of_endless r)

omit [Clocked σ] in
theorem settled_next (hplan : plan.Sweeps all) {following : Option Phase}
    (h : plan.Before ledger .next r) (hnext : plan.next r = (.ok following, r')) :
    following = some .transition ∧ plan.Settled ledger .transition r'.status.progress r'.world := by
  obtain ⟨rfl, hcases⟩ := next_eq_ok hnext
  refine ⟨rfl, ?_⟩
  obtain ⟨k, hstage⟩ := h.stage
  rcases hcases with ⟨-, dials, -, rfl⟩ | ⟨dials, dials', moved, hdials, hturn, rfl⟩
  · exact ⟨0, rfl, fun _ => rfl, fun q j hq => by omega⟩
  · rcases hstage with ⟨hfresh, -⟩ | ⟨i, hi, hlt, -⟩
    · cases hfresh.dials.symm.trans hdials
    · obtain ⟨m, rfl, -⟩ := hi.turnAll hplan hlt hdials hturn
      obtain ⟨hm, htake⟩ := turnAll_take hturn
      have hset := h.settled.resolve_left fun hnone => by cases hnone.symm.trans hdials
      have hrows : r.status.progress.rows = dials.map (·.row) := Progress.rows_of_dials hdials
      have hlen : dials.length = plan.groups.length := by
        obtain ⟨ds, hds, hstands⟩ := hi.dials
        obtain rfl : ds = dials := Option.some.inj (hds.symm.trans hdials)
        rw [hstands.length_eq, columnsOf, length_map]
      refine ⟨m, rfl, fun hlast => (by cases hlast), hset.congr (by omega) ?_⟩
      change (dials'.map (·.row)).take m = _
      rw [hrows, ← map_take, ← map_take, htake]

theorem stepOf (hplan : plan.Sweeps all) (hp : plan.Private) (hnotes : plan.Notes ledger)
    {phase following : Phase} (h : plan.Before ledger phase r)
    (hstep : plan.stepOf phase r = (.ok (some following), r')) : plan.Before ledger following r' := by
  obtain ⟨k, hstage⟩ := h.stage
  have hmoves := hp.moves_stepOf hstage.ne_finish hstep
  refine ⟨hstage.exists_step hplan hmoves, ?_⟩
  have hquiet (hphase : quiet phase = true) : plan.Settled ledger following r'.status.progress r'.world := by
    obtain ⟨hdials, phase', hnext, hphase'⟩ := hmoves.of_quiet hphase
    cases hnext
    have hrows : r'.status.progress.rows = r.status.progress.rows := by
      rw [Progress.rows, hdials, Progress.rows]
    refine settled_of_quiet hphase' (hrows ▸ ?_)
    exact (quiet_preserves (hnotes.undisturbed SetBefore.decided) (fun _ hs => hs) hphase fun _ =>
      hnotes.preserves_data SetBefore.decided).apply hstep (h.settled.of_quiet hphase)
  cases phase with
  | init =>
    obtain ⟨hnext, hdials⟩ := hmoves.of_init
    cases hnext
    exact Or.inl hdials
  | next =>
    obtain ⟨hnext, hsettle⟩ := h.settled_next hplan hstep
    cases hnext
    exact hsettle
  | transition =>
    obtain ⟨hnext, hprog⟩ := hmoves.of_transition
    cases hnext
    obtain ⟨m, hchg, hfst, hset⟩ := h.settled
    have hset' := transition_setBefore hnotes hchg hfst hset
    rw [show plan.transition r = _ from hstep] at hset'
    rw [hprog]
    exact ⟨m, hchg, hfst, hset'⟩
  | write =>
    obtain ⟨hnext, hprog⟩ := hmoves.of_write
    cases hnext
    obtain ⟨m, hchg, -, hset⟩ := h.settled
    rw [hprog]
    exact write_setBefore hnotes hchg hset hstep
  | rampDown =>
    obtain ⟨-, hnext | ⟨hnext, -⟩⟩ := hmoves.of_rampDown
    · cases hnext
    · cases hnext
      trivial
  | finish => exact absurd rfl hstage.ne_finish
  | _ => exact hquiet rfl

end Before

/-! ### Records -/

/-- A record that was made with all settings up to date, unless a resource had refused a value: its
values are those of an item, and the resource of every variable was set to the value of this
variable. -/
def Faithful (plan : Plan σ) (e : List Value × (Nat → Nat → Option Value) × Bool) : Prop :=
  e.2.2 = false → ∃ rows : List (List Value), e.1 = rows.flatten ∧ rows.map (fun row => row.map .ok) ∈ plan.items ∧
    rows.map length = plan.groups.map length ∧
    ∀ p i name x v, cell plan.resources p i = some (name, some x) → cell rows p i = some v → e.2.1 p i = some v

omit [Clocked σ] in
theorem OnItem.faithful (hplan : plan.Sweeps all) {i : Nat}
    (h : plan.OnItem p i) (hset : plan.SetBefore ledger p.rows plan.groups.length w) :
    plan.Faithful (p.rows.flatten, ledger.settings w, ledger.failed w) := by
  intro hfail
  obtain ⟨dials, hdials, hstands⟩ := h.dials
  have hrows : p.rows = dials.map (·.row) := Progress.rows_of_dials hdials
  have hlens : p.rows.map length = plan.groups.map length := by
    rw [hrows, hstands.map_length_row, columnsOf, map_map]
    exact map_congr_left fun g _ => length_map _
  have hitem : p.rows.map (fun row => row.map .ok) ∈ plan.items := by
    rw [hrows, map_map]
    exact mem_of_getElem? (h.getElem?_items hplan hdials)
  refine ⟨p.rows, rfl, hitem, hlens, fun q j name x v hx hv => ?_⟩
  have hq : q < plan.groups.length := by
    obtain ⟨row, hrow, -⟩ := Option.bind_eq_some_iff.mp hv
    have hlt := (List.getElem?_eq_some_iff.mp hrow).1
    rwa [← length_map length, hlens, length_map] at hlt
  rcases hset q j hq with hset | hset
  · cases hset.symm.trans hfail
  · exact hset name x v hx hv

omit [Clocked σ] in
theorem Sets.exists_cell (h : plan.Sets x) : ∃ p i name, cell plan.resources p i = some (name, some x) := by
  obtain ⟨group, hgrp, name, hmem⟩ := h
  obtain ⟨p, hp⟩ := mem_iff_getElem?.mp hgrp
  obtain ⟨i, hi⟩ := mem_iff_getElem?.mp hmem
  exact ⟨p, i, name, by rw [cell, hp, Option.bind_some, hi]⟩

/-- The state of a run that started with some records: the positions of the groups that have changed
are counted from the first group, and all records since are faithful. -/
structure Sound (plan : Plan σ) (ledger : Ledger σ)
    (old : List (List Value × (Nat → Nat → Option Value) × Bool)) (r : Run σ) : Prop where
  changed : ∀ c ∈ r.status.changed, 0 ≤ c
  records : ∃ entries, ledger.records r.world = old ++ entries ∧ ∀ e ∈ entries, plan.Faithful e

namespace Sound

variable {old : List (List Value × (Nat → Nat → Option Value) × Bool)} {r r' : Run σ}

omit [Clocked σ] in
theorem congr (h : plan.Sound ledger old r) (hchg : r'.status.changed = r.status.changed)
    (hrecs : ledger.records r'.world = ledger.records r.world) : plan.Sound ledger old r' where
  changed := hchg ▸ h.changed
  records := hrecs ▸ h.records

theorem preserves (hp : plan.Private) (hnotes : plan.Notes ledger) {α : Type} {act : Act (Run σ) α}
    (hact : plan.Surrounds α act) : Act.Preserves (plan.Sound ledger old) act := fun r hr =>
  hr.congr (congrArg Progress.changed (hp.surroundings hact r)) (hnotes.surroundings hact r).records

theorem undisturbed (hp : plan.Private) (hnotes : plan.Notes ledger) : plan.Undisturbed (plan.Sound ledger old) where
  status _ _ hs hr := hr.congr (congrArg Progress.changed hs) rfl
  surroundings hact := preserves hp hnotes hact.of_endless

theorem write (hp : plan.Private) (hnotes : plan.Notes ledger) {x : Resource (Run σ)}
    (hx : plan.Sets x) (v : Value) : Preserves (plan.Sound ledger old) (x.write v) := by
  intro r hr
  obtain ⟨p, i, name, hcell⟩ := hx.exists_cell
  exact hr.congr (congrArg Progress.changed (hp.resources hx v r)) (hnotes.elsewhere hcell v r).2.2

omit [Clocked σ] in
theorem next (hplan : plan.Sweeps all) (h : plan.Sound ledger old r)
    (hpre : plan.Before ledger .next r) : plan.Sound ledger old (plan.next r).2 := by
  have hworld := @next_world σ plan r
  rcases hnext : plan.next r with ⟨f | following, r'⟩
  · rw [next_eq_error hnext]
    exact h.congr rfl rfl
  · rw [hnext] at hworld
    obtain ⟨-, m, hchg, -⟩ := hpre.settled_next hplan hnext
    refine ⟨fun c hc => ?_, (congrArg ledger.records hworld).symm ▸ h.records⟩
    rw [show r'.status.changed = _ from hchg] at hc
    obtain ⟨q, rfl, -⟩ := mem_positionsFrom.mp hc
    exact Int.natCast_nonneg q

theorem read (hplan : plan.Sweeps all) (hp : plan.Private) (hnotes : plan.Notes ledger)
    (h : plan.Sound ledger old r) (hpre : plan.Before ledger .read r) : plan.Sound ledger old (plan.read r).2 := by
  obtain ⟨hook, hhook, hdata⟩ := hnotes.data
  have hP : plan.Undisturbed fun s => plan.Before ledger .read s ∧ plan.Sound ledger old s :=
    (Before.undisturbed hp hnotes .read).and (undisturbed hp hnotes)
  rcases read_calls hP hhook ⟨hpre, h⟩ with
    ⟨f, r', hread, -, hr'⟩ | ⟨s, time, ms, ⟨hpre, hs⟩, hread⟩
  · rw [hread]
    exact hr'
  · have hstate : (plan.read r).2 = (hook time (Plan.rows s.status).flatten ms s).2 := by
      rw [hread]
      rcases hcall : hook time (Plan.rows s.status).flatten ms s with ⟨_ | _, _⟩
      · rw [bind_of_error hcall]
      · rw [bind_of_ok hcall]
        rfl
    have hentry : plan.Faithful ((Plan.rows s.status).flatten, ledger.settings s.world, ledger.failed s.world) := by
      obtain ⟨k, -, i, hi, -⟩ := hpre.stage
      exact hi.faithful hplan hpre.settled
    obtain ⟨entries, hrecs, hents⟩ := hs.records
    obtain ⟨-, -, hnew⟩ := hdata time (Plan.rows s.status).flatten ms s
    have hchg : (hook time (Plan.rows s.status).flatten ms s).2.status.changed =
        s.status.changed := congrArg Progress.changed (hp.data hhook time _ ms s)
    rw [hstate]
    refine ⟨fun c hc => hs.changed c (hchg ▸ hc), entries ++ [_], ?_,
      forall_mem_append.mpr ⟨hents, forall_mem_singleton.mpr hentry⟩⟩
    rw [hnew, hrecs, append_assoc]

theorem stepOf (hplan : plan.Sweeps all) (hp : plan.Private) (hnotes : plan.Notes ledger)
    {phase : Phase} (hpre : plan.Before ledger phase r) (h : plan.Sound ledger old r) :
    plan.Sound ledger old (plan.stepOf phase r).2 := by
  by_cases hread : phase = .read
  · subst hread
    exact h.read hplan hp hnotes hpre
  by_cases hnext : phase = .next
  · subst hnext
    exact h.next hplan hpre
  exact stepOf_preserves (undisturbed hp hnotes) (fun r hr => hr.congr rfl rfl)
    (fun r hr => hr.congr rfl rfl) (write hp hnotes) (fun _ r _ hr => hr.congr rfl rfl)
    (fun hphase => absurd hphase hnext)
    (fun hphase => absurd hphase hread) r h

end Sound

/-- All records of a run are faithful, however it goes on and ends: every resource was last set to the value that is
recorded for its variable. The positions of the groups that have changed are never counted from the end. -/
theorem faithful_records (hplan : plan.Sweeps all) (hp : plan.Private) (hnotes : plan.Notes ledger)
    {start : Run σ} (hstart : ∀ c ∈ start.status.changed, 0 ≤ c) (limit : Nat) :
    (∀ c ∈ (plan.run limit start).2.status.changed, 0 ≤ c) ∧
    ∃ entries, ledger.records (plan.run limit start).2.world = ledger.records start.world ++ entries ∧
      ∀ e ∈ entries, plan.Faithful e := by
  have hsound : plan.Sound ledger (ledger.records start.world) start := ⟨hstart, [], (append_nil _).symm, by simp⟩
  have hbreak : Act.Preserves (plan.Sound ledger (ledger.records start.world)) plan.breakOff :=
    breakOff_preserves (Sound.undisturbed hp hnotes) (fun r hr => hr.congr rfl rfl) (Sound.write hp hnotes)
  have hrun := run_induction (Before.undisturbed hp hnotes) (Sound.undisturbed hp hnotes)
    (fun _ h => Sound.preserves hp hnotes (.onClose h)) (fun r hr => hr.congr rfl rfl) hbreak
    (fun phase r hbefore hr => ⟨hr.stepOf hplan hp hnotes hbefore,
      fun following r' hstep => hbefore.stepOf hplan hp hnotes hstep⟩) limit
    ⟨⟨0, rfl⟩, trivial⟩ hsound
  exact ⟨hrun.changed, hrun.records⟩

end Plan

namespace Notebook

def ledger : Ledger Notebook where
  settings w p i := (w.written.find? fun e => e.1 == (p, i)).map (·.2)
  failed w := w.failed
  records w := w.entries.map fun e =>
    (e.1, (fun p i => (e.2.1.find? fun f => f.1 == (p, i)).map (·.2)), e.2.2)

variable {groups : List (List Variable)} {itemCount : Int} {times : List (List (Int × Float))}

theorem eq_slot {p i : Nat} {name : String} {x : Resource (Run Notebook)}
    (h : cell (groups.mapIdx fun p g => g.mapIdx fun i x => (x.name, some (slot p i))) p i = some (name, some x)) :
    x = slot p i := by
  obtain ⟨group, hgrp, hx⟩ := Option.bind_eq_some_iff.mp h
  rw [getElem?_mapIdx, Option.map_eq_some_iff] at hgrp
  obtain ⟨g, -, rfl⟩ := hgrp
  rw [getElem?_mapIdx, Option.map_eq_some_iff] at hx
  obtain ⟨y, -, hy⟩ := hx
  cases hy
  rfl

theorem pausing_notes {pause : Act (Run Notebook) PUnit} (hpause : Idle pause) :
    (pausing pause (plan groups itemCount times)).Notes ledger where
  surroundings hact r := by
    obtain ⟨status, t, b, h, -⟩ := snd_of_surrounds hpause hact r
    rw [h]
    exact ⟨rfl, fun hfail => Bool.or_eq_true_iff.mpr (Or.inl hfail), rfl⟩
  elsewhere {p i name x} hx v r := by
    obtain rfl := eq_slot hx
    rcases slot_write p i v r with h | ⟨f, h⟩ <;> rw [h]
    · refine ⟨fun q j hne => ?_, id, rfl⟩
      have hbeq : ((p, i) == (q, j)) = false := beq_eq_false_iff_ne.mpr (Ne.symm hne)
      simp only [ledger, find?_cons, hbeq]
    · exact ⟨fun q j _ => rfl, id, rfl⟩
  written {p i name x} hx v r hok := by
    obtain rfl := eq_slot hx
    rcases slot_write p i v r with h | ⟨f, h⟩
    · rw [h]
      simp [ledger]
    · rw [h] at hok
      cases hok
  refused {p i name x} hx v r f _ := Bool.or_true _
  data := ⟨_, rfl, fun t vs ms r => ⟨rfl, id, map_append⟩⟩

theorem plan_notes : (plan groups itemCount times).Notes ledger :=
  pausing_notes idle_pure

theorem samplePlan_accepted : (ledger.records (samplePlan.run 100 sampleStart).2.world).map (fun e => e.2.2) =
      replicate 6 false := by
  have h : (samplePlan.run 100 sampleStart).2.world.entries.map (fun e => e.2.2) =
      replicate 6 false := by
    decide +kernel
  rw [← h, ledger, map_map]
  rfl

/-- The records of the sample are made with all settings up to date. -/
theorem sample_faithful : (∀ c ∈ (samplePlan.run 100 sampleStart).2.status.changed, 0 ≤ c) ∧
    (ledger.records (samplePlan.run 100 sampleStart).2.world).length = 6 ∧
    ∀ e ∈ ledger.records (samplePlan.run 100 sampleStart).2.world, e.2.2 = false ∧ samplePlan.Faithful e := by
  have hstart : ∀ c ∈ sampleStart.status.changed, 0 ≤ c := by simp [sampleStart]
  obtain ⟨hchanged, entries, hrecords, hfaithful⟩ :=
    Plan.faithful_records samplePlan_sweeps plan_private plan_notes hstart 100
  have haccepted := samplePlan_accepted
  rw [hrecords] at haccepted ⊢
  refine ⟨hchanged, ?_, fun e he => ⟨?_, hfaithful e he⟩⟩
  · rw [← length_map, haccepted, length_replicate]
  · exact eq_of_mem_replicate (haccepted ▸ mem_map_of_mem he)

end Notebook

end LabBench.Sweep
