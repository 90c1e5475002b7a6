import LabBench.Proofs.Sweep.Ramps
/-!
# How runs end

A run comes to its end after the last item, after a fault, or when it notices that it has been
aborted; unless the abort is fatal it then takes the variables to their constants first. This file
says what the last ramps start from, and when they cannot be made.
-/

namespace LabBench.Sweep

open Act List Option

/-! ### Dials that show rows -/

theorem Stands.rowAt_eq {groups : List (List (List (Outcome Value)))} {dials : List Dial} {i : Nat}
    (h : Stands groups dials i) : ∀ d ∈ dials, rowAt d.position d.columns = .ok (some d.row) := by
  induction h with
  | nil => simp
  | cons hrow h ih => exact forall_mem_cons.mpr ⟨hrow, ih⟩

theorem turnAll_shows {dials dials' : List Dial} {moved : Option Nat}
    (hrows : ∀ d ∈ dials, rowAt d.position d.columns = .ok (some d.row))
    (h : turnAll dials = .ok (dials', moved)) : dials'.map (·.columns) = dials.map (·.columns) ∧
      ∀ d ∈ dials', rowAt d.position d.columns = .ok (some d.row) := by
  induction dials generalizing dials' moved with
  | nil =>
    cases h
    exact ⟨rfl, hrows⟩
  | cons d ds ih =>
    obtain ⟨hd, hds⟩ := forall_mem_cons.mp hrows
    obtain ⟨ds', m, hturn, hcases⟩ := turnAll_cons_eq_ok h
    obtain ⟨hcols, hds'⟩ := ih hds hturn
    rcases hcases with ⟨k, -, rfl, -⟩ | ⟨-, d', hd', rfl, -⟩ | ⟨-, -, d', hd', rfl, -⟩
    · exact ⟨by rw [map_cons, map_cons, hcols], forall_mem_cons.mpr ⟨hd, hds'⟩⟩
    · obtain ⟨row, hrow, rfl⟩ := Dial.turn_eq_some hd'
      exact ⟨by rw [map_cons, map_cons, hcols], forall_mem_cons.mpr ⟨hrow, hds'⟩⟩
    · obtain ⟨row, hrow, rfl⟩ := Dial.start_eq_ok hd'
      exact ⟨by rw [map_cons, map_cons, hcols], forall_mem_cons.mpr ⟨hrow, hds'⟩⟩

theorem exists_of_rowAt {columns : List (List (Outcome Value))} {k : Nat} {row : List Value}
    (h : rowAt k columns = .ok (some row)) {j : Nat} {column : List (Outcome Value)}
    (hcol : columns[j]? = some column) : ∃ v, row[j]? = some v ∧ .ok v ∈ column := by
  induction columns generalizing row j with
  | nil => simp at hcol
  | cons c columns ih =>
    obtain ⟨v, rest, hv, hrest, rfl⟩ := rowAt_cons_eq_some h
    cases j with
    | zero =>
      obtain rfl : c = column := some.inj hcol
      exact ⟨v, rfl, mem_of_getElem? hv⟩
    | succ j => exact ih hrest hcol

/-- A run that has not been started yet. It may have been paused and aborted before. -/
structure Unstarted {σ : Type} (r : Run σ) : Prop where
  periods : r.status.periods = none
  dials : r.status.dials = none
  done : r.status.done = false

namespace Plan

variable {σ : Type} [Clocked σ] {plan : Plan σ} {n : Nat} {following : Option Phase} {phase : Phase} {s : Run σ}

/-- The dials, if there are any, show rows of the groups. -/
def Shown (plan : Plan σ) (p : Progress) : Prop :=
  ∀ dials, p.dials = some dials → dials.map (·.columns) = columnsOf plan.groups ∧
    ∀ d ∈ dials, rowAt d.position d.columns = .ok (some d.row)

namespace Shown

variable {p : Progress} {dials : List Dial}

omit [Clocked σ] in
theorem length_rows (h : plan.Shown p) (hdials : p.dials = some dials) : p.rows.length = plan.groups.length := by
  have hlen := congrArg length (h dials hdials).1
  rw [length_map, columnsOf, length_map] at hlen
  rw [Progress.rows_of_dials hdials, length_map, hlen]

omit [Clocked σ] in
theorem exists_cell_rows (h : plan.Shown p) (hdials : p.dials = some dials) {q j : Nat} {x : Variable}
    (hx : cell plan.groups q j = some x) : ∃ v, cell p.rows q j = some v ∧ .ok v ∈ x.values := by
  obtain ⟨hcols, hrows⟩ := h dials hdials
  obtain ⟨g, hg, hx⟩ := bind_eq_some_iff.mp hx
  have hcol : (dials.map (·.columns))[q]? = some (g.map Variable.values) := by
    rw [hcols, columnsOf, getElem?_map, hg, map_some]
  rw [getElem?_map, map_eq_some_iff] at hcol
  obtain ⟨d, hd, hdg⟩ := hcol
  have hxs : d.columns[j]? = some x.values := by
    rw [hdg, getElem?_map, hx, map_some]
  obtain ⟨v, hv, hmem⟩ := exists_of_rowAt (hrows d (mem_of_getElem? hd)) hxs
  refine ⟨v, ?_, hmem⟩
  rw [cell, Progress.rows_of_dials hdials, getElem?_map, hd, map_some, bind_some, hv]

end Shown

/-! ### Moves -/

namespace Moves

variable {phase : Phase} {following : Option Phase} {p p' : Progress}

section

omit [Clocked σ]

theorem ne_finish (h : plan.Moves phase p following p') : following ≠ some .finish := by
  cases h with
  | dwell => cases plan.pulsing <;> simp
  | _ => simp

theorem shown (h : plan.Moves phase p following p') (hp : plan.Shown p) : plan.Shown p' := by
  cases h with
  | renew => exact fun dials hdials => by cases hdials
  | start hnone hstart =>
    intro dials hdials
    cases hdials
    exact ⟨(Stands.start hstart).columns_eq, (Stands.start hstart).rowAt_eq⟩
  | turn hsome hturn =>
    intro dials hdials
    cases hdials
    obtain ⟨hcols, hrows⟩ := hp _ hsome
    obtain ⟨hcols', hrows'⟩ := turnAll_shows hrows hturn
    exact ⟨hcols'.trans hcols, hrows'⟩
  | _ => exact hp

theorem isSome_periods (h : plan.Moves phase p following p')
    (hp : phase = .init ∨ p.periods.isSome = true) : p'.periods.isSome = true := by
  cases h with
  | renew => rfl
  | _ => exact hp.resolve_left (by simp)

end

end Moves

/-- A property of the bookkeeping that every move preserves holds after any number of turns. -/
theorem Private.moves_induction (hp : plan.Private) {I : Nat → Option Phase → Progress → Prop} {start r : Run σ}
    (hfst : I 0 (some .init) start.status.progress)
    (hstep : ∀ k phase following p p', I k (some phase) p → plan.Moves phase p following p' →
      I (k + 1) following p') (h : plan.after? n (some .init, start) = some (following, r)) :
    following ≠ some .finish ∧ I n following r.status.progress := by
  refine after?_induction (I := fun n following r => following ≠ some .finish ∧
    I n following r.status.progress) ⟨by simp, hfst⟩ ?_ h
  rintro k phase r₁ following₁ r₂ ⟨hphase, hI⟩ hturn
  have hmoves := hp.moves (fun hfin => hphase (congrArg some hfin)) hturn
  exact ⟨hmoves.ne_finish, hstep k phase following₁ _ _ hI hmoves⟩

theorem Private.shown_of_after? (hp : plan.Private) {start r : Run σ} (hstart : plan.Shown start.status.progress)
    (h : plan.after? n (some .init, start) = some (following, r)) : plan.Shown r.status.progress :=
  (hp.moves_induction (I := fun _ _ p => plan.Shown p) hstart (fun _ _ _ _ _ hI hmoves => hmoves.shown hI) h).2

theorem Private.isSome_periods_of_after? (hp : plan.Private) {start r : Run σ} (hn : n ≠ 0)
    (h : plan.after? n (some .init, start) = some (following, r)) : r.status.periods.isSome = true := by
  have hI := hp.moves_induction (I := fun k following p => (k = 0 ∧ following = some .init) ∨ p.periods.isSome = true)
    (Or.inl ⟨rfl, rfl⟩) (fun k phase following p p' hI hmoves => Or.inr ?_) h
  · exact hI.2.resolve_left fun hzero => hn hzero.1
  · exact hmoves.isSome_periods (hI.imp_left fun hinit => some.inj hinit.2)

/-! ### The last ramps -/

def lastChanges (plan : Plan σ) (rows : List (List Value)) : Outcome (List (Change (Run σ))) :=
  plan.changesAt (positionsFrom 0 plan.groups.length) rows rows (·.smoothTo) fun x v _ => do
    return (v, ← x.typed x.const)

/-- The ways in which a run goes down to the constants: there is nothing to start from before the first
cycle, nothing to be done before the first item of a cycle, and otherwise all changes are made if
they can be found. -/
theorem rampDown_cases (r : Run σ) : (r.status.periods = none ∧ ∃ f, plan.rampDown r = (.error f, r)) ∨
      (r.status.periods.isSome = true ∧ rows r.status = [] ∧ plan.rampDown r = (.ok none, r)) ∨
      (r.status.periods.isSome = true ∧ rows r.status ≠ [] ∧
        ((∃ f, plan.lastChanges (rows r.status) = .error f ∧ plan.rampDown r = (.error f, r)) ∨
          ∃ changes following, plan.lastChanges (rows r.status) = .ok changes ∧
            plan.rampDown r = (.ok following, (plan.rampAll changes r).2))) := by
  cases hpers : r.status.periods with
  | none =>
    refine Or.inl ⟨rfl, .plain .missingAttribute, ?_⟩
    rw [rampDown, run_status?_bind, hpers]
    rfl
  | some periods =>
    refine Or.inr ?_
    have hrampDown : plan.rampDown r = (if (rows r.status).isEmpty then pure none else do
        let changes ← Act.lift (plan.lastChanges (rows r.status))
        plan.rampAll changes
        return if r.status.continuous && !r.status.lastTime then some .init else none :
          Act (Run σ) (Option Phase)) r := by
      rw [rampDown, run_status?_bind, hpers]
      rfl
    rw [hrampDown]
    by_cases hrows : rows r.status = []
    · refine Or.inl ⟨rfl, hrows, ?_⟩
      rw [hrows]
      rfl
    · refine Or.inr ⟨rfl, hrows, ?_⟩
      have hempty : (rows r.status).isEmpty = false := by simpa using hrows
      rw [hempty, if_neg Bool.false_ne_true]
      cases plan.lastChanges (rows r.status) with
      | error f => exact Or.inl ⟨f, rfl, rfl⟩
      | ok changes =>
        exact Or.inr ⟨changes, if r.status.continuous && !r.status.lastTime then some .init else none,
          rfl, bind_of_ok (rampAll_eq changes r)⟩

omit [Clocked σ] in
/-- There is no way to the constants exactly if one of them is not of the form of its variable. -/
theorem lastChanges_eq_error_iff {p : Progress} {dials : List Dial} (hp : plan.Shown p)
    (hdials : p.dials = some dials) (haligned : plan.resources.map length = plan.groups.map length) :
    (∃ f, plan.lastChanges p.rows = .error f) ↔ ∃ g ∈ plan.groups, ∃ x ∈ g,
      x.isConst = false ∧ x.smoothTo = true ∧ ∃ f, x.typed x.const = .error f := by
  have hlen : plan.resources.length = plan.groups.length := by
    simpa using congrArg length haligned
  have hrows := hp.length_rows hdials
  constructor
  · rintro ⟨f, hf⟩
    obtain ⟨q, j, x, v, w, hx, -, -, hconst, hsmooth, hends⟩ :=
      changesAt_eq_error le_rfl hlen.ge hrows.ge hrows.ge hf
    obtain ⟨g, hg, hx⟩ := bind_eq_some_iff.mp hx
    refine ⟨g, mem_of_getElem? hg, x, mem_of_getElem? hx, hconst, hsmooth, f, ?_⟩
    rcases Outcome.bind_eq_error.mp hends with htyped | ⟨_, -, h⟩
    · exact htyped
    · cases h
  · rintro ⟨g, hg, x, hx, hconst, hsmooth, f, htyped⟩
    cases hchgs : plan.lastChanges p.rows with
    | error f' => exact ⟨f', rfl⟩
    | ok changes =>
      -- otherwise the variable would have its place among the changes
      exfalso
      obtain ⟨q, hq⟩ := mem_iff_getElem?.mp hg
      obtain ⟨j, hj⟩ := mem_iff_getElem?.mp hx
      have hcell : cell plan.groups q j = some x := by rw [cell, hq, bind_some, hj]
      obtain ⟨v, hv, -⟩ := hp.exists_cell_rows hdials hcell
      obtain ⟨c, hc⟩ : ∃ c, cell plan.resources q j = some c := by
        have hlens := congrArg (fun ls => ls[q]?) haligned
        simp only [getElem?_map, hq, map_some, map_eq_some_iff] at hlens
        obtain ⟨rs, hrs, hrslength⟩ := hlens
        have hlt : j < rs.length := hrslength ▸ (List.getElem?_eq_some_iff.mp hj).1
        exact ⟨rs[j], by rw [cell, hrs, bind_some, getElem?_eq_getElem hlt]⟩
      obtain ⟨marked, -, -, hmark, hall⟩ := exists_marked_of_changesAt hchgs
      obtain ⟨k, hk⟩ := hall q j x c v v (Nat.zero_le q) (List.getElem?_eq_some_iff.mp hq).1 hcell hc
        hv hv hconst hsmooth
      obtain ⟨-, -, y, a, b, hy, -, -, -, -, hends, -⟩ := hmark _ hk
      obtain rfl : x = y := some.inj (hcell.symm.trans hy)
      rw [htyped] at hends
      cases hends

/-! ### Aborts -/

/-- A run notices, after some turns and before a phase, that it has been aborted. -/
structure Aborted (plan : Plan σ) (at₀ : Option Phase × Run σ) (n : Nat) (phase : Phase)
    (s : Run σ) : Prop where
  turns : ∃ r, plan.after? n at₀ = some (some phase, r) ∧ plan.resume r = (.ok ⟨⟩, s)
  aborting : s.status.aborting = true

/-- The run that goes down to the constants because it has been aborted. -/
def broken (s : Run σ) : Run σ :=
  { s with status := { s.status with continuous := false, phase := some .rampDown } }

theorem breakOff_of_fatal (h : s.status.fatal = true) : plan.breakOff s = (.ok ⟨⟩, s) := by
  rw [breakOff, run_status?_bind, h]
  rfl

theorem breakOff_of_not_fatal (h : s.status.fatal = false) :
    plan.breakOff s = (plan.rampDown >>= fun _ => pure ⟨⟩ : Act (Run σ) PUnit) (broken s) := by
  rw [breakOff, run_status?_bind, h]
  rfl

theorem breakOff_fails_iff : plan.breakOff.Fails s ↔ s.status.fatal = false ∧ plan.rampDown.Fails (broken s) := by
  cases hfatal : s.status.fatal with
  | true => simp [not_fails_of_eq_ok (breakOff_of_fatal hfatal)]
  | false =>
    rw [fails_congr (breakOff_of_not_fatal hfatal), fails_bind_iff fun _ => not_fails_pure PUnit.unit]
    simp

/-! ### The last turn -/

/-- How the last turn of a run ends: it does not get on after a pause, it notices an abort, or its phase fails. -/
inductive LastTurn (plan : Plan σ) (phase : Phase) (r : Run σ) : Outcome (Option Phase) × Run σ → Prop
  | stuck {f : Fault} {s : Run σ} (hres : plan.resume r = (.error f, s)) : LastTurn plan phase r (.error f, s)
  | aborted {s : Run σ} (hres : plan.resume r = (.ok ⟨⟩, s)) (habort : s.status.aborting = true) :
      LastTurn plan phase r ((plan.breakOff >>= fun _ => pure none : Act (Run σ) (Option Phase)) s)
  | failed {s t : Run σ} {f : Fault} (hres : plan.resume r = (.ok ⟨⟩, s))
      (hperf : plan.perform phase s = (.error f, t)) :
      LastTurn plan phase r ((plan.phaseFault phase f >>= fun _ => pure none : Act (Run σ) (Option Phase)) t)

/-- A run makes its turns up to the limit or to its end, or until a turn is the last one. -/
theorem phases_cases (limit : Nat) (following : Option Phase) (r : Run σ) :
    (∃ n following' s, (n = limit ∨ following' = none) ∧ plan.after? n (following, r) = some (following', s) ∧
      plan.phases limit following r = (.ok following', s)) ∨
    ∃ n phase s, n < limit ∧ plan.after? n (following, r) = some (some phase, s) ∧
      plan.LastTurn phase s (plan.phases limit following r) := by
  induction limit generalizing following r with
  | zero => exact .inl ⟨0, following, r, .inl rfl, rfl, rfl⟩
  | succ limit ih =>
    rcases following with _ | phase
    · exact .inl ⟨0, none, r, .inr rfl, rfl, phases_none _ r⟩
    rw [phases_succ]
    rcases hres : plan.resume r with ⟨f | _, s⟩
    · rw [bind_of_error hres]
      exact .inr ⟨0, phase, r, limit.succ_pos, rfl, .stuck hres⟩
    rw [bind_of_ok hres, run_status?_bind]
    cases habort : s.status.aborting with
    | true => exact .inr ⟨0, phase, r, limit.succ_pos, rfl, .aborted hres habort⟩
    | false =>
      rw [if_neg Bool.false_ne_true, bind_of_ok (attempt_eq _ _)]
      rcases hperf : plan.perform phase s with ⟨f | following, s'⟩
      · exact .inr ⟨0, phase, r, limit.succ_pos, rfl, .failed hres hperf⟩
      have hafter (n : Nat) : plan.after? (n + 1) (some phase, r) = plan.after? n (following, s') := by
        rw [after?, turn?_eq_some.mpr ⟨s, hres, habort, hperf⟩, bind_some]
      rcases ih following s' with ⟨n, following', t, hend, h, heq⟩ | ⟨n, phase', t, hn, h, hlast⟩
      · exact .inl ⟨n + 1, following', t, hend.imp_left (congrArg (· + 1)), (hafter n).trans h, heq⟩
      · exact .inr ⟨n + 1, phase', t, Nat.succ_lt_succ hn, (hafter n).trans h, hlast⟩

/-- A run that notices an abort at one of its turns. -/
theorem Aborted.phases_eq {start : Run σ} {limit : Nat} (h : plan.Aborted (some .init, start) n phase s)
    (hlim : n < limit) : plan.phases limit (some .init) start =
      (plan.breakOff >>= fun _ => pure none : Act (Run σ) (Option Phase)) s := by
  obtain ⟨⟨r, hafter, hres⟩, habort⟩ := h
  obtain ⟨rest, rfl⟩ : ∃ rest, limit = n + (rest + 1) := ⟨limit - n - 1, by omega⟩
  rw [phases_of_after? hafter (rest + 1), phases_succ, bind_of_ok hres, run_status?_bind, habort, if_pos rfl]

/-- If neither waiting nor the receiver of faults fails, then a run fails exactly if it notices an abort
and fails on the way to the constants. -/
theorem phases_fails_iff (hpause : ∀ r, ¬plan.hooks.onPause.Fails r)
    (hfault : ∀ hook, plan.hooks.onFault = some hook → ∀ phase f r, ¬(hook phase f).Fails r)
    (limit : Nat) (start : Run σ) : (plan.phases limit (some .init)).Fails start ↔
      ∃ n phase s, n < limit ∧ plan.Aborted (some .init, start) n phase s ∧ plan.breakOff.Fails s := by
  constructor
  · rintro ⟨f, t, hfail⟩
    rcases phases_cases limit (some .init) start with ⟨_, _, _, -, -, heq⟩ | ⟨n, phase, r, hn, hafter, hlast⟩
    · cases heq.symm.trans hfail
    generalize plan.phases limit (some .init) start = x at hlast hfail
    cases hlast with
    | stuck hres =>
      have hres : plan.resume.Fails r := ⟨_, _, hres⟩
      rw [resume, fails_congr (run_status?_bind _ r)] at hres
      split at hres
      · exact absurd hres (hpause r)
      · exact absurd hres (not_fails_pure _ r)
    | aborted hres habort =>
      exact ⟨n, phase, _, hn, ⟨⟨r, hafter, hres⟩, habort⟩,
        (fails_bind_iff fun _ => not_fails_pure none).mp ⟨f, t, hfail⟩⟩
    | failed hres hperf =>
      have hpass : (plan.phaseFault phase _).Fails _ := (fails_bind_iff fun _ => not_fails_pure none).mp ⟨f, t, hfail⟩
      unfold phaseFault at hpass
      cases hhook : plan.hooks.onFault with
      | none =>
        rw [hhook] at hpass
        exact absurd hpass (not_fails_pure _ _)
      | some hook =>
        rw [hhook] at hpass
        exact absurd hpass (hfault hook hhook _ _ _)
  · rintro ⟨n, phase, s, hn, haborted, hfail⟩
    rw [fails_congr (haborted.phases_eq hn)]
    exact (fails_bind_iff fun _ => not_fails_pure none).mpr hfail

theorem run_of_aborted {start : Run σ} {limit : Nat}
    (h : plan.Aborted (some .init, start) n phase s) (hlim : n < limit) :
    (plan.run limit start).2 = (plan.finish (plan.breakOff s).2).2 := by
  rw [run_eq, h.phases_eq hlim]
  rcases hbreak : plan.breakOff s with ⟨f | _, t⟩
  · rw [bind_of_error hbreak]
    exact conclude_snd (fun _ h => by cases h) t
  · rw [bind_of_ok hbreak]
    rfl

/-- What goes wrong on the way to the constants: the run has not been through a first turn, or one of
the constants is not of the form of its variable. -/
theorem Aborted.fails_iff (hp : plan.Private) (haligned : plan.resources.map length = plan.groups.map length)
    {start : Run σ} (hstart : Unstarted start) (h : plan.Aborted (some .init, start) n phase s) :
    plan.breakOff.Fails s ↔ s.status.fatal = false ∧ (n = 0 ∨ (s.status.dials ≠ none ∧ ∃ g ∈ plan.groups, ∃ x ∈ g,
        x.isConst = false ∧ x.smoothTo = true ∧ ∃ f, x.typed x.const = .error f)) := by
  obtain ⟨⟨r, hafter, hres⟩, -⟩ := h
  have hs := hp.progress_resume hres
  have hshown : plan.Shown s.status.progress := by
    rw [hs]
    refine hp.shown_of_after? (fun dials hdials => ?_) hafter
    cases hstart.dials.symm.trans hdials
  have hpers : s.status.periods = none ↔ n = 0 := by
    rw [show s.status.periods = r.status.periods from congrArg Progress.periods hs]
    constructor
    · intro hnone
      by_contra hn
      have hsome := hp.isSome_periods_of_after? hn hafter
      rw [hnone] at hsome
      cases hsome
    · rintro rfl
      cases hafter
      exact hstart.periods
  rw [breakOff_fails_iff]
  refine and_congr_right fun _ => ?_
  rcases @rampDown_cases σ _ plan (broken s) with
    ⟨hnone, f, hf⟩ | ⟨hsome, hrows, hok⟩ | ⟨hsome, hrows, hcases⟩
  · exact iff_of_true ⟨f, _, hf⟩ (Or.inl (hpers.mp hnone))
  · have hn : n ≠ 0 := fun hn => by
      rw [show (broken s).status.periods = none from hpers.mpr hn] at hsome
      cases hsome
    refine iff_of_false (not_fails_of_eq_ok hok) ?_
    -- without rows there are no groups either, once there are dials
    rintro (hzero | ⟨hdials, g, hg, -⟩)
    · exact hn hzero
    · obtain ⟨dials, hdials⟩ := ne_none_iff_exists'.mp hdials
      have hlen := hshown.length_rows hdials
      rw [show s.status.progress.rows = [] from hrows] at hlen
      rw [eq_nil_of_length_eq_zero hlen.symm] at hg
      cases hg
  · have hn : n ≠ 0 := fun hn => by
      rw [show (broken s).status.periods = none from hpers.mpr hn] at hsome
      cases hsome
    obtain ⟨dials, hdials⟩ : ∃ dials, s.status.dials = some dials := by
      refine ne_none_iff_exists'.mp fun hnone => hrows ?_
      rw [show Plan.rows (broken s).status = (s.status.dials.getD []).map (·.row) from rfl, hnone]
      rfl
    have hfail := lastChanges_eq_error_iff hshown hdials haligned
    have hdials' : s.status.dials ≠ none := by simp [hdials]
    rcases hcases with ⟨f, hchgs, hf⟩ | ⟨changes, following, hchgs, hok⟩
    · exact iff_of_true ⟨f, _, hf⟩ (Or.inr ⟨hdials', hfail.mp ⟨f, hchgs⟩⟩)
    · refine iff_of_false (not_fails_of_eq_ok hok) ?_
      rintro (hzero | ⟨-, hwrong⟩)
      · exact hn hzero
      · obtain ⟨f, hf⟩ := hfail.mpr hwrong
        cases hchgs.symm.trans hf

end Plan

end LabBench.Sweep
