import LabBench.Proofs.Sweep.Standing
/-!
# The checks of a sweep

After the measurements of an item a run checks the guards of some orders, and it stays at the item
until they all hold. The guards of an order are checked at the items at which all groups that change
and are not above the order are at their last rows.

## Main results

* `checks_of_after?`, `periods_of_arranged`
-/

namespace LabBench.Sweep

open Act Periods List

/-! ### Groups at their last rows -/

/-- Whether all groups that change and are not above an order are at their last rows. -/
def atLast (groups : List (List Variable)) (dials : List Dial) (order : Int) : Bool :=
  (groups.zip dials).all fun e => e.1.all fun x =>
    x.isConst || decide (order < x.order) ||
      decide (e.2.position + 1 = groupLength Variable.length e.1)

variable {dials : List Dial} {groups : List (List Variable)}

theorem atLast_iff {order : Int} :
    atLast groups dials order = true ↔ ∀ e ∈ groups.zip dials, ∀ x ∈ e.1, x.isConst = false →
      x.order ≤ order → e.2.position + 1 = groupLength Variable.length e.1 := by
  simp only [atLast, all_eq_true, Bool.or_eq_true, decide_eq_true_eq]
  refine forall₂_congr fun e _ => forall₂_congr fun x _ => ?_
  cases x.isConst with
  | true => simp
  | false =>
    simp only [Bool.false_eq_true, false_or, forall_const]
    rw [or_iff_not_imp_left, not_lt]

theorem forall_last_iff (h : dials.map (·.columns) = columnsOf groups) :
    (∀ d ∈ dials, d.position + 1 = (rowsOf d.columns).length) ↔
      ∀ e ∈ groups.zip dials, e.2.position + 1 = groupLength Variable.length e.1 := by
  induction groups generalizing dials with
  | nil =>
    rw [map_eq_nil_iff.mp h]
    simp
  | cons g groups ih =>
    cases dials with
    | nil => simp
    | cons d ds =>
      rw [map_cons, columnsOf, map_cons, cons.injEq] at h
      rw [zip_cons_cons, forall_mem_cons, forall_mem_cons, ih h.2, h.1,
        length_rowsOf_map Variable.length Variable.values Variable.length_values]

/-- The orders of the groups that change, from the lowest to the highest, with their lengths. -/
def lengthsOf (all : List Variable) : List (Int × Nat) :=
  (ordersOf Variable.order (movingOf all)).reverse.map fun o =>
    (o, groupLength Variable.length (ofOrder Variable.order (movingOf all) o))

theorem pairwise_lengthsOf (all : List Variable) : (lengthsOf all).Pairwise fun a b => a.1 < b.1 :=
  pairwise_map.mpr (pairwise_reverse.mpr (pairwise_ordersOf _ _))

private theorem exists_split {os : List Int} (h : os.Pairwise fun a b => b < a) (o : Int) :
    ∃ above below, os = above ++ below ∧ (∀ p ∈ above, o < p) ∧ ∀ p ∈ below, p ≤ o := by
  induction os with
  | nil => exact ⟨[], [], rfl, by simp, by simp⟩
  | cons p os ih =>
    obtain ⟨hfst, hrest⟩ := pairwise_cons.mp h
    by_cases hp : o < p
    · obtain ⟨above, below, rfl, habove, hbelow⟩ := ih hrest
      exact ⟨p :: above, below, rfl, forall_mem_cons.mpr ⟨hp, habove⟩, hbelow⟩
    · rw [not_lt] at hp
      refine ⟨[], p :: os, rfl, by simp, forall_mem_cons.mpr ⟨hp, fun q hq => ?_⟩⟩
      exact (hfst q hq).le.trans hp

private theorem periodOf_lengthsOf {all : List Variable} {above below : List Int} {o : Int}
    (hos : ordersOf Variable.order (movingOf all) = above ++ below) (habove : ∀ p ∈ above, o < p)
    (hbelow : ∀ p ∈ below, p ≤ o) : periodOf (lengthsOf all) o =
      (itemsOf (columnsOf (below.map (ofOrder Variable.order (movingOf all))))).length := by
  have hfilt : (lengthsOf all).filter (fun e => decide (e.1 ≤ o)) = below.reverse.map fun p =>
        (p, groupLength Variable.length (ofOrder Variable.order (movingOf all) p)) := by
    rw [lengthsOf, hos, reverse_append, map_append, filter_append,
      filter_eq_self.mpr, filter_eq_nil_iff.mpr, append_nil]
    · intro e he
      obtain ⟨p, hp, rfl⟩ := mem_map.mp he
      simpa using habove p (mem_reverse.mp hp)
    · intro e he
      obtain ⟨p, hp, rfl⟩ := mem_map.mp he
      simpa using hbelow p (mem_reverse.mp hp)
  rw [periodOf, hfilt, length_itemsOf_columnsOf, map_map, map_map, map_reverse]
  exact (reverse_perm _).prod_eq

/-- After as many items as the table says all groups that are not above an order are at their last
rows. -/
theorem succ_mod_periodOf_eq_zero_iff {all : List Variable} {i : Nat}
    (h : Stands (columnsOf (groupsOf all)) dials i) (o : Int) :
    (i + 1) % periodOf (lengthsOf all) o = 0 ↔ atLast (groupsOf all) dials o = true := by
  obtain ⟨above, below, hos, habove, hbelow⟩ :=
    exists_split (pairwise_ordersOf Variable.order (movingOf all)) o
  obtain ⟨front, hfront, hgrps⟩ : ∃ front : List (List Variable),
      (∀ g ∈ front, ∀ x ∈ g, x.isConst = false → o < x.order) ∧
      groupsOf all = front ++ below.map (ofOrder Variable.order (movingOf all)) := by
    have hgrps : groupsOf all = ((if constantsOf all = [] then [] else [constantsOf all]) ++
        above.map (ofOrder Variable.order (movingOf all))) ++
        below.map (ofOrder Variable.order (movingOf all)) := by
      rw [groupsOf, hos, map_append, append_assoc]
    refine ⟨_, forall_mem_append.mpr ⟨?_, ?_⟩, hgrps⟩
    · intro g hg x hx hconst
      split at hg
      · cases hg
      · rw [mem_singleton.mp hg] at hx
        cases hconst.symm.trans (mem_constantsOf.mp hx).2.2
    · intro g hg x hx _
      obtain ⟨p, hp, rfl⟩ := mem_map.mp hg
      rw [(mem_ofOrder.mp hx).2]
      exact habove p hp
  have hne : [] ∉ columnsOf (below.map (ofOrder Variable.order (movingOf all))) := nil_notMem_columnsOf fun hnil =>
      nil_notMem_groupsOf all (hgrps ▸ mem_append_right front hnil)
  rw [hgrps, columnsOf, map_append] at h
  obtain ⟨ds, ds', rfl, hlen, hcols, hlast⟩ := h.succ_mod_eq_zero_iff hne
  rw [length_map] at hlen
  rw [periodOf_lengthsOf hos habove hbelow, columnsOf, hlast, forall_last_iff hcols, atLast_iff,
    hgrps, zip_append hlen.symm, forall_mem_append]
  constructor
  · refine fun hall => ⟨fun e he x hx hconst hle => ?_, fun e he x _ _ _ => hall e he⟩
    exact absurd (hfront e.1 (of_mem_zip he).1 x hx hconst) (not_lt.mpr hle)
  · rintro ⟨-, hall⟩ e he
    obtain ⟨p, hp, hg⟩ := mem_map.mp (of_mem_zip he).1
    have hp' : p ∈ ordersOf Variable.order (movingOf all) := hos ▸ mem_append_right above hp
    obtain ⟨x, hx⟩ := exists_mem_of_ne_nil _ (ofOrder_ne_nil hp')
    obtain ⟨hxmem, hord⟩ := mem_ofOrder.mp hx
    exact hall e he x (hg ▸ hx) (mem_movingOf.mp hxmem).2.2 (hord ▸ hbelow p hp)

/-! ### Guards that are due -/

/-- The guards that are checked at the dials of an item: all that are enabled and of an order for
which the groups that are not above it are at their last rows, from the lowest order to the
highest. -/
def triggered {ρ : Type} (groups : List (List Variable)) (conditions : List (Guard ρ))
    (dials : List Dial) : List (Guard ρ) :=
  let enabled := conditions.filter (·.enabled)
  ((ordersOf Guard.order enabled).reverse.filter (atLast groups dials)).flatMap (ofOrder Guard.order enabled)

theorem mem_triggered {ρ : Type} {conditions : List (Guard ρ)} {g : Guard ρ} : g ∈ triggered groups conditions dials ↔
      g ∈ conditions ∧ g.enabled = true ∧ atLast groups dials g.order = true := by
  simp only [triggered, mem_flatMap, mem_filter, mem_reverse, mem_ordersOf, mem_ofOrder]
  constructor
  · rintro ⟨o, ⟨-, hlast⟩, ⟨hg, henabled⟩, rfl⟩
    exact ⟨hg, henabled, hlast⟩
  · rintro ⟨hg, henabled, hlast⟩
    exact ⟨g.order, ⟨⟨g, ⟨hg, henabled⟩, rfl⟩, hlast⟩, ⟨hg, henabled⟩, rfl⟩

namespace Plan

variable {σ : Type} {plan : Plan σ} {all : List Variable} {conditions : List (Guard (Run σ))} {dials : List Dial}

theorem guardOrders_eq (h : plan.guards = arrangeGuards conditions) :
    plan.guardOrders = ordersOf Guard.order (conditions.filter (·.enabled)) := by
  rw [guardOrders, h, arrangeGuards, byOrder_eq_map_ofOrder, filterMap_map]
  refine (filterMap_congr fun o ho => ?_).trans filterMap_some
  exact map_head?_ofOrder ho

theorem guardsOf_eq (h : plan.guards = arrangeGuards conditions) {o : Int}
    (ho : o ∈ ordersOf Guard.order (conditions.filter (·.enabled))) :
    plan.guardsOf o = ofOrder Guard.order (conditions.filter (·.enabled)) o := by
  rw [arrangeGuards, byOrder_eq_map_ofOrder] at h
  rw [guardsOf, h]
  split
  · rename_i g hg
    obtain ⟨p, hp, rfl⟩ := mem_map.mp (mem_of_find?_eq_some hg)
    have hord := find?_some hg
    rw [map_head?_ofOrder hp, beq_iff_eq, Option.some.injEq] at hord
    rw [hord]
  · rename_i hnone
    have hfalse := find?_eq_none.mp hnone _ (mem_map_of_mem ho)
    rw [map_head?_ofOrder ho, beq_self_eq_true] at hfalse
    exact absurd rfl hfalse

/-- The order of a group that changes, with its length. -/
private def lengthOf? (g : List Variable) : Option (Int × Nat) :=
  match g.head? with
  | some x => if x.isConst then none else some (x.order, groupLength Variable.length g)
  | none => none

private theorem filterMap_lengthOf? (all : List Variable) :
    (groupsOf all).reverse.filterMap lengthOf? = lengthsOf all := by
  have hconsts : (if constantsOf all = [] then [] else [constantsOf all]).reverse.filterMap lengthOf? = [] := by
    split
    · rfl
    · rename_i hne
      obtain ⟨x, rest, hcons⟩ := exists_cons_of_ne_nil hne
      have hx : x ∈ constantsOf all := hcons ▸ mem_cons_self
      simp [hcons, lengthOf?, (mem_constantsOf.mp hx).2.2]
  rw [groupsOf, reverse_append, filterMap_append, hconsts, append_nil,
    ← map_reverse, filterMap_map, lengthsOf, ← filterMap_eq_map]
  refine filterMap_congr fun o ho => ?_
  rw [mem_reverse] at ho
  obtain ⟨x, rest, hcons⟩ := exists_cons_of_ne_nil (ofOrder_ne_nil ho)
  have hx : x ∈ ofOrder Variable.order (movingOf all) o := hcons ▸ mem_cons_self
  obtain ⟨hmov, rfl⟩ := mem_ofOrder.mp hx
  simp [hcons, lengthOf?, (mem_movingOf.mp hmov).2.2]

theorem exact_periods_of_groups (hgrps : plan.groups = (arrange all).1) :
    Exact (lengthsOf all) plan.guardOrders plan.periods := by
  have hexact := (exact_ofLengths (pairwise_lengthsOf all)).foldl_add plan.guardOrders
  have hpers : plan.periods = plan.guardOrders.foldl Periods.add (ofLengths 1 (lengthsOf all)) := by
    rw [← filterMap_lengthOf?, ← arrange_fst, ← hgrps]
    rfl
  rw [hpers]
  exact hexact

theorem OnItem.dueGuards_eq (hplan : plan.Sweeps all) (hguards : plan.guards = arrangeGuards conditions)
    {s : Status} {i : Nat} (h : plan.OnItem s.progress i) (hdials : s.dials = some dials) :
    plan.dueGuards s = triggered plan.groups conditions dials := by
  obtain ⟨ds, hds, hstands⟩ := h.dials
  obtain rfl : ds = dials := Option.some.inj (hds.symm.trans hdials)
  rw [hplan.groups, arrange_fst] at hstands
  have hdue : plan.dueOrders s =
      (ordersOf Guard.order (conditions.filter (·.enabled))).reverse.filter (atLast plan.groups ds) := by
    have hascending : (ordersOf Guard.order (conditions.filter (·.enabled))).reverse.Pairwise (· < ·) :=
      pairwise_reverse.mpr (pairwise_ordersOf _ _)
    have hitem : (s.item + 1).toNat = i + 1 := by
      have := h.item
      change s.item = i at this
      omega
    rw [dueOrders, show s.periods = some plan.periods from h.periods, Option.getD_some, hitem,
      (exact_periods_of_groups hplan.groups).completed_filter hascending (fun o => by
        rw [mem_reverse, guardOrders_eq hguards])]
    refine filter_congr fun o _ => ?_
    rw [hplan.groups, arrange_fst, Bool.eq_iff_iff, beq_iff_eq]
    exact succ_mod_periodOf_eq_zero_iff hstands o
  rw [dueGuards, hdue, triggered]
  refine flatMap_congr fun o ho => ?_
  exact guardsOf_eq hguards (mem_reverse.mp (mem_filter.mp ho).1)

/-! ### Checks -/

variable [Clocked σ] {β : Type} {view : σ → β}

/-- A view of the world that nothing around a run changes, apart from the resources of the
variables. -/
structure ShowsSettings (plan : Plan σ) (view : σ → β) : Prop where
  surroundings : ∀ {α : Type} {act : Act (Run σ) α}, plan.Surrounds α act → Keeps (fun r => view r.world) act
  data : ∀ {hook : Float → List Value → List Value → Act (Run σ) PUnit},
    plan.hooks.onData = some hook → ∀ t vs ms, Keeps (fun r => view r.world) (hook t vs ms)

/-- A run that is held does not touch the resources of the variables. -/
theorem ShowsSettings.turn?_eq (h : plan.ShowsSettings view) {phase : Phase}
    (hphase : quiet phase = true) {r r' : Run σ}
    {following : Option Phase} (hturn : plan.turn? phase r = some (following, r')) :
    view r'.world = view r.world := by
  have hP : plan.Undisturbed fun s => view s.world = view r.world :=
    ⟨fun _ _ _ hs => hs, fun hact => (h.surroundings hact.of_endless).preserves _⟩
  obtain ⟨s, hs, hstep⟩ := hP.exists_stepOf hturn rfl
  exact (quiet_preserves hP (fun _ hs => hs) hphase fun _ hook hhook t vs ms =>
    (h.data hhook t vs ms).preserves _).apply hstep hs

theorem OnItem.turn?_condition (hplan : plan.Sweeps all)
    (hguards : plan.guards = arrangeGuards conditions) (hp : plan.Private) {i : Nat} {r s : Run σ}
    (h : plan.OnItem r.status.progress i) (hdials : r.status.dials = some dials) (hres : plan.resume r = (.ok ⟨⟩, s))
    (habort : s.status.aborting = false) : ∃ status : Status, status.progress = r.status.progress ∧ ∀ vs s',
      plan.verdicts (triggered plan.groups conditions dials) ⟨status, s.world⟩ = (.ok vs, s') →
      ∀ following r', plan.afterVerdicts i vs s' = (.ok following, r') →
        plan.turn? .condition r = some (following, r') := by
  have hent := (entered_progress .condition s).trans (hp.progress_resume hres)
  obtain ⟨status, hstat, hcond⟩ := plan.condition_eq (entered .condition s)
  have hdue : plan.dueGuards (entered .condition s).status = triggered plan.groups conditions dials :=
    OnItem.dueGuards_eq hplan hguards (hent ▸ h) ((congrArg Progress.dials hent).trans hdials)
  have hitem : (entered .condition s).status.item = i := (congrArg Progress.item hent).trans h.item
  rw [hdue, hitem] at hcond
  refine ⟨status, hstat.trans hent, fun vs s' hvs following r' hafter => ?_⟩
  refine turn?_eq_some.mpr ⟨s, hres, habort, ?_⟩
  rw [perform_eq]
  exact hcond.trans (bind_eq_ok.mpr ⟨vs, s', hvs, hafter⟩)

/-- After the measurements of an item, a run looks at the guards of just those orders for which every group that
changes and is not above the order is at its last row. It leaves the item if all of them hold. Otherwise it measures
again, and until the next check nothing is done to the resources of the variables. -/
theorem checks_of_after? (hplan : plan.Sweeps all) (hguards : plan.guards = arrangeGuards conditions)
    (hp : plan.Private) {n : Nat} {start r s : Run σ}
    (h : plan.after? n (some .init, start) = some (some .condition, r))
    (hresume : plan.resume r = (.ok ⟨⟩, s)) (habort : s.status.aborting = false) :
    ∃ (i : Nat) (dials : List Dial) (status : Status), r.status.item = i ∧ i < plan.itemCount ∧
      r.status.dials = some dials ∧ plan.items[i]? = some (dials.map fun d => d.row.map .ok) ∧
      (∀ g, g ∈ triggered plan.groups conditions dials ↔ g ∈ conditions ∧ g.enabled = true ∧
        ∀ e ∈ plan.groups.zip dials, ∀ x ∈ e.1, x.isConst = false → x.order ≤ g.order →
          e.2.position + 1 = groupLength Variable.length e.1) ∧
      status.progress = r.status.progress ∧
      ∀ vs s', plan.verdicts (triggered plan.groups conditions dials) ⟨status, s.world⟩ = (.ok vs, s') →
        ((∀ v ∈ vs, v = true) → ∃ r', r'.world = s'.world ∧ plan.turn? .condition r =
          some (some (if i + 1 = plan.itemCount then .rampDown else .next), r')) ∧
        ((∃ v ∈ vs, v = false) → plan.turn? .condition r = some (some .conditionalDwell, s') ∧
          ∀ following r₂, plan.after? 2 (some .conditionalDwell, s') = some (following, r₂) →
            following = some .condition ∧ r₂.status.progress = r.status.progress ∧
            (∃ r₁, plan.turn? .conditionalDwell s' = some (some .read, r₁) ∧
              plan.turn? .read r₁ = some (some .condition, r₂)) ∧
            ∀ (β : Type) (view : σ → β), plan.ShowsSettings view → view r₂.world = view r.world) := by
  obtain ⟨k, hne, i, hi, -⟩ := hp.stage_of_after? hplan h
  obtain ⟨dials, hdials, -⟩ := hi.dials
  obtain ⟨status, hstatus, hcheck⟩ := hi.turn?_condition hplan hguards hp hdials hresume habort
  have hcount := hplan.itemCount_eq hne
  have hlt := hi.lt_length hplan
  refine ⟨i, dials, status, hi.item, by omega, hdials, hi.getElem?_items hplan hdials, fun g => ?_,
    hstatus, fun vs s' hvs => ⟨fun hall => ?_, fun hfalse => ?_⟩⟩
  · rw [mem_triggered, atLast_iff]
  · have hall : vs.all id = true := all_eq_true.mpr hall
    by_cases hlast : i + 1 = plan.itemCount
    · have hitem : (i : Int) = plan.itemCount - 1 := by omega
      rw [if_pos hlast]
      refine ⟨_, ?_, hcheck vs s' hvs _ _ (afterVerdicts_complete hall hitem s')⟩
      rfl
    · have hitem : (i : Int) ≠ plan.itemCount - 1 := by omega
      rw [if_neg hlast]
      exact ⟨s', rfl, hcheck vs s' hvs _ _ (afterVerdicts_goOn hall hitem s')⟩
  · have hfalse : vs.all id = false := by
      obtain ⟨v, hv, rfl⟩ := hfalse
      exact all_eq_false.mpr ⟨false, hv, by decide⟩
    have hturn := hcheck vs s' hvs _ _ (afterVerdicts_hold hfalse i s')
    have hprogress : s'.status.progress = r.status.progress := (hp.moves (by decide) hturn).of_hold
    refine ⟨hturn, fun following r₂ hafter => ?_⟩
    obtain ⟨⟨following₁, r₁⟩, hdwell, hafter⟩ := Option.bind_eq_some_iff.mp hafter
    obtain ⟨rfl, hprogress₁⟩ := (hp.moves (by decide) hdwell).of_conditionalDwell
    obtain ⟨⟨following₂, r₃⟩, hread, hafter⟩ := Option.bind_eq_some_iff.mp hafter
    cases hafter
    obtain ⟨rfl, hprogress₂⟩ := (hp.moves (by decide) hread).of_read
    refine ⟨rfl, hprogress₂.trans (hprogress₁.trans hprogress), ⟨r₁, hdwell, hread⟩, ?_⟩
    intro β view hview
    rw [hview.turn?_eq rfl hread, hview.turn?_eq rfl hdwell, hview.turn?_eq rfl hturn]

end Plan

namespace Notebook

theorem samplePlan_guards : samplePlan.guards = arrangeGuards [waitFor 1 2.25] := by
  simp [arrangeGuards, byOrder, waitFor, samplePlan, plan]
  rfl

theorem verdicts_waitFor {gs : List (Guard (Run Notebook))}
    (hgs : ∀ g ∈ gs, ∃ order time, g = waitFor order time) (r : Run Notebook) :
    ∃ vs, samplePlan.verdicts gs r = (.ok vs, r) := by
  induction gs with
  | nil => exact ⟨[], rfl⟩
  | cons g gs ih =>
    obtain ⟨order, time, rfl⟩ := hgs g mem_cons_self
    obtain ⟨b, hb⟩ := holds_waitFor order time r
    obtain ⟨vs, hvs⟩ := ih fun g hg => hgs g (mem_cons_of_mem _ hg)
    rw [Plan.verdicts_cons]
    exact ⟨b :: vs, bind_eq_ok.mpr ⟨b, r, hb, bind_eq_ok.mpr ⟨vs, r, hvs, rfl⟩⟩⟩

theorem plan_showsSettings {itemCount : Int} {times : List (List (Int × Float))} :
    (plan groups itemCount times).ShowsSettings Notebook.written where
  surroundings hact r := by
    obtain ⟨status, t, b, h, -⟩ := snd_of_surrounds idle_pure hact r
    rw [h]
  data hhook t vs ms r := by
    cases hhook
    rfl

theorem samplePlan_held : ((samplePlan.after? 12 (some .init, sampleStart)).map fun s =>
    (s.1, s.2.status.item, s.2.status.paused, s.2.status.aborting,
      (samplePlan.turn? .condition s.2).map fun t => t.1)) =
      some (some .condition, 1, false, false, some (some .conditionalDwell)) := by
  decide +kernel

theorem sample_checks : ∃ r s' : Run Notebook,
    samplePlan.after? 12 (some .init, sampleStart) = some (some .condition, r) ∧
      r.status.item = 1 ∧ samplePlan.turn? .condition r = some (some .conditionalDwell, s') ∧
      ∀ following r₂, samplePlan.after? 2 (some .conditionalDwell, s') = some (following, r₂) →
        following = some .condition ∧ r₂.status.progress = r.status.progress ∧
        r₂.world.written = r.world.written := by
  obtain ⟨⟨following, r⟩, hafter, hheld⟩ := Option.map_eq_some_iff.mp samplePlan_held
  simp only [Prod.mk.injEq] at hheld
  obtain ⟨rfl, hitem, hpaused, habort, hturn⟩ := hheld
  have hresume : samplePlan.resume r = (.ok ⟨⟩, r) := by
    rw [Plan.resume, Plan.run_status?_bind, hpaused]
    rfl
  obtain ⟨i, dials, status, -, -, -, -, hmem, -, hcheck⟩ :=
    Plan.checks_of_after? samplePlan_sweeps samplePlan_guards plan_private hafter hresume habort
  obtain ⟨vs, hvs⟩ := verdicts_waitFor (fun g hg => by
    have hg := ((hmem g).mp hg).1
    exact ⟨1, 2.25, mem_singleton.mp hg⟩) ⟨status, r.world⟩
  obtain ⟨hleave, hhold⟩ := hcheck vs _ hvs
  by_cases hall : ∀ v ∈ vs, v = true
  · obtain ⟨r', -, hleft⟩ := hleave hall
    rw [hleft] at hturn
    split at hturn <;> cases hturn
  · obtain ⟨v, hv, hfalse⟩ : ∃ v ∈ vs, ¬v = true := by simpa using hall
    obtain ⟨hheld, hrest⟩ := hhold ⟨v, hv, Bool.eq_false_iff.mpr hfalse⟩
    refine ⟨r, _, hafter, hitem, hheld, fun following r₂ hafter₂ => ?_⟩
    obtain ⟨hfollowing, hprogress, -, hview⟩ := hrest following r₂ hafter₂
    exact ⟨hfollowing, hprogress, hview _ _ plan_showsSettings⟩

end Notebook

/-! ### The timetable of a sweep

Every cycle starts with a timetable, which tells for each order after how many items it is through.
-/

/-- The number of values of the shortest member of a group. -/
def shortest (g : List Variable) : Nat :=
  (g.map Variable.length).min?.getD 0

/-- The number of choices of rows of all groups that change and are not above an order. -/
def choicesUpTo (groups : List (List Variable)) (order : Int) : Nat :=
  ((groups.filter fun g => g.all fun x => !x.isConst && decide (x.order ≤ order)).map shortest).prod

theorem groupLength_eq_shortest (g : List Variable) : groupLength Variable.length g = shortest g := by
  induction g with
  | nil => rfl
  | cons x rest ih =>
    cases rest with
    | nil => rfl
    | cons y rest =>
      have hmin : ((y :: rest).map Variable.length).min?.isSome := by simp
      obtain ⟨n, hn⟩ := Option.isSome_iff_exists.mp hmin
      have hcons : groupLength Variable.length (x :: y :: rest) =
          min x.length (groupLength Variable.length (y :: rest)) := rfl
      rw [hcons, ih, shortest, shortest, map_cons (a := x), min?_cons, hn]
      rfl

variable {all : List Variable}

private theorem all_ofOrder {o : Int} (ho : o ∈ ordersOf Variable.order (movingOf all)) (order : Int) :
    ((ofOrder Variable.order (movingOf all) o).all fun x => !x.isConst && decide (x.order ≤ order)) =
      decide (o ≤ order) := by
  obtain ⟨x, hx⟩ := exists_mem_of_ne_nil _ (ofOrder_ne_nil ho)
  have hmem {y : Variable} (hy : y ∈ ofOrder Variable.order (movingOf all) o) : y.isConst = false ∧ y.order = o :=
    ⟨(mem_movingOf.mp (mem_ofOrder.mp hy).1).2.2, (mem_ofOrder.mp hy).2⟩
  rw [Bool.eq_iff_iff, all_eq_true, decide_eq_true_eq]
  constructor
  · intro hall
    have hle := hall x hx
    rw [Bool.and_eq_true, decide_eq_true_eq, (hmem hx).2] at hle
    exact hle.2
  · intro hle y hy
    obtain ⟨hconst, hord⟩ := hmem hy
    rw [hconst, hord, decide_eq_true hle]
    rfl

private theorem all_constantsOf (hne : constantsOf all ≠ []) (order : Int) :
    ((constantsOf all).all fun x => !x.isConst && decide (x.order ≤ order)) = false := by
  obtain ⟨x, hx⟩ := exists_mem_of_ne_nil _ hne
  refine all_eq_false.mpr ⟨x, hx, ?_⟩
  rw [(mem_constantsOf.mp hx).2.2]
  exact Bool.false_ne_true

theorem periodOf_lengthsOf_eq (order : Int) :
    Periods.periodOf (lengthsOf all) order = choicesUpTo (groupsOf all) order := by
  have hfront : (if constantsOf all = [] then [] else [constantsOf all]).filter
      (fun g => g.all fun x => !x.isConst && decide (x.order ≤ order)) = [] := by
    split
    · rfl
    · rename_i hne
      rw [filter_singleton, all_constantsOf hne, cond_false]
  have hgrps : (groupsOf all).filter (fun g => g.all fun x => !x.isConst && decide (x.order ≤ order)) =
      ((ordersOf Variable.order (movingOf all)).filter fun o => decide (o ≤ order)).map
        (ofOrder Variable.order (movingOf all)) := by
    rw [groupsOf, filter_append, hfront, nil_append, filter_map]
    exact congrArg _ (filter_congr fun o ho => all_ofOrder ho order)
  have hlens : (lengthsOf all).filter (fun e => decide (e.1 ≤ order)) =
      ((ordersOf Variable.order (movingOf all)).filter fun o => decide (o ≤ order)).reverse.map fun o =>
        (o, groupLength Variable.length (ofOrder Variable.order (movingOf all) o)) := by
    rw [lengthsOf, filter_map, ← filter_reverse]
    rfl
  rw [Periods.periodOf, choicesUpTo, hgrps, hlens, map_map, map_map, map_reverse, prod_reverse]
  exact congrArg prod (map_congr_left fun o _ => groupLength_eq_shortest _)

theorem mem_lengthsOf {o : Int} : o ∈ (lengthsOf all).map (·.1) ↔
    ∃ g ∈ groupsOf all, ∃ x ∈ g, x.isConst = false ∧ x.order = o := by
  have hords : (lengthsOf all).map (·.1) = (ordersOf Variable.order (movingOf all)).reverse := by
    rw [lengthsOf, map_map]
    exact map_id _
  rw [hords, mem_reverse]
  constructor
  · intro ho
    obtain ⟨x, hx⟩ := exists_mem_of_ne_nil _ (ofOrder_ne_nil ho)
    obtain ⟨hmov, hord⟩ := mem_ofOrder.mp hx
    exact ⟨_, mem_append_right _ (mem_map_of_mem ho), x, hx, (mem_movingOf.mp hmov).2.2, hord⟩
  · rintro ⟨g, hg, x, hx, hconst, rfl⟩
    rcases mem_append.mp hg with hg | hg
    · split at hg
      · cases hg
      · rw [mem_singleton.mp hg] at hx
        cases hconst.symm.trans (mem_constantsOf.mp hx).2.2
    · obtain ⟨o, ho, rfl⟩ := mem_map.mp hg
      rwa [(mem_ofOrder.mp hx).2]

namespace Plan

variable {σ : Type} {plan : Plan σ} {conditions : List (Guard (Run σ))}

theorem mem_guardOrders (hguards : plan.guards = arrangeGuards conditions) {o : Int} :
    o ∈ plan.guardOrders ↔ ∃ g ∈ plan.guards, ∃ c ∈ g, c.order = o := by
  rw [guardOrders_eq hguards, hguards, arrangeGuards, byOrder_eq_map_ofOrder]
  constructor
  · intro ho
    obtain ⟨c, hc⟩ := exists_mem_of_ne_nil _ (ofOrder_ne_nil ho)
    exact ⟨_, mem_map_of_mem ho, c, hc, (mem_ofOrder.mp hc).2⟩
  · rintro ⟨g, hg, c, hc, rfl⟩
    obtain ⟨o, ho, rfl⟩ := mem_map.mp hg
    rwa [(mem_ofOrder.mp hc).2]

/-- The timetable of a plan. Its keys are the orders of the groups that change and of the groups of guards, each of
them once, and the period of an order is the number of choices of rows of the groups that change and are not above it.
-/
theorem periods_of_arranged [Clocked σ] (hgroups : plan.groups = (arrange all).1)
    (hguards : plan.guards = arrangeGuards conditions) :
    (plan.periods.map (·.1)).Nodup ∧ (∀ o, o ∈ plan.periods.map (·.1) ↔
        (∃ g ∈ plan.groups, ∃ x ∈ g, x.isConst = false ∧ x.order = o) ∨ ∃ g ∈ plan.guards, ∃ c ∈ g, c.order = o) ∧
      (∀ o p, (o, p) ∈ plan.periods → p = choicesUpTo plan.groups o) ∧
      (plan.Private → ∀ r, (plan.init r).2.status.periods = some plan.periods) := by
  have hexact := exact_periods_of_groups hgroups
  refine ⟨?_, fun o => ?_, fun o p hp => ?_, fun hp r => ?_⟩
  · exact (pairwise_map.mpr hexact.ascending).imp fun h => h.ne
  · rw [hexact.mem_iff, mem_lengthsOf, mem_guardOrders hguards, hgroups, arrange_fst]
  · rw [hgroups, arrange_fst, ← periodOf_lengthsOf_eq]
    exact hexact.period _ hp
  · have hprogress : (plan.init r).2.status.progress = (plan.renewed r).status.progress :=
      (init_leads (hp.undisturbed _) rfl).snd
    exact congrArg Progress.periods hprogress

end Plan

namespace Notebook

/-- The plan of the sample with guards above, at and below the orders of its variables. -/
def guardedSample : Plan Notebook :=
  plan samplePlan.groups 4 [[(3, 1.0)], [(1, 2.25)], [(0, 0.5)]]

theorem guardedSample_guards : guardedSample.guards = arrangeGuards [waitFor 0 0.5, waitFor 3 1.0, waitFor 1 2.25] := by
  simp [arrangeGuards, byOrder, waitFor, guardedSample, plan, mergeSort]
  rfl

/-- The timetable of the sample: orders with guards only take the number of the order below. -/
theorem guardedSample_periods :
    (guardedSample.init sampleStart).2.status.periods = some [(0, 1), (1, 2), (2, 4), (3, 4)] ∧
      (guardedSample.periods.map (·.1)).Nodup ∧
      choicesUpTo guardedSample.groups 0 = 1 ∧ choicesUpTo guardedSample.groups 3 = 4 := by
  have hgroups : guardedSample.groups = (arrange sample).1 := samplePlan_sweeps.groups
  obtain ⟨hnodup, -, hperiod, hinit⟩ := Plan.periods_of_arranged hgroups guardedSample_guards
  have hperiods : guardedSample.periods = [(0, 1), (1, 2), (2, 4), (3, 4)] := by
    have hfold : guardedSample.periods = [3, 1, 0].foldl Periods.add [(1, 2), (2, 4)] := rfl
    simp [hfold, Periods.add, Entries.has, mergeSort]
  refine ⟨(hinit plan_private sampleStart).trans (congrArg some hperiods), hnodup, ?_, ?_⟩
  · exact (hperiod 0 1 (by rw [hperiods]; decide)).symm
  · exact (hperiod 3 4 (by rw [hperiods]; decide)).symm

end Notebook

end LabBench.Sweep
