import LabBench.Proofs.Sweep.Grouping
import LabBench.Proofs.Sweep.Odometer
import LabBench.Proofs.Sweep.Turns
/-!
# Where a run stands

A run goes through the items of its sweep one after the other, and all its bookkeeping says which of
them it has come to: the dials, the number of the item, the groups that have changed. The moves of a
run keep these in step with each other, and with the number of items of which measurements have been
taken in the cycle.
-/

namespace LabBench.Sweep

open List

def columnsOf (groups : List (List Variable)) : List (List (List (Outcome Value))) :=
  groups.map fun g => g.map Variable.values

theorem nil_notMem_columnsOf {groups : List (List Variable)} (h : [] ∉ groups) : [] ∉ columnsOf groups := by
  intro hmem
  obtain ⟨g, hg, hnil⟩ := mem_map.mp hmem
  rw [map_eq_nil_iff.mp hnil] at hg
  exact h hg

theorem length_itemsOf_columnsOf (groups : List (List Variable)) :
    (itemsOf (columnsOf groups)).length = (groups.map (groupLength Variable.length)).prod := by
  have hrows (g : List Variable) : (rowsOf (g.map Variable.values)).length = groupLength Variable.length g :=
    length_rowsOf_map Variable.length Variable.values Variable.length_values g
  rw [itemsOf, length_choices, columnsOf, map_map, map_map]
  exact congrArg prod (map_congr_left fun g _ => hrows g)

namespace Plan

variable {σ : Type} {plan : Plan σ} {all : List Variable} {p p' : Progress} {i k : Nat}

/-- A plan for the arrangement of a list of variables. -/
structure Sweeps (plan : Plan σ) (all : List Variable) : Prop where
  groups : plan.groups = (arrange all).1
  itemCount : plan.itemCount = (arrange all).2

def items (plan : Plan σ) : List (List (List (Outcome Value))) :=
  itemsOf (columnsOf plan.groups)

namespace Sweeps

theorem nil_notMem (h : plan.Sweeps all) : [] ∉ columnsOf plan.groups :=
  nil_notMem_columnsOf (by rw [h.groups, arrange_fst]; exact nil_notMem_groupsOf all)

theorem exists_enabled (h : plan.Sweeps all) (hne : plan.groups ≠ []) : ∃ x ∈ all, x.enabled = true := by
  by_contra hnone
  refine hne ?_
  have hempty : all.filter (·.enabled) = [] := filter_eq_nil_iff.mpr fun x hx henabled => hnone ⟨x, hx, henabled⟩
  rw [h.groups, arrange, hempty]
  rfl

/-- The number of items of a plan is that of its items, unless there is nothing to sweep. -/
theorem itemCount_eq (h : plan.Sweeps all) (hne : plan.groups ≠ []) : plan.itemCount = plan.items.length := by
  rw [h.itemCount, arrange_snd (h.exists_enabled hne), items, length_itemsOf_columnsOf, h.groups, arrange_fst]

end Sweeps

/-! ### Items -/

/-- The bookkeeping of a run at the item with a number. -/
structure OnItem (plan : Plan σ) (p : Progress) (i : Nat) : Prop where
  dials : ∃ ds, p.dials = some ds ∧ Stands (columnsOf plan.groups) ds i
  item : p.item = i
  periods : p.periods = some plan.periods

theorem OnItem.lt_length (h : plan.OnItem p i) (hplan : plan.Sweeps all) : i < plan.items.length := by
  obtain ⟨ds, -, hstands⟩ := h.dials
  exact hstands.lt_length hplan.nil_notMem

theorem OnItem.getElem?_items {ds : List Dial} (h : plan.OnItem p i) (hplan : plan.Sweeps all)
    (hdials : p.dials = some ds) : plan.items[i]? = some (ds.map fun d => d.row.map .ok) := by
  obtain ⟨ds', hds', hstands⟩ := h.dials
  obtain rfl := Option.some.inj (hds'.symm.trans hdials)
  exact hstands.getElem?_itemsOf hplan.nil_notMem

theorem OnItem.turnAll {dials dials' : List Dial} {moved : Option Nat} (h : plan.OnItem p i)
    (hplan : plan.Sweeps all) (hi : i + 1 < plan.items.length) (hdials : p.dials = some dials)
    (hturn : turnAll dials = .ok (dials', moved)) :
    ∃ m, moved = some m ∧ Stands (columnsOf plan.groups) dials' (i + 1) := by
  obtain ⟨ds, hds, hstands⟩ := h.dials
  obtain rfl := Option.some.inj (hds.symm.trans hdials)
  rcases hstands.turnAll hplan.nil_notMem hturn with ⟨hmoved, hstands'⟩ | ⟨-, hlast, -⟩
  · obtain ⟨m, hm⟩ := Option.isSome_iff_exists.mp hmoved
    exact ⟨m, hm, hstands'⟩
  · exact absurd hlast hi.ne

/-! ### Stages -/

/-- The groups that have changed are all from some group on, and all groups at the first item. -/
def ChangedFrom (plan : Plan σ) (p : Progress) : Prop :=
  ∃ m : Nat, p.changed = positionsFrom m plan.groups.length ∧ (p.last = none → m = 0)

theorem ChangedFrom.groups_ne_nil (h : plan.ChangedFrom p) (hne : p.changed ≠ []) : plan.groups ≠ [] := by
  obtain ⟨m, hchg, -⟩ := h
  rintro hnil
  refine hne ?_
  rw [hchg, hnil]
  simp [positionsFrom]

/-- The bookkeeping of a run at the start of a cycle. -/
structure Fresh (plan : Plan σ) (p : Progress) : Prop where
  dials : p.dials = none
  last : p.last = none
  item : p.item = -1
  periods : p.periods = some plan.periods

/-- The bookkeeping of a run before a phase, with the number of items of the cycle of which
measurements have been taken. -/
def Stage (plan : Plan σ) : Option Phase → Progress → Nat → Prop
  | some .init, _, k => k = 0
  | some .next, p, k =>
    (plan.Fresh p ∧ k = 0) ∨ ∃ i, plan.OnItem p i ∧ i + 1 < plan.items.length ∧ k = i + 1
  | some .transition, p, k | some .write, p, k | some .dwell, p, k =>
    plan.OnItem p k ∧ plan.ChangedFrom p
  | some .pulse, p, k => plan.groups ≠ [] ∧ plan.OnItem p k
  | some .read, p, k =>
    -- Measurements are taken again only if there are guards.
    plan.groups ≠ [] ∧ ∃ i, plan.OnItem p i ∧ (k = i ∨ (k = i + 1 ∧ plan.guards ≠ []))
  | some .condition, p, k => plan.groups ≠ [] ∧ ∃ i, plan.OnItem p i ∧ k = i + 1
  | some .conditionalDwell, p, k =>
    plan.groups ≠ [] ∧ ∃ i, plan.OnItem p i ∧ k = i + 1 ∧ plan.guards ≠ []
  | some .rampDown, _, k => k = plan.items.length
  | some .finish, _, _ => False
  | none, _, k => k = 0

namespace Stage

variable {phase : Phase} {following : Option Phase}

theorem ne_finish (h : plan.Stage (some phase) p k) : phase ≠ .finish := by
  rintro rfl
  exact h

/-- Every move leads to a stage. Only measurements and the end of a cycle change the number of items
of which measurements have been taken. -/
theorem step (hplan : plan.Sweeps all) (h : plan.Stage (some phase) p k) (hmoves : plan.Moves phase p following p')
    (hread : phase ≠ .read) (hramp : phase ≠ .rampDown) : plan.Stage following p' k := by
  cases hmoves with
  | renew => exact Or.inl ⟨⟨rfl, rfl, rfl, rfl⟩, h⟩
  | start hnone hstart =>
    rcases h with ⟨hfresh, rfl⟩ | ⟨i, hi, -⟩
    · exact ⟨⟨⟨_, rfl, .start hstart⟩, by simp [hfresh.item], hfresh.periods⟩, 0, rfl, fun _ => rfl⟩
    · obtain ⟨ds, hds, -⟩ := hi.dials
      cases hnone.symm.trans hds
  | turn hsome hturn =>
    rcases h with ⟨hfresh, -⟩ | ⟨i, hi, hlt, rfl⟩
    · cases hfresh.dials.symm.trans hsome
    · obtain ⟨m, rfl, hstands⟩ := hi.turnAll hplan hlt hsome hturn
      exact ⟨⟨⟨_, rfl, hstands⟩, by simp [hi.item], hi.periods⟩, m, rfl, fun hlast => by cases hlast⟩
  | transition => exact h
  | write => exact ⟨⟨h.1.dials, h.1.item, h.1.periods⟩, h.2⟩
  | dwell hne =>
    have hgrps := h.2.groups_ne_nil hne
    cases plan.pulsing with
    | none => exact ⟨hgrps, k, h.1, Or.inl rfl⟩
    | some _ => exact ⟨hgrps, h.1⟩
  | pulse => exact ⟨h.1, k, h.2, Or.inl rfl⟩
  | read => exact absurd rfl hread
  | hold hguards =>
    obtain ⟨hne, i, hi, rfl⟩ := h
    exact ⟨hne, i, hi, rfl, hguards⟩
  | complete hitem =>
    obtain ⟨hne, i, hi, rfl⟩ := h
    have hcnt := hplan.itemCount_eq hne
    rw [hi.item] at hitem
    change i + 1 = plan.items.length
    omega
  | goOn hitem =>
    obtain ⟨hne, i, hi, rfl⟩ := h
    have hlt := hi.lt_length hplan
    have hcnt := hplan.itemCount_eq hne
    rw [hi.item] at hitem
    exact Or.inr ⟨i, hi, by omega, rfl⟩
  | wait =>
    obtain ⟨hne, i, hi, rfl, hguards⟩ := h
    exact ⟨hne, i, hi, Or.inr ⟨rfl, hguards⟩⟩
  | rampDown | again => exact absurd rfl hramp

theorem exists_step (hplan : plan.Sweeps all)
    (h : plan.Stage (some phase) p k) (hmoves : plan.Moves phase p following p') :
    ∃ k', plan.Stage following p' k' := by
  by_cases hread : phase = .read
  · subst hread
    obtain ⟨rfl, rfl⟩ := hmoves.of_read
    obtain ⟨hne, i, hi, -⟩ := h
    exact ⟨i + 1, hne, i, hi, rfl⟩
  · by_cases hramp : phase = .rampDown
    · subst hramp
      obtain ⟨rfl, rfl | ⟨rfl, -⟩⟩ := hmoves.of_rampDown <;> exact ⟨0, rfl⟩
    · exact ⟨k, h.step hplan hmoves hread hramp⟩

end Stage

theorem Private.stage_of_after? [Clocked σ] (hp : plan.Private) (hplan : plan.Sweeps all) {n : Nat}
    {start r : Run σ} {following : Option Phase} (h : plan.after? n (some .init, start) = some (following, r)) :
    ∃ k, plan.Stage following r.status.progress k := by
  have hstart : ∃ k, plan.Stage (some .init) start.status.progress k := ⟨0, rfl⟩
  refine after?_induction (I := fun _ following r => ∃ k, plan.Stage following r.status.progress k) hstart ?_ h
  rintro - phase r₁ following₁ r₂ ⟨k, hstage⟩ hturn
  exact hstage.exists_step hplan (hp.moves hstage.ne_finish hturn)

end Plan

/-! ### Sweeps that are noted

A notebook is a small world in which a sweep can take place: it has a clock and keeps what has been
written and what has been recorded.
-/

/-- A world with a clock that keeps what has been written, with the group and the place in the group,
and what has been recorded. The latest values come first. -/
structure Notebook where
  time : Float := 0.0
  written : List ((Nat × Nat) × Value) := []
  failed : Bool := false
  entries : List (List Value × List ((Nat × Nat) × Value) × Bool) := []

namespace Notebook

instance : Clocked Notebook where
  time w := w.time
  setTime t w := { w with time := t }

def slot (p i : Nat) : Resource (Run Notebook) where
  setter := some fun v => Run.onWorld (modify fun w => { w with written := ((p, i), v) :: w.written })

def clock : Resource (Run Notebook) where
  getter := some do return .real (← Clocked.now)

def seconds (x : Float) : Quantity Float :=
  ⟨x, .ofSymbol .second, "s", .whole 0⟩

/-- The run waits until the clock is past a time. -/
def waitFor (order : Int) (time : Float) : Guard (Run Notebook) where
  name := "time"
  order
  conditions := [⟨.resource clock, ">", .value (.real time)⟩]
  wait := seconds 1.0
  enabled := true

/-- A plan that sets the places of a notebook and records every item, together with what has been
written. The guards are given by their orders and the times for which they wait. -/
def plan (groups : List (List Variable)) (itemCount : Int) (times : List (List (Int × Float))) : Plan Notebook where
  groups
  itemCount
  resources := groups.mapIdx fun p g => g.mapIdx fun i x => (x.name, some (slot p i))
  guards := times.map fun ts => ts.map fun (order, time) => waitFor order time
  hooks :=
    { onData := some fun _ vs _ => Run.onWorld (modify fun w =>
        { w with entries := w.entries ++ [(vs, w.written, w.failed)] })
      onResourceFault := some fun _ _ writing =>
        Run.onWorld (modify fun w => { w with failed := w.failed || writing }) }

variable {groups : List (List Variable)} {itemCount : Int} {times : List (List (Int × Float))}
  {x : Resource (Run Notebook)}

theorem exists_slot (h : (plan groups itemCount times).Sets x) : ∃ p i, x = slot p i := by
  obtain ⟨group, hgrp, name, hmem⟩ := h
  obtain ⟨p, hp, rfl⟩ := List.mem_mapIdx.mp hgrp
  obtain ⟨i, hi, heq⟩ := List.mem_mapIdx.mp hmem
  cases heq
  exact ⟨p, i, rfl⟩

/-- A place takes numbers and texts; a quantity is refused and nothing is written. -/
theorem slot_write (p i : Nat) (v : Value) (r : Run Notebook) : (slot p i).write v r =
        (.ok ⟨⟩, { r with world := { r.world with written := ((p, i), v) :: r.world.written } }) ∨
      ∃ f, (slot p i).write v r = (.error f, r) := by
  cases v with
  | quantity q => exact Or.inr ⟨_, rfl⟩
  | _ => exact Or.inl rfl

theorem holds_waitFor (order : Int) (time : Float) (r : Run Notebook) :
    ∃ b, (waitFor order time).holds [] r = (.ok b, r) := by
  obtain ⟨b, hb⟩ : ∃ b, Value.greater (.real r.world.time) (.real time) = .ok b := ⟨_, rfl⟩
  have hrelation : relation? ">" = some Value.greater := rfl
  have hread : clock.read r = (.ok (.real r.world.time), r) := rfl
  have hcond : Condition.holds ⟨.resource clock, ">", .value (.real time)⟩ [] r = (.ok b, r) := by
    refine Act.bind_eq_ok.mpr ⟨(.none, .real time), r, rfl, ?_⟩
    refine Act.bind_eq_ok.mpr ⟨.real r.world.time, r, hread, ?_⟩
    simp only [hrelation, pure_bind, hb]
    rfl
  refine ⟨b, Act.bind_eq_ok.mpr ⟨b, r, hcond, ?_⟩⟩
  cases b <;> rfl

theorem exists_waitFor {gs : List (Guard (Run Notebook))} {g : Guard (Run Notebook)}
    (hgs : gs ∈ (plan groups itemCount times).guards) (hg : g ∈ gs) : ∃ order time, g = waitFor order time := by
  obtain ⟨ts, -, rfl⟩ := List.mem_map.mp hgs
  obtain ⟨⟨order, time⟩, -, rfl⟩ := List.mem_map.mp hg
  exact ⟨order, time, rfl⟩

/-- A plan with something to do in pauses. -/
abbrev pausing (pause : Act (Run Notebook) PUnit) (plan : Plan Notebook) : Plan Notebook :=
  { plan with hooks := { plan.hooks with onPause := pause } }

/-- In a pause nothing is done but to the flags of the run. -/
def Idle (pause : Act (Run Notebook) PUnit) : Prop :=
  ∀ r, ∃ status, (pause r).2 = { r with status } ∧ status.progress = r.status.progress

theorem idle_pure : Idle (pure ⟨⟩) :=
  fun r => ⟨r.status, rfl, rfl⟩

variable {pause : Act (Run Notebook) PUnit}

theorem snd_of_surrounds (hpause : Idle pause) {α : Type} {act : Act (Run Notebook) α}
    (h : (pausing pause (plan groups itemCount times)).Surrounds α act) (r : Run Notebook) : ∃ status t b,
      (act r).2 = ⟨status, { r.world with time := t, failed := r.world.failed || b }⟩ ∧
        status.progress = r.status.progress := by
  have hsame : r.world = { r.world with failed := r.world.failed || false } := by rw [Bool.or_false]
  cases h with
  | clock t => exact ⟨_, t, false, by rw [Bool.or_false]; rfl, rfl⟩
  | measure h => cases h
  | check hgs hg =>
    obtain ⟨order, time, rfl⟩ := exists_waitFor (show _ ∈ (plan groups itemCount times).guards from hgs) hg
    obtain ⟨b, hb⟩ := holds_waitFor order time r
    exact ⟨_, _, false, (congrArg Prod.snd hb).trans (congrArg (Run.mk r.status) hsame), rfl⟩
  | configure h | play h => cases h
  | onPause =>
    obtain ⟨status, hstatus, hprog⟩ := hpause r
    exact ⟨status, _, false, hstatus.trans (congrArg (Run.mk status) hsame), hprog⟩
  | onWrite h | onRead h => cases h
  | onResourceFault h name f writing =>
    cases h
    exact ⟨_, r.world.time, writing, rfl, rfl⟩
  | onFault h | onClose h => cases h

theorem snd_of_sets (h : (plan groups itemCount times).Sets x) (v : Value)
    (r : Run Notebook) : ∃ written, (x.write v r).2 = { r with world := { r.world with written } } := by
  obtain ⟨p, i, rfl⟩ := exists_slot h
  rcases slot_write p i v r with h | ⟨f, h⟩ <;> rw [h]
  · exact ⟨_, rfl⟩
  · exact ⟨r.world.written, rfl⟩

theorem pausing_private (hpause : Idle pause) : (pausing pause (plan groups itemCount times)).Private where
  surroundings hact r := by
    obtain ⟨status, t, b, h, hprog⟩ := snd_of_surrounds hpause hact r
    rw [h]
    exact hprog
  resources hx v r := by
    obtain ⟨written, h⟩ := snd_of_sets (show (plan groups itemCount times).Sets _ from hx) v r
    rw [h]
  data hhook t vs ms r := by
    cases hhook
    rfl

theorem plan_private : (plan groups itemCount times).Private :=
  pausing_private idle_pure

/-! ### A sample -/

/-- A variable that takes some whole numbers, with half a second after each of them. -/
def listed (name : String) (order : Int) (values : List Int) : Variable where
  name
  order
  span := .listed (values.map .int)
  wait := seconds 0.5
  enabled := true

def fixed (name : String) (value : Int) : Variable where
  name
  order := 0
  const := .int value
  isConst := true
  wait := seconds 0.5
  enabled := true

/-- Two variables of one order and of different lengths, a slower one and a constant. -/
def sample : List Variable :=
  [listed "x" 2 [1, 2], listed "y" 1 [5, 6, 7], fixed "c" 3, listed "z" 1 [8, 9]]

/-- The plan of the sample. The guard waits for some seconds when the faster variables are through. -/
def samplePlan : Plan Notebook :=
  plan [[fixed "c" 3], [listed "x" 2 [1, 2]], [listed "y" 1 [5, 6, 7], listed "z" 1 [8, 9]]] 4 [[(1, 2.25)]]

def sampleStart : Run Notebook :=
  ⟨{}, {}⟩

theorem samplePlan_sweeps : samplePlan.Sweeps sample := by
  have harr : arrange sample = (samplePlan.groups, 4) := by
    simp [arrange, sample, listed, fixed, byOrder, List.mergeSort]
    exact ⟨rfl, rfl⟩
  exact ⟨congrArg Prod.fst harr.symm, congrArg (fun a => (a.2 : Int)) harr.symm⟩

/-- The sample comes to its end, after one item has been read twice more. -/
theorem samplePlan_ends : ((samplePlan.after? 32 (some .init, sampleStart)).map fun s => s.1) = some none := by
  decide +kernel

end Notebook

end LabBench.Sweep
