import LabBench.Proofs.Frame
import LabBench.Sweep.Run
/-!
# What the phases of a run do

This file says what each phase of a run does to the bookkeeping of the run and to the world around
it.

What a phase calls upon outside of the run (resources, instruments, hooks, the clock) is arbitrary
here. A property of the run that all of this preserves, and that depends on the status of the run
only through its bookkeeping, is *undisturbed*; each phase is then a change of the bookkeeping among
computations that preserve the property.
-/

namespace LabBench.Sweep

open Act List

/-! ### Bookkeeping -/

/-- The bookkeeping of a run: the part of its status that only its own phases write. -/
structure Progress where
  item : Int
  dials : Option (List Dial)
  last : Option (List (List Value))
  changed : List Int
  periods : Option Periods
  continuous : Bool
  done : Bool
  strays : List (Int × Nat)

def Progress.rows (p : Progress) : List (List Value) :=
  (p.dials.getD []).map (·.row)

theorem Progress.rows_of_dials {p : Progress} {dials : List Dial} (h : p.dials = some dials) :
    p.rows = dials.map (·.row) := by
  rw [rows, h]
  rfl

def Status.progress (s : Status) : Progress where
  item := s.item
  dials := s.dials
  last := s.last
  changed := s.changed
  periods := s.periods
  continuous := s.continuous
  done := s.done
  strays := s.strays

namespace Plan

variable {σ : Type} [Clocked σ] {plan : Plan σ} {α : Type} {positions : List Int} {wanted : Variable → Bool}
  {following : Option Phase} {vs : List Bool} {c : Change (Run σ)} {r r' : Run σ} {g : Guard (Run σ)}

/-! ### Surroundings -/

/-- The computations around a run that its phases call upon, apart from those that set the variables
and that pass on the data of an item. -/
inductive Surrounds (plan : Plan σ) : (α : Type) → Act (Run σ) α → Prop
  | clock (t : Float) : Surrounds plan PUnit (modify (Clocked.setTime t))
  | measure {name : String} {r : Resource (Run σ)} (h : (name, some r) ∈ plan.measurements) :
      Surrounds plan Value r.read
  | check {gs : List (Guard (Run σ))} {g : Guard (Run σ)} (hgs : gs ∈ plan.guards) (hg : g ∈ gs) :
      Surrounds plan Bool (g.holds plan.guardResources)
  | configure {p : Pulsing (Run σ)} (h : plan.pulsing = some p) : Surrounds plan PUnit p.configure
  | play {p : Pulsing (Run σ)} (h : plan.pulsing = some p) : Surrounds plan PUnit p.play
  | onPause : Surrounds plan PUnit plan.hooks.onPause
  | onWrite {hook : Int → Nat → Value → Act (Run σ) PUnit} (h : plan.hooks.onWrite = some hook)
      (position : Int) (i : Nat) (v : Value) : Surrounds plan PUnit (hook position i v)
  | onRead {hook : Nat → Value → Act (Run σ) PUnit} (h : plan.hooks.onRead = some hook) (i : Nat)
      (v : Value) : Surrounds plan PUnit (hook i v)
  | onResourceFault {hook : String → Fault → Bool → Act (Run σ) PUnit}
      (h : plan.hooks.onResourceFault = some hook) (name : String) (f : Fault) (writing : Bool) :
      Surrounds plan PUnit (hook name f writing)
  | onFault {hook : Phase → Fault → Act (Run σ) PUnit} (h : plan.hooks.onFault = some hook)
      (phase : Phase) (f : Fault) : Surrounds plan PUnit (hook phase f)
  | onClose {hook : Act (Run σ) PUnit} (h : plan.hooks.onClose = some hook) : Surrounds plan PUnit hook

/-- The plan without a receiver of the end. -/
def endless (plan : Plan σ) : Plan σ :=
  { plan with hooks := { plan.hooks with onClose := none } }

theorem Surrounds.of_endless {act : Act (Run σ) α}
    (h : plan.endless.Surrounds α act) : plan.Surrounds α act := by
  cases h with
  | clock t => exact .clock t
  | measure h => exact .measure h
  | check hgs hg => exact .check hgs hg
  | configure h => exact .configure h
  | play h => exact .play h
  | onPause => exact .onPause
  | onWrite h position i v => exact @Surrounds.onWrite _ _ plan _ h position i v
  | onRead h i v => exact @Surrounds.onRead _ _ plan _ h i v
  | onResourceFault h name f writing => exact @Surrounds.onResourceFault _ _ plan _ h name f writing
  | onFault h phase f => exact @Surrounds.onFault _ _ plan _ h phase f
  | onClose h => cases h

/-- The resources of the variables in the groups at some positions. -/
def SetsAt (plan : Plan σ) (positions : List Int) (r : Resource (Run σ)) : Prop :=
  ∃ position ∈ positions, ∃ group name, elementAt plan.resources position = .ok group ∧ (name, some r) ∈ group

def Sets (plan : Plan σ) (r : Resource (Run σ)) : Prop :=
  ∃ group ∈ plan.resources, ∃ name, (name, some r) ∈ group

section

omit [Clocked σ]

theorem mem_of_elementAt {xs : List α} {position : Int} {x : α} (h : elementAt xs position = .ok x) : x ∈ xs := by
  unfold elementAt at h
  generalize (if position < 0 then position + xs.length else position) = p at h
  by_cases hp : 0 ≤ p
  · cases hx : xs[p.toNat]? with
    | none => simp only [hp, if_true, hx] at h; cases h
    | some y =>
      simp only [hp, if_true, hx] at h
      cases h
      exact mem_of_getElem? hx
  · simp only [hp, if_false] at h
    cases h

theorem SetsAt.sets {r : Resource (Run σ)} (h : plan.SetsAt positions r) : plan.Sets r := by
  obtain ⟨position, -, group, name, hgrp, hmem⟩ := h
  exact ⟨group, mem_of_elementAt hgrp, name, hmem⟩

end

/-- A property of a run that nothing around the run disturbs before its end, and that the run itself can disturb
only through its bookkeeping. -/
structure Undisturbed (plan : Plan σ) (P : Run σ → Prop) : Prop where
  status : ∀ (r : Run σ) (s : Status), s.progress = r.status.progress → P r → P { r with status := s }
  surroundings : ∀ {α : Type} {act : Act (Run σ) α}, plan.endless.Surrounds α act → Preserves P act

variable {P : Run σ → Prop} {changes : List (Change (Run σ))} {rs : List (String × Option (Resource (Run σ)))}
  {item position : Int} {i : Nat} {resource : String × Option (Resource (Run σ))} {x : Resource (Run σ)} {v : Value}

theorem undisturbed_true : plan.Undisturbed fun _ => True where
  status _ _ _ _ := trivial
  surroundings _ _ _ := trivial

namespace Undisturbed

theorem and {Q : Run σ → Prop} (hP : plan.Undisturbed P) (hQ : plan.Undisturbed Q) :
    plan.Undisturbed fun r => P r ∧ Q r where
  status r s hs hr := ⟨hP.status r s hs hr.1, hQ.status r s hs hr.2⟩
  surroundings hact r hr := ⟨hP.surroundings hact r hr.1, hQ.surroundings hact r hr.2⟩

theorem update (h : plan.Undisturbed P) {f : Status → Status}
    (hf : ∀ s, (f s).progress = s.progress) : Preserves P (Run.update f) :=
  .modify fun r hr => h.status r _ (hf r.status) hr

omit [Clocked σ] in
theorem status? : Preserves P (Run.status? : Act (Run σ) Status) :=
  Preserves.get.bind fun _ => .pure _

section

variable (h : plan.Undisturbed P)

include h

theorem sleep (seconds : Value) : Preserves P (Clocked.sleep seconds) :=
  .sleep (fun t => h.surroundings (.clock t)) seconds

theorem resourceFault (name : String) (f : Fault) (writing : Bool) :
    Preserves P (plan.resourceFault name f writing) := by
  unfold Plan.resourceFault
  split
  · rename_i hook hhook
    exact (h.surroundings (.onResourceFault (show plan.endless.hooks.onResourceFault = _ from hhook)
      name f writing)).attempt.bind fun _ => .pure _
  · exact .pure _

/-! ### Setting variables -/

theorem writeAll {r : Resource (Run σ)} (hr : ∀ v, Preserves P (r.write v)) {onFault : Fault → Act (Run σ) PUnit}
    (hfault : ∀ f, Preserves P (onFault f)) (pause : Value) (vs : List Value) :
    Preserves P (r.writeAll pause onFault vs) := by
  induction vs with
  | nil => exact .pure _
  | cons v vs ih =>
    refine (hr v).attempt.bind fun x => ?_
    cases x with
    | error f => exact hfault f
    | ok _ => exact (h.sleep pause).bind fun _ => ih

theorem rampAll (hw : ∀ c ∈ changes, ∀ r, c.resource = some r → ∀ v, Preserves P (r.write v)) :
    Preserves P (plan.rampAll changes) := by
  refine .forM fun c hc => ?_
  have hcw := hw c hc
  cases hr : c.resource with
  | none => exact .pure _
  | some r =>
    refine Preserves.bind ?_ fun _ => .pure _
    refine Preserves.attempt ((Preserves.lift _).bind fun ab => ?_)
    refine (Preserves.lift _).bind fun vs => ?_
    exact h.writeAll (hcw r hr) (fun f => h.resourceFault _ f true) _ vs

theorem note (position : Int) (i : Nat) (v : Value) : Preserves P (plan.note position i v) := by
  unfold Plan.note
  split
  · rename_i hook hhook
    exact h.surroundings (.onWrite (show plan.endless.hooks.onWrite = _ from hhook) position i v)
  · exact .pure _

theorem writeResource (hw : Preserves P (x.write v)) (name : String) : Preserves P (plan.writeResource name x v) := by
  refine hw.attempt.bind fun y => ?_
  cases y with
  | error f => exact h.resourceFault _ f true
  | ok _ => exact .pure _

end

end Undisturbed

section

omit [Clocked σ]

variable {ends : Variable → Value → Value → Outcome (Value × Value)}

theorem mem_changesOf {xs : List Variable} {vs ws : List Value}
    (h : changesOf wanted ends xs rs vs ws = .ok changes) (hc : c ∈ changes) : (c.name, c.resource) ∈ rs := by
  induction xs generalizing rs vs ws changes with
  | nil =>
    cases h
    cases hc
  | cons x xs ih =>
    rcases rs with _ | ⟨⟨name, resource⟩, rs⟩
    · cases h
      cases hc
    rcases vs with _ | ⟨v, vs⟩
    · cases h
      cases hc
    rcases ws with _ | ⟨w, ws⟩
    · cases h
      cases hc
    rw [changesOf] at h
    split at h
    · exact mem_cons_of_mem _ (ih h hc)
    · obtain ⟨⟨first, last⟩, -, h⟩ := Outcome.bind_eq_ok.mp h
      obtain ⟨rest, hrest, h⟩ := Outcome.bind_eq_ok.mp h
      cases h
      rcases mem_cons.mp hc with rfl | hc
      · exact mem_cons_self
      · exact mem_cons_of_mem _ (ih hrest hc)

theorem setsAt_of_mem_changesAt {now before : List (List Value)}
    (h : plan.changesAt positions now before wanted ends = .ok changes)
    (hc : c ∈ changes) {r : Resource (Run σ)} (hr : c.resource = some r) : plan.SetsAt positions r := by
  obtain ⟨groups, hgrps, h⟩ := Outcome.bind_eq_ok.mp h
  cases h
  obtain ⟨changes, hmem, hc⟩ := mem_flatten.mp hc
  obtain ⟨position, hpos, hof⟩ := Outcome.exists_of_mem_mapM hgrps hmem
  obtain ⟨xs, -, hof⟩ := Outcome.bind_eq_ok.mp hof
  obtain ⟨rs, hrs, hof⟩ := Outcome.bind_eq_ok.mp hof
  obtain ⟨vs, -, hof⟩ := Outcome.bind_eq_ok.mp hof
  obtain ⟨ws, -, hof⟩ := Outcome.bind_eq_ok.mp hof
  exact ⟨position, hpos, rs, c.name, hrs, hr ▸ mem_changesOf hof hc⟩

/-! ### Phases -/

theorem run_status?_bind (f : Status → Act (Run σ) α) (r : Run σ) : (Run.status? >>= f) r = f r.status r :=
  rfl

theorem run_update_bind (f : Status → Status) (g : PUnit → Act (Run σ) α) (r : Run σ) :
    (Run.update f >>= g) r = g ⟨⟩ { r with status := f r.status } :=
  rfl

end

theorem run_now_bind (g : Float → Act (Run σ) α) (r : Run σ) : (Clocked.now >>= g) r = g (Clocked.time r) r :=
  rfl

def renewed (plan : Plan σ) (r : Run σ) : Run σ :=
  { r with status :=
      { r.status with dials := none, last := none, item := -1, periods := some plan.periods } }

/-- A phase preserves a property and says which phase follows. -/
abbrev Leads (P : Run σ → Prop) (act : Act (Run σ) (Option Phase)) (r : Run σ) (next : Option Phase → Prop) : Prop :=
  Ensures act r (fun following s => next following ∧ P s) fun _ => P

omit [Clocked σ] in
theorem Leads.snd {act : Act (Run σ) (Option Phase)} {next : Option Phase → Prop} (h : Leads P act r next) :
    P (act r).2 :=
  Ensures.snd h fun _ _ hs => hs.2

theorem init_leads (hP : plan.Undisturbed P) (hr : P (plan.renewed r)) : Leads P plan.init r (· = some .next) := by
  have hdone (s : Run σ) (hs : P s) : Leads P (do
      Run.update fun s => { s with configured := true }
      return some .next) s (· = some .next) :=
    ensures_bind_of_ok rfl (.pure ⟨rfl, hP.status s _ rfl hs⟩)
  refine ensures_bind_of_ok (t := plan.renewed r) rfl (ensures_bind_of_ok rfl ?_)
  split
  · split
    · rename_i p hp
      exact ((hP.surroundings (.configure hp)).ensures hr).bind fun _ => hdone
    · exact hdone _ hr
  · exact .pure ⟨rfl, hr⟩

section

omit [Clocked σ]

/-- The run at its next item, with the dials that were found. -/
def advanced (r : Run σ) (dials : List Dial) (last : Option (List (List Value))) (changed : List Int) : Run σ :=
  { r with status :=
      { r.status with item := r.status.item + 1, dials := some dials, last, changed } }

/-- Fresh dials are put at their first rows, and old dials are turned. -/
theorem next_eq_ok (h : plan.next r = (.ok following, r')) : following = some .transition ∧
      ((r.status.dials = none ∧ ∃ dials, (plan.groups.map fun g => g.map Variable.values).mapM Dial.start = .ok dials ∧
          r' = advanced r dials r.status.last (positionsFrom 0 plan.groups.length)) ∨
        ∃ dials dials' moved, r.status.dials = some dials ∧ turnAll dials = .ok (dials', moved) ∧
          r' = advanced r dials' (some (dials.map (·.row)))
            (positionsFrom (moved.elim (-1) fun k => k) plan.groups.length)) := by
  rw [next, run_status?_bind] at h
  obtain ⟨_, t, ht, h⟩ := bind_eq_ok.mp h
  cases ht
  dsimp only at h
  cases hdials : r.status.dials with
  | none =>
    simp only [hdials] at h
    obtain ⟨dials, hstart, h⟩ := lift_bind_eq_ok.mp h
    cases h
    refine ⟨rfl, Or.inl ⟨rfl, dials, ?_, rfl⟩⟩
    rw [mapM_map]
    exact hstart
  | some dials =>
    simp only [hdials] at h
    obtain ⟨⟨dials', moved⟩, hturn, h⟩ := lift_bind_eq_ok.mp h
    cases h
    refine ⟨rfl, Or.inr ⟨dials, dials', moved, rfl, hturn, ?_⟩⟩
    cases moved <;> rfl

/-- Dials that cannot be put at their rows stay as they are, although the item is counted. -/
theorem next_eq_error {f : Fault} (h : plan.next r = (.error f, r')) :
    r' = { r with status := { r.status with item := r.status.item + 1 } } := by
  rw [next, run_status?_bind, run_update_bind] at h
  cases hdials : r.status.dials with
  | none =>
    simp only [hdials] at h
    cases hstart : plan.groups.mapM fun g => Dial.start (g.map Variable.values) with
    | error f' =>
      rw [hstart] at h
      cases h
      simp only [hdials]
    | ok dials =>
      rw [hstart] at h
      cases h
  | some dials =>
    simp only [hdials] at h
    cases hturn : turnAll dials with
    | error f' =>
      rw [hturn] at h
      cases h
      simp only [hdials]
    | ok turned =>
      rw [hturn] at h
      cases h

theorem next_world (r : Run σ) : (plan.next r).2.world = r.world := by
  rcases h : plan.next r with ⟨f | following, r'⟩
  · rw [next_eq_error h]
  · rcases next_eq_ok h with ⟨-, ⟨-, dials, -, rfl⟩ | ⟨dials, dials', moved, -, -, rfl⟩⟩ <;> rfl

theorem preserves_next (hstat : ∀ (r : Run σ) (s : Status), P r → P { r with status := s }) :
    Preserves P plan.next := by
  intro r hr
  have h := hstat r (plan.next r).2.status hr
  rw [← @next_world σ plan r] at h
  exact h

end

/-- The positions of the groups that a transition changes smoothly. -/
def rampedAt (plan : Plan σ) (s : Status) : List Int :=
  match s.last with
  | none => positionsFrom 0 plan.groups.length
  | some _ => s.changed.tail

theorem transition_leads (hP : plan.Undisturbed P) (hr : P r)
    (hw : ∀ x, plan.SetsAt (plan.rampedAt r.status) x → ∀ v, Preserves P (x.write v)) :
    Leads P plan.transition r (· = some .write) := by
  refine ensures_bind_of_ok rfl (.lift_bind (fun _ _ => hr) fun changes hchgs => ?_)
  refine ((hP.rampAll fun c hc x hx => hw x ?_).ensures hr).bind fun _ s hs => .pure ⟨rfl, hs⟩
  unfold rampedAt
  cases hlast : r.status.last with
  | none | some before =>
    rw [hlast] at hchgs
    exact setsAt_of_mem_changesAt hchgs hc hx

/-! ### Writers -/

section

omit [Clocked σ]

/-- What one of the computations brings about, and the others preserve, holds after all of them. -/
theorem forM_establishes {f : α → Act (Run σ) PUnit} {xs : List α} {x : α} {s s' : Run σ} (hx : x ∈ xs)
    (hkeep : ∀ y ∈ xs, Preserves P (f y)) (hact : ∀ t t', f x t = (.ok ⟨⟩, t') → P t')
    (h : xs.forM f s = (.ok ⟨⟩, s')) : P s' := by
  induction xs generalizing s with
  | nil => cases hx
  | cons y ys ih =>
    obtain ⟨_, t, hy, hrest⟩ := bind_eq_ok.mp (show (f y >>= fun _ => ys.forM f) s = _ from h)
    have hys : ∀ z ∈ ys, Preserves P (f z) := fun z hz => hkeep z (mem_cons_of_mem y hz)
    rcases mem_cons.mp hx with rfl | hx
    · exact (Preserves.forM hys).apply hrest (hact _ _ hy)
    · exact ih hx hys hrest

variable {s : Status} {act : Int → Nat → String × Option (Resource (Run σ)) → Value → Act (Run σ) PUnit}

/-- A variable of the groups that have changed, with its resource and its value. -/
structure Occurs (plan : Plan σ) (s : Status) (position : Int) (i : Nat)
    (resource : String × Option (Resource (Run σ))) (v : Value) : Prop where
  changed : position ∈ s.changed
  resource : ∃ group, elementAt plan.resources position = .ok group ∧ group[i]? = some resource
  value : ∃ values, elementAt (rows s) position = .ok values ∧ values[i]? = some v

theorem Occurs.setsAt {name : String} (h : plan.Occurs s position i (name, some x) v) : plan.SetsAt s.changed x := by
  obtain ⟨group, hgrp, hres⟩ := h.resource
  exact ⟨position, h.changed, group, name, hgrp, mem_of_getElem? hres⟩

theorem startWriter_preserves
    (hstray : ∀ (s : Run σ) strays, P s → P { s with status := { s.status with strays } })
    (hw : ∀ name x, resource = (name, some x) → Preserves P (plan.writeResource name x v)) :
    Preserves P (plan.startWriter item position i resource v) := by
  obtain ⟨name, _ | x⟩ := resource
  · exact .pure _
  · rw [startWriter]
    split
    · exact .modify fun s => hstray s _
    · exact hw name x rfl

theorem joinWriter_preserves
    (hw : ∀ name x, resource = (name, some x) → Preserves P (plan.writeResource name x v)) :
    Preserves P (plan.joinWriter item position i resource v) := by
  obtain ⟨name, _ | x⟩ := resource
  · exact .pure _
  · rw [joinWriter]
    split
    · exact hw name x rfl
    · exact .pure _

theorem occurs_of_mem {group : List (String × Option (Resource (Run σ)))} {values : List Value}
    (hpos : position ∈ s.changed) (hgrp : elementAt plan.resources position = .ok group)
    (hvals : elementAt (rows s) position = .ok values) {y : ((String × Option (Resource (Run σ))) × Value) × Nat}
    (hy : y ∈ (group.zip values).zipIdx) : plan.Occurs s position y.2 y.1.1 y.1.2 := by
  obtain ⟨hres, hv⟩ := getElem?_zip_eq_some.mp (mem_zipIdx_iff_getElem?.mp hy)
  exact ⟨hpos, ⟨group, hgrp, hres⟩, values, hvals, hv⟩

theorem forChanged_preserves
    (hact : ∀ position i resource v, plan.Occurs s position i resource v → Preserves P (act position i resource v)) :
    Preserves P (plan.forChanged s act) := by
  refine .forM fun position hpos r hr => of_lift_bind hr fun group hgrp => of_lift_bind hr fun values hvals => ?_
  exact Preserves.forM (fun y hy => hact _ _ _ _ (occurs_of_mem hpos hgrp hvals hy)) r hr

/-- What is done for one of the variables, and not undone for the others, holds after all of them. -/
theorem forChanged_establishes (hocc : plan.Occurs s position i resource v)
    (hkeep : ∀ position i resource v, plan.Occurs s position i resource v → Preserves P (act position i resource v))
    (hact : ∀ r, P (act position i resource v r).2) (h : plan.forChanged s act r = (.ok ⟨⟩, r')) : P r' := by
  obtain ⟨hpos, ⟨group, hgrp, hres⟩, values, hvals, hv⟩ := hocc
  refine forM_establishes hpos (fun p hp r hr => ?_) (fun t t' ht => ?_) h
  · exact of_lift_bind hr fun group hgrp => of_lift_bind hr fun values hvals =>
      Preserves.forM (fun y hy => hkeep _ _ _ _ (occurs_of_mem hp hgrp hvals hy)) r hr
  · rw [hgrp, hvals] at ht
    have hmem : ((resource, v), i) ∈ (group.zip values).zipIdx :=
      mem_zipIdx_iff_getElem?.mpr (getElem?_zip_eq_some.mpr ⟨hres, hv⟩)
    refine forM_establishes hmem (fun y hy => hkeep _ _ _ _ (occurs_of_mem hpos hgrp hvals hy)) (fun t t' ht => ?_) ht
    have := hact t
    rwa [ht] at this

/-- All writers have been started, and have been waited for. -/
theorem write_eq_ok (h : plan.write r = (.ok following, r')) : following = some .dwell ∧ ∃ s t,
    plan.forChanged r.status (fun position i resource v => do
      plan.startWriter r.status.item position i resource v
      plan.note position i v) r = (.ok ⟨⟩, s) ∧
    plan.forChanged r.status (plan.joinWriter r.status.item) s = (.ok ⟨⟩, t) ∧
    r' = { t with status := { t.status with strays := [] } } := by
  rw [write, run_status?_bind] at h
  obtain ⟨_, s, hstart, h⟩ := bind_eq_ok.mp h
  obtain ⟨_, t, hjoin, h⟩ := bind_eq_ok.mp h
  cases h
  exact ⟨rfl, s, t, hstart, hjoin, rfl⟩

end

theorem write_leads (hP : plan.Undisturbed P) (hr : P r)
    (hstray : ∀ (s : Run σ) strays, P s → P { s with status := { s.status with strays } })
    (hw : ∀ x, plan.SetsAt r.status.changed x → ∀ v, Preserves P (x.write v)) :
    Leads P plan.write r (· = some .dwell) := by
  have hset {position i resource v} (hocc : plan.Occurs r.status position i resource v) (name : String)
      (x : Resource (Run σ)) (hx : resource = (name, some x)) : Preserves P (plan.writeResource name x v) := by
    subst hx
    exact hP.writeResource (hw x hocc.setsAt v) name
  have hstart : Preserves P (plan.forChanged r.status fun position i resource v => do
      plan.startWriter r.status.item position i resource v
      plan.note position i v) := forChanged_preserves fun position i _ v hocc =>
    (startWriter_preserves hstray (hset hocc)).bind fun _ => hP.note position i v
  have hjoin : Preserves P (plan.forChanged r.status (plan.joinWriter r.status.item)) :=
    forChanged_preserves fun _ _ _ _ hocc => joinWriter_preserves (hset hocc)
  refine ensures_bind_of_ok rfl ((hstart.ensures hr).bind fun _ s hs => (hjoin.ensures hs).bind fun _ t ht => ?_)
  exact ensures_bind_of_ok rfl (.pure ⟨rfl, hstray t [] ht⟩)

theorem dwell_leads (hP : plan.Undisturbed P) (hr : P r) : Leads P plan.dwell r fun following =>
    following = some (if plan.pulsing.isSome then .pulse else .read) ∧ r.status.changed ≠ [] := by
  refine ensures_bind_of_ok rfl (.lift_bind (fun _ _ => hr) fun groups hgrps => ?_)
  refine .lift_bind (fun _ _ => hr) fun delay hdelay => ?_
  refine ((hP.sleep _).ensures hr).bind fun _ s hs => .pure ⟨⟨rfl, fun hnil => ?_⟩, hs⟩
  rw [hnil] at hgrps
  cases hgrps
  cases hdelay

theorem pulse_leads (hP : plan.Undisturbed P) (hr : P r) : Leads P plan.pulse r (· = some .read) := by
  unfold pulse
  split
  · rename_i p hp
    exact ((hP.surroundings (.play hp)).ensures hr).bind fun _ s hs => .pure ⟨rfl, hs⟩
  · exact .pure ⟨rfl, hr⟩

theorem measure_preserves (hP : plan.Undisturbed P) {i : Nat}
    {ms : List (String × Option (Resource (Run σ)))} (hms : ∀ m ∈ ms, m ∈ plan.measurements) :
    Preserves P (plan.measure i ms) := by
  induction ms generalizing i with
  | nil => exact .pure _
  | cons m ms ih =>
    obtain ⟨name, resource⟩ := m
    have hrest (v : Value) : Preserves P (plan.measure (i + 1) ms >>= fun vs =>
        (pure (v :: vs) : Act (Run σ) (List Value))) :=
      (ih fun m hm => hms m (mem_cons_of_mem _ hm)).bind fun _ => .pure _
    cases resource with
    | none => exact hrest .none
    | some r =>
      have hread : Preserves P (plan.readResource name r) := by
        refine (hP.surroundings (.measure (hms _ mem_cons_self))).attempt.bind fun x => ?_
        cases x with
        | error f => exact (hP.resourceFault name f false).bind fun _ => .pure _
        | ok v => exact .pure _
      refine hread.bind fun found => ?_
      cases found with
      | none => exact hrest .none
      | some v =>
        dsimp only
        split
        · rename_i hook hhook
          exact (hP.surroundings
            (.onRead (show plan.endless.hooks.onRead = _ from hhook) i v)).attempt.bind fun _ => hrest v
        · exact hrest v

/-- Unless a measurement ends in a fault, the values of the item are passed on. -/
theorem read_calls (hP : plan.Undisturbed P)
    {hook : Float → List Value → List Value → Act (Run σ) PUnit} (hhook : plan.hooks.onData = some hook) (hr : P r) :
    (∃ f r', plan.read r = (.error f, r') ∧ P r') ∨ ∃ s time ms, P s ∧
        plan.read r = (hook time (rows s.status).flatten ms >>= fun _ => pure (some .condition)) s := by
  rcases hm : plan.measure 0 plan.measurements r with ⟨f | ms, s⟩
  · exact Or.inl ⟨f, s, bind_of_error hm, (measure_preserves hP fun _ h => h).apply hm hr⟩
  · have hs : P s := (measure_preserves hP fun _ h => h).apply hm hr
    refine Or.inr ?_
    rw [read, bind_of_ok hm]
    simp only [hhook]
    rw [run_now_bind, run_status?_bind]
    -- the first data of a run come with the time zero, and the clock is noted for the later ones
    cases hfst : s.status.firstTime with
    | none =>
      refine ⟨{ s with status := { s.status with firstTime := some (Clocked.time s) } }, 0.0, ms,
        hP.status s _ rfl hs, ?_⟩
      rfl
    | some first =>
      exact ⟨s, Clocked.time s - first, ms, hs, rfl⟩

theorem read_leads (hP : plan.Undisturbed P) (hr : P r)
    (hdata : ∀ hook, plan.hooks.onData = some hook → ∀ t vs ms, Preserves P (hook t vs ms)) :
    Leads P plan.read r (· = some .condition) := by
  cases hhook : plan.hooks.onData with
  | some hook =>
    rcases read_calls hP hhook hr with ⟨f, r', h, hr'⟩ | ⟨s, time, ms, hs, h⟩
    · exact ensures_of_eq h nofun fun _ _ => hr'
    · rw [Leads, Ensures, h]
      exact ((hdata hook hhook _ _ _).ensures hs).bind fun _ s hs => .pure ⟨rfl, hs⟩
  | none =>
    refine ((measure_preserves hP fun _ h => h).ensures hr).bind fun ms s hs => ?_
    simp only [hhook]
    exact .pure ⟨rfl, hs⟩

/-! ### Conditions -/

section

omit [Clocked σ]

theorem mem_of_mem_guardsOf {order : Int} (h : g ∈ plan.guardsOf order) : ∃ gs ∈ plan.guards, g ∈ gs := by
  unfold guardsOf at h
  split at h
  · rename_i gs hgs
    exact ⟨gs, mem_of_find?_eq_some hgs, h⟩
  · cases h

/-- The verdicts of guards, each of which is looked at. -/
def verdicts (plan : Plan σ) (gs : List (Guard (Run σ))) : Act (Run σ) (List Bool) :=
  gs.mapM fun g => g.holds plan.guardResources

theorem verdicts_cons (g : Guard (Run σ)) (gs : List (Guard (Run σ))) : plan.verdicts (g :: gs) = (do
      let here ← g.holds plan.guardResources
      let others ← plan.verdicts gs
      return here :: others) :=
  mapM_cons

theorem allHold_eq (gs : List (Guard (Run σ))) : plan.allHold gs = (do return (← plan.verdicts gs).all id) := by
  induction gs with
  | nil => rfl
  | cons g gs ih => simp [allHold, verdicts_cons, ih]

end

theorem verdicts_preserves (hP : plan.Undisturbed P) {gs : List (Guard (Run σ))}
    (hgs : ∀ g ∈ gs, ∃ group ∈ plan.guards, g ∈ group) : Preserves P (plan.verdicts gs) := by
  induction gs with
  | nil => exact .pure _
  | cons g gs ih =>
    rw [verdicts_cons]
    obtain ⟨group, hgrp, hg⟩ := hgs g mem_cons_self
    refine (hP.surroundings (.check hgrp hg)).bind fun here => ?_
    exact (ih fun g hg => hgs g (mem_cons_of_mem _ hg)).bind fun _ => .pure _

/-- The orders of guards that are through with their values, from the lowest to the highest. -/
def dueOrders (plan : Plan σ) (s : Status) : List Int :=
  ((s.periods.getD []).completed (s.item + 1).toNat).filter plan.guardOrders.contains

/-- The guards of all orders that are through with their values. -/
def dueGuards (plan : Plan σ) (s : Status) : List (Guard (Run σ)) :=
  (plan.dueOrders s).flatMap plan.guardsOf

/-- How long the guards of the lowest order that is through with its values wait. -/
def dueWait (plan : Plan σ) (s : Status) : Float :=
  let waits := match plan.dueOrders s with
    | [] => []
    | order :: _ => (plan.guardsOf order).map fun (g : Guard (Run σ)) => g.wait.magnitude
  waits.foldl (fun a b => if a < b then b else a) 0.0

section

omit [Clocked σ]

theorem mem_of_mem_dueGuards {s : Status} (h : g ∈ plan.dueGuards s) : ∃ gs ∈ plan.guards, g ∈ gs := by
  obtain ⟨order, -, hg⟩ := mem_flatMap.mp h
  exact mem_of_mem_guardsOf hg

/-- What comes after the verdicts: the run is held, comes to its end or goes on. -/
def afterVerdicts (plan : Plan σ) (item : Int) (verdicts : List Bool) : Act (Run σ) (Option Phase) := do
  if !verdicts.all id then return some .conditionalDwell
  if item == plan.itemCount - 1 then
    Run.update fun s => { s with item := s.item + 1 }
    return some .rampDown
  return some .next

theorem afterVerdicts_hold (h : vs.all id = false) (item : Int) (r : Run σ) :
    plan.afterVerdicts item vs r = (.ok (some .conditionalDwell), r) := by
  rw [afterVerdicts, h]
  rfl

theorem afterVerdicts_complete (h : vs.all id = true) {item : Int} (hitem : item = plan.itemCount - 1) (r : Run σ) :
    plan.afterVerdicts item vs r = (.ok (some .rampDown),
      { r with status := { r.status with item := r.status.item + 1 } }) := by
  rw [afterVerdicts, h, hitem, beq_self_eq_true]
  rfl

theorem afterVerdicts_goOn (h : vs.all id = true) {item : Int} (hitem : item ≠ plan.itemCount - 1) (r : Run σ) :
    plan.afterVerdicts item vs r = (.ok (some .next), r) := by
  rw [afterVerdicts, h, beq_eq_false_iff_ne.mpr hitem]
  rfl

theorem dueGuards_of_isEmpty (h : plan.guards = []) (s : Status) : plan.dueGuards s = [] := by
  have hnone : ∀ order, plan.guardsOf order = [] := fun order => by simp [guardsOf, h]
  simp [dueGuards, hnone]

theorem condition_eq (r : Run σ) : ∃ s : Status, s.progress = r.status.progress ∧
      plan.condition r = (plan.verdicts (plan.dueGuards r.status) >>=
        plan.afterVerdicts r.status.item) { r with status := s } := by
  rw [condition, run_status?_bind]
  cases hguards : plan.guards.isEmpty with
  | true =>
    refine ⟨r.status, rfl, ?_⟩
    rw [dueGuards_of_isEmpty (isEmpty_iff.mp hguards)]
    rfl
  | false =>
    refine ⟨{ r.status with conditionalWait := plan.dueWait r.status }, rfl, ?_⟩
    simp only [allHold_eq, bind_assoc, pure_bind]
    rfl

end

/-- The run goes on or comes to its end if all guards that are due hold in one check, and is held
otherwise. -/
theorem condition_eq_ok (hP : plan.Undisturbed P) (hr : P r) (h : plan.condition r = (.ok following, r')) :
    ∃ (s₀ : Status) (vs : List Bool) (s : Run σ), s₀.progress = r.status.progress ∧
      plan.verdicts (plan.dueGuards r.status) { r with status := s₀ } = (.ok vs, s) ∧ P s ∧
      ((vs.all id = false ∧ following = some .conditionalDwell ∧ r' = s) ∨
        (vs.all id = true ∧ r.status.item = plan.itemCount - 1 ∧ following = some .rampDown ∧
          r' = { s with status := { s.status with item := s.status.item + 1 } }) ∨
        (vs.all id = true ∧ r.status.item ≠ plan.itemCount - 1 ∧ following = some .next ∧ r' = s)) := by
  obtain ⟨s₀, hs₀, hcond⟩ := plan.condition_eq r
  rw [hcond] at h
  obtain ⟨vs, s, hvs, h⟩ := bind_eq_ok.mp h
  have hs : P s := (verdicts_preserves hP fun g hg => mem_of_mem_dueGuards hg).apply hvs (hP.status r s₀ hs₀ hr)
  refine ⟨s₀, vs, s, hs₀, hvs, hs, ?_⟩
  cases hall : vs.all id with
  | false =>
    rw [afterVerdicts_hold hall] at h
    cases h
    exact Or.inl ⟨rfl, rfl, rfl⟩
  | true =>
    by_cases hitem : r.status.item = plan.itemCount - 1
    · rw [afterVerdicts_complete hall hitem] at h
      cases h
      exact Or.inr (Or.inl ⟨rfl, hitem, rfl, rfl⟩)
    · rw [afterVerdicts_goOn hall hitem] at h
      cases h
      exact Or.inr (Or.inr ⟨rfl, hitem, rfl, rfl⟩)

theorem condition_preserves (hP : plan.Undisturbed P)
    (hitem : ∀ s : Run σ, P s → P { s with status := { s.status with item := s.status.item + 1 } }) :
    Preserves P plan.condition := by
  intro r hr
  obtain ⟨s₀, hs₀, hcond⟩ := plan.condition_eq r
  rw [hcond]
  refine Preserves.bind (verdicts_preserves hP fun g hg => mem_of_mem_dueGuards hg) (fun vs => ?_)
    _ (hP.status r s₀ hs₀ hr)
  unfold afterVerdicts
  split
  · exact .pure _
  · split
    · exact Preserves.bind (.modify hitem) fun _ => .pure _
    · exact .pure _

theorem conditionalDwell_leads (hP : plan.Undisturbed P) (hr : P r) : Leads P conditionalDwell r (· = some .read) :=
  ensures_bind_of_ok rfl (((hP.sleep _).ensures hr).bind fun _ _ hs => .pure ⟨rfl, hs⟩)

theorem rampDown_leads (hP : plan.Undisturbed P) (hr : P r)
    (hw : ∀ x, plan.SetsAt (positionsFrom 0 plan.groups.length) x → ∀ v, Preserves P (x.write v)) :
    Leads P plan.rampDown r fun following =>
      following = none ∨ (following = some .init ∧ r.status.continuous = true) := by
  refine ensures_bind_of_ok rfl ?_
  dsimp only
  split
  · exact .fail hr
  split
  · exact .pure ⟨.inl rfl, hr⟩
  refine .lift_bind (fun _ _ => hr) fun changes hchgs => ?_
  refine ((hP.rampAll fun c hc x hx => hw x (setsAt_of_mem_changesAt hchgs hc hx)).ensures hr).bind fun _ _ hs => ?_
  split
  · rename_i hcont
    rw [Bool.and_eq_true] at hcont
    exact .pure ⟨.inr ⟨rfl, hcont.1⟩, hs⟩
  · exact .pure ⟨.inl rfl, hs⟩

end Plan

end LabBench.Sweep
