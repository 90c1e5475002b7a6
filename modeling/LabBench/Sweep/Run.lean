import LabBench.Resource.Ramp
import LabBench.Sweep.Condition
import LabBench.Sweep.Dial
import LabBench.Sweep.Pulsing
/-!
# Runs of a sweep

A run sets the variables to one combination of values after the other and takes measurements at each of them. It goes
from phase to phase:

    init → next → transition → write → dwell (→ pulse) → read → condition → ramp down → end

After `condition` the run goes on with the next item, waits and reads again, or ramps down; after `ramp down` a
continuous run starts again.

Each variable is written by a thread of its own. Some of these writers are *late*: they set their resources only when
the run waits for them, after all of them have been started. If the run fails before that, it does not wait for them.
-/

namespace LabBench.Sweep

inductive Phase where
  | init
  | next
  | transition
  | write
  | dwell
  | pulse
  | read
  | condition
  | conditionalDwell
  | rampDown
  | finish
  deriving Repr, DecidableEq

def Phase.name : Phase → String
  | init => "init"
  | next => "next"
  | transition => "transition"
  | write => "write"
  | dwell => "dwell"
  | pulse => "pulse"
  | read => "read"
  | condition => "condition"
  | conditionalDwell => "conditional_dwell"
  | rampDown => "ramp_down"
  | finish => "end"

structure Status where
  phase : Option Phase := none
  item : Int := -1
  dials : Option (List Dial) := none
  last : Option (List (List Value)) := none
  /-- The positions of the groups whose values have changed. The last group is at the position -1 as well. -/
  changed : List Int := []
  periods : Option Periods := none
  /-- How long to wait before the conditions are checked again. -/
  conditionalWait : Float := 0.0
  firstTime : Option Float := none
  configured : Bool := false
  paused : Bool := false
  aborting : Bool := false
  fatal : Bool := false
  continuous : Bool := false
  /-- Whether a continuous run ends after this time. -/
  lastTime : Bool := false
  done : Bool := false
  /-- The positions and places of the writers that have not set their resources yet. -/
  strays : List (Int × Nat) := []

structure Run (σ : Type) where
  status : Status
  world : σ

namespace Run

variable {σ α : Type}

instance [Clocked σ] : Clocked (Run σ) where
  time r := Clocked.time r.world
  setTime t r := { r with world := Clocked.setTime t r.world }

def onWorld (act : Act σ α) : Act (Run σ) α :=
  Act.focus Run.world (fun w r => { r with world := w }) act

def update (f : Status → Status) : Act (Run σ) PUnit :=
  modify fun r => { r with status := f r.status }

def status? : Act (Run σ) Status := do
  return (← get).status

def pause : Act (Run σ) PUnit :=
  update fun s => { s with paused := true }

def unpause : Act (Run σ) PUnit :=
  update fun s => { s with paused := false }

/-- The run ends before the next phase. Unless this is fatal, it ramps down first. -/
def abort (fatal : Bool := false) : Act (Run σ) PUnit :=
  update fun s => { s with aborting := true, fatal, paused := false }

end Run

structure Hooks (ρ : Type) where
  /-- After the measurements: the time since the first of them, the values of the variables and the measurements. -/
  onData : Option (Float → List Value → List Value → Act ρ PUnit) := none
  /-- After a variable has been set: its group, its place in the group, and the value. -/
  onWrite : Option (Int → Nat → Value → Act ρ PUnit) := none
  /-- After a measurement: its number and the value. -/
  onRead : Option (Nat → Value → Act ρ PUnit) := none
  onClose : Option (Act ρ PUnit) := none
  onFault : Option (Phase → Fault → Act ρ PUnit) := none
  /-- After a failure of a resource, which was written or read. -/
  onResourceFault : Option (String → Fault → Bool → Act ρ PUnit) := none
  onPause : Act ρ PUnit := pure ⟨⟩

structure Plan (σ : Type) where
  groups : List (List Variable)
  /-- The resources of the variables, in the same groups. -/
  resources : List (List (String × Option (Resource (Run σ))))
  itemCount : Int
  measurements : List (String × Option (Resource (Run σ))) := []
  guards : List (List (Guard (Run σ))) := []
  guardResources : List (String × Resource (Run σ)) := []
  pulsing : Option (Pulsing (Run σ)) := none
  hooks : Hooks (Run σ) := {}
  /-- Which writers are late, by the item, the group and the place in the group. -/
  late : Int → Int → Nat → Bool := fun _ _ _ => false

namespace Plan

variable {σ : Type}

def orders (plan : Plan σ) : List Int :=
  (plan.groups.filterMap fun g => g.head?.map Variable.order).reverse

def guardOrders (plan : Plan σ) : List Int :=
  plan.guards.filterMap fun g => g.head?.map Guard.order

def periods (plan : Plan σ) : Periods :=
  let lengths := plan.groups.reverse.filterMap fun g =>
    match g.head? with
    | some x => if x.isConst then none else some (x.order, groupLength Variable.length g)
    | none => none
  plan.guardOrders.foldl Periods.add (Periods.ofLengths 1 lengths)

def elementAt {α : Type} (xs : List α) (position : Int) : Outcome α :=
  let p := if position < 0 then position + xs.length else position
  match if 0 ≤ p then xs[p.toNat]? else none with
  | some x => .ok x
  | none => .error (.plain .outOfBounds)

section

variable [Clocked σ]

/-! ### Resources -/

/-- A failure of a resource is passed on. If whoever is told fails as well, this is lost. -/
def resourceFault (plan : Plan σ) (name : String) (f : Fault) (writing : Bool) : Act (Run σ) PUnit :=
  match plan.hooks.onResourceFault with
  | some hook => do
    let _ ← Act.attempt (hook name f writing)
    return
  | none => return

structure Change (ρ : Type) where
  name : String
  resource : Option (Resource ρ)
  first : Value
  last : Value
  steps : Int

/-- The pause between the steps of a smooth change, in seconds. -/
def rampPause : Float := 0.1

/-- The resources are taken slowly to their new values, one after the other. A change that cannot be divided into steps
is left out. -/
def rampAll (plan : Plan σ) (changes : List (Change (Run σ))) : Act (Run σ) PUnit :=
  changes.forM fun c => do
    match c.resource with
    | none => return
    | some r =>
      let _ ← Act.attempt (r.ramp c.first c.last c.steps (.real rampPause)
        fun f => plan.resourceFault c.name f true)
      return

def writeResource (plan : Plan σ) (name : String) (r : Resource (Run σ)) (v : Value) : Act (Run σ) PUnit := do
  match ← Act.attempt (r.write v) with
  | .ok _ => return
  | .error f => plan.resourceFault name f true

def readResource (plan : Plan σ) (name : String) (r : Resource (Run σ)) : Act (Run σ) (Option Value) := do
  match ← Act.attempt r.read with
  | .ok v => return some v
  | .error f =>
    plan.resourceFault name f false
    return none

/-! ### Phases -/

/-- A fresh cycle. The instruments are configured only once. -/
def init (plan : Plan σ) : Act (Run σ) (Option Phase) := do
  Run.update fun s => { s with dials := none, last := none, item := -1, periods := some plan.periods }
  if !(← Run.status?).configured then
    match plan.pulsing with
    | some p => p.configure
    | none => pure ⟨⟩
    Run.update fun s => { s with configured := true }
  return some .next

def positionsFrom (first : Int) (count : Nat) : List Int :=
  (List.range (count - first).toNat).map fun (k : Nat) => first + Int.ofNat k

def next (plan : Plan σ) : Act (Run σ) (Option Phase) := do
  let s ← Run.status?
  Run.update fun s => { s with item := s.item + 1 }
  let count := plan.groups.length
  match s.dials with
  | none =>
    let dials ← Act.lift (plan.groups.mapM fun g => Dial.start (g.map Variable.values))
    Run.update fun s => { s with dials := some dials, changed := positionsFrom 0 count }
  | some dials =>
    let (dials', moved) ← Act.lift (turnAll dials)
    let first : Int := match moved with
      | some k => k
      | none => -1
    Run.update fun s =>
      { s with dials := some dials', last := some (dials.map (·.row)), changed := positionsFrom first count }
  return some .transition

def rows (s : Status) : List (List Value) :=
  (s.dials.getD []).map (·.row)

def changesOf (wanted : Variable → Bool) (ends : Variable → Value → Value → Outcome (Value × Value)) :
    List Variable → List (String × Option (Resource (Run σ))) → List Value → List Value →
    Outcome (List (Change (Run σ)))
  | x :: xs, (name, resource) :: rs, v :: vs, w :: ws => do
    if x.isConst || !wanted x then changesOf wanted ends xs rs vs ws
    else
      let (first, last) ← ends x v w
      let rest ← changesOf wanted ends xs rs vs ws
      return { name, resource, first, last, steps := x.smoothSteps } :: rest
  | _, _, _, _ => .ok []

def changesAt (plan : Plan σ) (positions : List Int) (now before : List (List Value)) (wanted : Variable → Bool)
    (ends : Variable → Value → Value → Outcome (Value × Value)) : Outcome (List (Change (Run σ))) := do
  let groups ← positions.mapM fun p => do
    changesOf wanted ends (← elementAt plan.groups p) (← elementAt plan.resources p) (← elementAt now p)
      (← elementAt before p)
  return groups.flatten

/-- At the first item the variables come from their constants; later those that start again come from their last
values. -/
def transition (plan : Plan σ) : Act (Run σ) (Option Phase) := do
  let s ← Run.status?
  let now := rows s
  let changes ← Act.lift <| match s.last with
    | none =>
      plan.changesAt (positionsFrom 0 plan.groups.length) now now (·.smoothFrom) fun x v _ => do
        return (← x.typed x.const, v)
    | some before =>
      plan.changesAt s.changed.tail now before (·.smoothTransition) fun _ v w => .ok (w, v)
  plan.rampAll changes
  return some .write

/-- What is done for each variable of the groups that have changed: with the position of its group, its place there,
its resource and its value. -/
def forChanged (plan : Plan σ) (s : Status)
    (act : Int → Nat → String × Option (Resource (Run σ)) → Value → Act (Run σ) PUnit) : Act (Run σ) PUnit :=
  s.changed.forM fun p => do
    let resources ← Act.lift (elementAt plan.resources p)
    let values ← Act.lift (elementAt (rows s) p)
    (resources.zip values).zipIdx.forM fun x => act p x.2 x.1.1 x.1.2

/-- Starts to write a value. Nothing but a note comes of a late writer yet. -/
def startWriter (plan : Plan σ) (item position : Int) (i : Nat) :
    String × Option (Resource (Run σ)) → Value → Act (Run σ) PUnit
  | (name, some r), v =>
    if plan.late item position i then Run.update fun s => { s with strays := s.strays ++ [(position, i)] }
    else plan.writeResource name r v
  | (_, none), _ => return

/-- Waits until a value has been written, which is the time of a late writer. -/
def joinWriter (plan : Plan σ) (item position : Int) (i : Nat) :
    String × Option (Resource (Run σ)) → Value → Act (Run σ) PUnit
  | (name, some r), v => if plan.late item position i then plan.writeResource name r v else return
  | (_, none), _ => return

/-- A value is passed on as soon as its writer has been started. -/
def note (plan : Plan σ) (position : Int) (i : Nat) (v : Value) : Act (Run σ) PUnit :=
  match plan.hooks.onWrite with
  | some hook => hook position i v
  | none => return

/-- Starts all writers and then waits for them. A failure in between leaves the late ones to themselves. -/
def write (plan : Plan σ) : Act (Run σ) (Option Phase) := do
  let s ← Run.status?
  plan.forChanged s fun position i c v => do
    plan.startWriter s.item position i c v
    plan.note position i v
  plan.forChanged s (plan.joinWriter s.item)
  Run.update fun s => { s with strays := [] }
  return some .dwell

/-- What the writers that nobody has waited for still do. -/
def overtime (plan : Plan σ) : Act (Run σ) PUnit := do
  let s ← Run.status?
  plan.forChanged s fun position i c v => do
    if s.strays.contains (position, i) then plan.joinWriter s.item position i c v
  Run.update fun s => { s with strays := [] }

def longest : List Float → Outcome Float
  | [] => .error (.plain .badValue)
  | t :: ts => .ok (ts.foldl (fun a b => if a < b then b else a) t)

def dwell (plan : Plan σ) : Act (Run σ) (Option Phase) := do
  let s ← Run.status?
  let groups ← Act.lift (s.changed.mapM (elementAt plan.groups))
  let delay ← Act.lift (longest (groups.flatten.map fun x => x.wait.magnitude))
  Clocked.sleep (.real delay)
  return some (if plan.pulsing.isSome then .pulse else .read)

def pulse (plan : Plan σ) : Act (Run σ) (Option Phase) := do
  match plan.pulsing with
  | some p => p.play
  | none => pure ⟨⟩
  return some .read

/-- The measurements from a number on. If whoever is told about one of them fails, this is lost. -/
def measure (plan : Plan σ) : Nat → List (String × Option (Resource (Run σ))) → Act (Run σ) (List Value)
  | _, [] => return []
  | i, (name, resource) :: rest => do
    let v ← match resource with
      | none => pure Value.none
      | some r =>
        match ← plan.readResource name r with
        | none => pure Value.none
        | some v =>
          match plan.hooks.onRead with
          | some hook => do
            let _ ← Act.attempt (hook i v)
            pure ⟨⟩
          | none => pure ⟨⟩
          pure v
    return v :: (← measure plan (i + 1) rest)

/-- Measurements are taken and passed on, together with the time since the first ones. -/
def read (plan : Plan σ) : Act (Run σ) (Option Phase) := do
  let measurements ← plan.measure 0 plan.measurements
  match plan.hooks.onData with
  | none => pure ⟨⟩
  | some hook =>
    let now ← Clocked.now
    let s ← Run.status?
    let time ← match s.firstTime with
      | none => do
        Run.update fun s => { s with firstTime := some now }
        pure 0.0
      | some first => pure (now - first)
    hook time (rows s).flatten measurements
  return some .condition

def guardsOf (plan : Plan σ) (order : Int) : List (Guard (Run σ)) :=
  match plan.guards.find? fun g => (g.head?.map Guard.order) == some order with
  | some g => g
  | none => []

/-- Whether all guards hold. Each of them is looked at. -/
def allHold (plan : Plan σ) : List (Guard (Run σ)) → Act (Run σ) Bool
  | [] => return true
  | g :: rest => do
    let here ← g.holds plan.guardResources
    let others ← allHold plan rest
    return here && others

/-- The run goes on if the guards of all orders that are through with their values hold. Otherwise it waits as long as
the guards of the lowest of these orders say. -/
def condition (plan : Plan σ) : Act (Run σ) (Option Phase) := do
  let s ← Run.status?
  let holds ←
    if plan.guards.isEmpty then pure true
    else do
      let completed := (s.periods.getD []).completed (s.item + 1).toNat
      let guarded := completed.filter plan.guardOrders.contains
      let waits := match guarded with
        | [] => []
        | order :: _ => (plan.guardsOf order).map fun (g : Guard (Run σ)) => g.wait.magnitude
      let wait := waits.foldl (fun a b => if a < b then b else a) 0.0
      Run.update fun s => { s with conditionalWait := wait }
      plan.allHold (guarded.flatMap plan.guardsOf)
  if !holds then return some .conditionalDwell
  if s.item == plan.itemCount - 1 then
    Run.update fun s => { s with item := s.item + 1 }
    return some .rampDown
  return some .next

/-- Waits before the measurements are taken again. -/
def conditionalDwell : Act (Run σ) (Option Phase) := do
  Clocked.sleep (.real (← Run.status?).conditionalWait)
  return some .read

/-- The variables go to their constants. They have no values to start from before the first cycle. -/
def rampDown (plan : Plan σ) : Act (Run σ) (Option Phase) := do
  let s ← Run.status?
  let now := rows s
  if s.periods.isNone then .fail (.plain .missingAttribute)
  else if now.isEmpty then return none
  else
    let changes ← Act.lift <|
      plan.changesAt (positionsFrom 0 plan.groups.length) now now (·.smoothTo) fun x v _ => do
        return (v, ← x.typed x.const)
    plan.rampAll changes
    return if s.continuous && !s.lastTime then some .init else none

def finish (plan : Plan σ) : Act (Run σ) PUnit := do
  Run.update fun s => { s with phase := some .finish }
  if (← Run.status?).done then .fail (.plain .violated)
  Run.update fun s => { s with done := true }
  match plan.hooks.onClose with
  | some hook => hook
  | none => return

def perform (plan : Plan σ) (phase : Phase) : Act (Run σ) (Option Phase) := do
  if phase != .conditionalDwell then Run.update fun s => { s with phase := some phase }
  match phase with
  | .init => plan.init
  | .next => plan.next
  | .transition => plan.transition
  | .write => plan.write
  | .dwell => plan.dwell
  | .pulse => plan.pulse
  | .read => plan.read
  | .condition => plan.condition
  | .conditionalDwell => conditionalDwell
  | .rampDown => plan.rampDown
  | .finish => return none

/-- Waits while the run is paused. -/
def resume (plan : Plan σ) : Act (Run σ) PUnit := do
  if (← Run.status?).paused then plan.hooks.onPause

/-- How a run ends that has been aborted. Unless this is fatal, the variables go to their constants. -/
def breakOff (plan : Plan σ) : Act (Run σ) PUnit := do
  if !(← Run.status?).fatal then
    Run.update fun s => { s with continuous := false }
    let _ ← plan.perform .rampDown

/-- A failure within a phase is passed on. -/
def phaseFault (plan : Plan σ) (phase : Phase) (f : Fault) : Act (Run σ) PUnit :=
  match plan.hooks.onFault with
  | some hook => hook phase f
  | none => return

/-- Phase after phase, but not more than `limit` of them. A failure within a phase is the end. The result is the phase
with which the run would go on, and there is none at its end. -/
def phases (plan : Plan σ) : Nat → Option Phase → Act (Run σ) (Option Phase)
  | 0, following => return following
  | _, none => return none
  | limit + 1, some phase => do
    plan.resume
    if (← Run.status?).aborting then
      plan.breakOff
      return none
    match ← Act.attempt (plan.perform phase) with
    | .ok following => phases plan limit following
    | .error f =>
      plan.phaseFault phase f
      return none

/-- A run is closed at its end, also after a failure. If it would go on, it has no end so far. -/
def conclude (plan : Plan σ) : Outcome (Option Phase) → Act (Run σ) PUnit
  | .ok (some _) => .fail (.plain .endless)
  | .ok none => plan.finish
  | .error f => Act.always (.fail f) plan.finish

/-- A run from the start, of not more than `limit` phases. -/
def run (plan : Plan σ) (limit : Nat) : Act (Run σ) PUnit := do
  plan.conclude (← Act.attempt (plan.phases limit (some .init)))

end

end Plan

end LabBench.Sweep
