import LabBench.Clock
import LabBench.Resource.Basic
/-!
# Monitors

A monitor reads a resource once in every period and passes the value on.
-/

namespace LabBench

structure Monitor (σ : Type) where
  /-- The time from one reading to the next, in seconds. -/
  period : Float
  /-- What happens at the start of a round, such as waiting for a permission. -/
  enter : Act σ PUnit := pure ⟨⟩
  resource : Option (Resource σ) := none
  report : Value → Act σ PUnit

namespace Monitor

variable {σ : Type} [Clocked σ]

def make (period : Quantity Float) (enter : Act σ PUnit) (resource : Option (Resource σ))
    (report : Value → Act σ PUnit) : Outcome (Monitor σ) := do
  period.checkUnits "s"
  return { period := period.magnitude, enter, resource, report }

/-- The resource is read; what cannot be read is left out. -/
def poll (m : Monitor σ) : Act σ PUnit := do
  match m.resource with
  | none => return
  | some r =>
    match ← Act.attempt r.read with
    | .ok v => m.report v
    | .error _ => return

/-- One round: a reading, and a pause for the rest of the period unless the monitor has been stopped. -/
def round (m : Monitor σ) (isDone : σ → Bool) : Act σ PUnit := do
  m.enter
  let next := (← Clocked.now) + m.period
  m.poll
  let rest := next - (← Clocked.now)
  if !isDone (← get) && 0.0 < rest then Clocked.sleep (.real rest)

/-- Rounds until the monitor is stopped, but not more than `limit`. -/
def run (m : Monitor σ) (isDone : σ → Bool) : Nat → Act σ PUnit
  | 0 => return
  | limit + 1 => do
    if isDone (← get) then return
    m.round isDone
    run m isDone limit

end Monitor

end LabBench
