import LabBench.Clock
import LabBench.Number.Spacing
import LabBench.Resource.Basic
/-!
# Ramps

A resource can be taken slowly from one value to another, by evenly spaced steps.
-/

namespace LabBench

open Number

/-- Evenly spaced quantities. All of them but the last one are in the unit of the difference. -/
def Quantity.spaced (a b : Quantity Float) (count : Nat) : Outcome (List (Quantity Float)) := do
  let difference ← b.sub a
  let step ← if count ≤ 1 then pure difference else difference.div (Float.ofNat (count - 1))
  (List.range count).mapM fun i => do
    if 1 < count && i + 1 == count then return b
    let s ← step.mul (Float.ofNat i)
    s.add a

def Value.spaced (a b : Value) (count : Int) : Outcome (List Value) := do
  if count < 0 then .error (.plain .badValue)
  match a, b with
  | .quantity p, .quantity q => return (← Quantity.spaced p q count.toNat).map .quantity
  | .quantity _, _ | _, .quantity _ =>
    let _ ← b.minus a
    .error (.plain .badType)
  | _, _ =>
    match a.asFloat?, b.asFloat? with
    | some x, some y => return (Number.spaced (← x) (← y) count.toNat).map .real
    | _, _ => .error (.plain .badType)

/-- A zero beside a quantity is taken to be in its unit. Two quantities have to be of the same dimension. -/
def Value.matchZero (a b : Value) : Outcome (Value × Value) := do
  match a, b with
  | .quantity p, .quantity q =>
    p.checkDimension q
    return (a, b)
  | .quantity p, _ =>
    if ← b.equal (.int 0) then return (a, .quantity (← Quantity.make 0.0 p.units)) else return (a, b)
  | _, .quantity q =>
    if ← a.equal (.int 0) then return (.quantity (← Quantity.make 0.0 q.units), b) else return (a, b)
  | _, _ => return (a, b)

namespace Resource

variable {σ : Type} [Clocked σ]

/-- The resource gets one value after the other, with a pause after each of them. The first failure ends this and is
passed on to `onFault`. -/
def writeAll (r : Resource σ) (pause : Value) (onFault : Fault → Act σ PUnit) : List Value → Act σ PUnit
  | [] => return
  | v :: rest => do
    match ← Act.attempt (r.write v) with
    | .error f => onFault f
    | .ok _ =>
      Clocked.sleep pause
      writeAll r pause onFault rest

/-- The resource is taken slowly from one value to another. -/
def ramp (r : Resource σ) (first last : Value) (steps : Int) (pause : Value)
    (onFault : Fault → Act σ PUnit := fun _ => pure ⟨⟩) : Act σ PUnit := do
  let (a, b) ← Act.lift (Value.matchZero first last)
  let values ← Act.lift (Value.spaced a b steps)
  r.writeAll pause onFault values

end Resource

end LabBench
