import LabBench.Value
/-!
# Exchange of quantities with instruments

Instruments speak in plain numbers. A reading becomes a quantity by a unit and a factor, and a setting is taken out of
a quantity, either in base units or in a unit of choice.
-/

namespace LabBench.Quantity

def ofReading (units : Value) (reading : Value) (factor : Value) : Outcome (Quantity Float) := do
  let v ← reading.scaled factor
  v.toQuantity units

/-- The magnitude in base units times a factor, of a value that has to be a quantity with the dimension of a unit. -/
def toSetting (units : String) (v : Value) (factor : Value) : Outcome Value := do
  let q ← v.asQuantityIn units
  (Value.real q.magnitude).scaled factor

/-- The number of a quantity in another unit of its dimension. One unit is added and taken away again, since the scale
of a unit is found from a magnitude that is not zero. -/
def valueIn {K : Type} [Magnitude K] (units : String) (q : Quantity K) : Outcome K := do
  q.checkUnits units
  let one ← make 1.0 units
  let sum ← one.add q
  let difference ← sum.sub one
  difference.inUnits

def toSettingIn (units : String) (v : Value) (factor : Value) : Outcome Value := do
  let q ← v.asQuantity
  let x ← q.valueIn units
  (Value.real x).scaled factor

end LabBench.Quantity
