import LabBench.Fault
/-!
# Straight lines through points

The straight line that comes closest to given points, in the sense of least squares.
-/

namespace LabBench.Number

def total (xs : List Float) : Float :=
  xs.foldl (· + ·) 0.0

/-- Slope and intercept of the straight line that comes closest to the points. When the points have only one abscissa,
so that many lines come equally close, it is the one with the smallest slope and intercept. There is none if an abscissa
is infinite or not a number. -/
def fitLine (xs ys : List Float) : Outcome (Float × Float) := do
  if !xs.all Float.isFinite then .error (.plain .badValue)
  let n := Float.ofNat xs.length
  let x := total xs / n
  let y := total ys / n
  let spread := total (xs.map fun a => (a - x) * (a - x))
  let trace := total (xs.map fun a => a * a) + n
  let largest := (trace + (trace * trace - 4.0 * n * spread).abs.sqrt) / 2.0
  let cutoff := 2.220446049250313e-16 * Float.ofNat (max xs.length 2)
  if n * spread ≤ cutoff * cutoff * largest * largest then
    let scale := y / (x * x + 1.0)
    return (scale * x, scale)
  else
    let slope := total ((xs.zip ys).map fun (a, b) => (a - x) * (b - y)) / spread
    return (slope, y - slope * x)

end LabBench.Number
