/-!
# Evenly spaced numbers

Grids of evenly spaced numbers, and the values between the points of a grid.
-/

namespace LabBench.Number

/-- The `i`-th of `count` evenly spaced numbers from `a` to `b`, apart from the last one. -/
def spacedAt (a b : Float) (count i : Nat) : Float :=
  let gaps := Float.ofNat (count - 1)
  let step := (b - a) / gaps
  if count ≤ 1 then Float.ofNat i * (b - a) + a
  else if step == 0.0 then Float.ofNat i / gaps * (b - a) + a
  else Float.ofNat i * step + a

/-- Evenly spaced numbers from `a` to `b`, both included. The last of several is exactly `b`. -/
def spaced (a b : Float) (count : Nat) : List Float :=
  (List.range count).map fun i => if 1 < count && i + 1 == count then b else spacedAt a b count i

theorem length_spaced (a b : Float) (count : Nat) : (spaced a b count).length = count := by
  simp [spaced]

/-- The last of the increasing knots from `lo` on and before `hi` that is not greater than `x`, given that the knot at
`lo` is not greater than `x`. -/
def lastKnot (knots : Array Float) (x : Float) (lo hi : Nat) : Nat :=
  if hi ≤ lo + 1 then lo
  else
    let middle := (lo + hi) / 2
    if x < knots.getD middle 0.0 then lastKnot knots x lo middle else lastKnot knots x middle hi
termination_by hi - lo

/-- The value at `x` on the line through two points. If it is not a number when reckoned from the left point, then it is
reckoned from the right one. -/
def onLine (x₀ y₀ x₁ y₁ x : Float) : Float :=
  let slope := (y₁ - y₀) / (x₁ - x₀)
  let left := slope * (x - x₀) + y₀
  if !left.isNaN then left
  else
    let right := slope * (x - x₁) + y₁
    if right.isNaN && y₀ == y₁ then y₀ else right

/-- The piecewise linear function through points with increasing knots; it is constant outside of them. -/
def interpolate (knots values : Array Float) (x : Float) : Float :=
  let last := knots.size - 1
  if x < knots.getD 0 0.0 then values.getD 0 0.0
  else
    let j := lastKnot knots x 0 knots.size
    if last ≤ j || knots.getD j 0.0 == x then values.getD j 0.0
    else onLine (knots.getD j 0.0) (values.getD j 0.0) (knots.getD (j + 1) 0.0) (values.getD (j + 1) 0.0) x

/-- The nearest whole number; a half goes to the even neighbour. -/
def roundEven (x : Float) : Float :=
  let below := x.floor
  let rest := x - below
  if rest < 0.5 then below
  else if 0.5 < rest then below + 1.0
  else if rest == 0.5 then
    let half := below / 2.0
    if half.floor == half then below else below + 1.0
  else x

/-- Rounding to decimal places by way of a whole multiple of the last place. -/
def roundScaled (places : Nat) (x : Float) : Float :=
  let scale := Float.ofScientific 1 false places
  roundEven (x * scale) / scale

end LabBench.Number
