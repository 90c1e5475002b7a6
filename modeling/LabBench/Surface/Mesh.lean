import LabBench.Number.Spacing
import LabBench.Fault
/-!
# Meshes

Values that were measured at scattered points are put on a regular grid. A value is known at the measured points; if the
values are linear in the coordinates, then it is known at all points between them.
-/

namespace LabBench.Surface

open Number

/-! ### Masks

On a grid only those points are shown that are close to a measured point: closer than the diagonal of a cell of the
grid.
-/

def missing : Float :=
  0.0 / 0.0

/-- The smaller number; what is not a number stays so. -/
def lesser (a b : Float) : Float :=
  if a.isNaN || b.isNaN then missing else if b < a then b else a

def least : List Float → Outcome Float
  | [] => .error (.plain .badValue)
  | x :: rest => .ok (rest.foldl lesser x)

/-- The sums of two lists of equal length. A single number is added to all numbers of the other list. -/
def pairSums (xs ys : List Float) : Outcome (List Float) :=
  match xs, ys with
  | [x], ys => .ok (ys.map (x + ·))
  | xs, [y] => .ok (xs.map (· + y))
  | xs, ys => if xs.length == ys.length then .ok (List.zipWith (· + ·) xs ys) else .error (.plain .badValue)

def cell (targets : List Float) : Outcome Float :=
  match targets.head?, targets.getLast? with
  | some a, some b => .ok ((b - a) / Float.ofNat (targets.length - 1))
  | _, _ => .error (.plain .outOfBounds)

def squares (xs : List Float) (t : Float) : List Float :=
  xs.map fun x => (x - t) * (x - t)

/-- The rows of the mask for a grid with columns at `tx` and rows at `ty`. -/
def mask (x y tx ty : List Float) : Outcome (List (List Float)) := do
  let dx ← cell tx
  let dy ← cell ty
  let limit := dx * dx + dy * dy
  ty.mapM fun v => tx.mapM fun u => do
    let distance ← least (← pairSums (squares x u) (squares y v))
    return if distance < limit then 1.0 else missing

abbrev Point := Float × Float

def turn (a b c : Point) : Float :=
  (b.1 - a.1) * (c.2 - a.2) - (b.2 - a.2) * (c.1 - a.1)

/-- The order of the points of a hull: by the first coordinate and then by the second. -/
def before (a b : Point) : Bool :=
  a.1 < b.1 || (a.1 == b.1 && a.2 <= b.2)

def distinctSorted (xs : List Float) : List Float :=
  let sorted := xs.mergeSort fun a b => b.isNaN || a <= b
  let add (seen : List Float) (x : Float) : List Float :=
    match seen with
    | y :: _ => if x == y || (x.isNaN && y.isNaN) then seen else x :: seen
    | [] => [x]
  (sorted.foldl add []).reverse

/-- Takes back the last points of a chain at which it does not turn left towards a new point. -/
def retract (p : Point) : List Point → List Point
  | b :: a :: rest => if turn a b p <= 0.0 then retract p (a :: rest) else b :: a :: rest
  | chain => chain

/-- The chain below sorted points, from the last point to the first. -/
def chain (points : List Point) : List Point :=
  points.foldl (fun c p => p :: retract p c) []

/-- The corners of the convex hull, counterclockwise. -/
def hull (points : List Point) : List Point :=
  let sorted := points.mergeSort before
  (chain sorted).tail.reverse ++ (chain sorted.reverse).tail.reverse

/-- Whether a point is inside of a convex polygon or on its sides, up to rounding. -/
def isInside (corners : List Point) (p : Point) : Bool :=
  let next := corners.tail ++ corners.take 1
  (List.zip corners next).all fun (a, b) =>
    let size := (b.1 - a.1).abs + (b.2 - a.2).abs + (p.1 - a.1).abs + (p.2 - a.2).abs
    turn a b p >= -1e-12 * size * size

structure Sample where
  point : Point
  value : Float

def onPlane (a b c : Sample) (p : Point) : Float :=
  let area := turn a.point b.point c.point
  (turn b.point c.point p * a.value + turn c.point a.point p * b.value + turn a.point b.point p * c.value) / area

/-- Three samples that are not on a line, the triangle being a large one. -/
def triangle? (samples : List Sample) : Option (Sample × Sample × Sample) :=
  match samples with
  | [] => none
  | a :: rest =>
    let distance (s : Sample) : Float := (s.point.1 - a.point.1).abs + (s.point.2 - a.point.2).abs
    let larger (size : Sample → Float) (best : Option Sample) (s : Sample) : Option Sample :=
      match best with
      | none => if size s > 0.0 then some s else none
      | some t => if size s > size t then some s else some t
    match rest.foldl (larger distance) none with
    | none => none
    | some b =>
      let area (s : Sample) : Float := (turn a.point b.point s.point).abs
      let scale := distance b
      match rest.foldl (larger area) none with
      | none => none
      | some c => if area c > 1e-13 * scale * scale then some (a, b, c) else none

/-- The value at a point: that of a measured point, or that of the plane through the samples; there is none outside of
the hull. -/
def valueAt (samples : List Sample) (corners : List Point) (base : Sample × Sample × Sample) (p : Point) : Float :=
  match samples.find? fun s => s.point.1 == p.1 && s.point.2 == p.2 with
  | some s => s.value
  | none =>
    if isInside corners p then
      let (a, b, c) := base
      onPlane a b c p
    else missing

/-- Values on a grid with the bounds of the coordinates and of the measured values. -/
structure Mesh where
  rows : List (List Float)
  xBounds : Float × Float
  yBounds : Float × Float
  zBounds : Float × Float

def ends (xs : List Float) : Outcome (Float × Float) :=
  match xs.head?, xs.getLast? with
  | some a, some b => .ok (a, b)
  | _, _ => .error (.plain .outOfBounds)

/-- Two lists of equal length; a single number goes with all numbers of the other list. -/
def pairUp (xs ys : List Float) : Outcome (List Point) :=
  match xs, ys with
  | [x], ys => .ok (ys.map (x, ·))
  | xs, [y] => .ok (xs.map (·, y))
  | xs, ys => if xs.length == ys.length then .ok (List.zip xs ys) else .error (.plain .badValue)

/-- The smallest and the largest number, where what is not a number is never chosen after the first one. -/
def extremes : List Float → Outcome (Float × Float)
  | [] => .error (.plain .badValue)
  | x :: rest =>
    .ok (rest.foldl (fun a b => if b < a then b else a) x, rest.foldl (fun a b => if b > a then b else a) x)

/-- Values on a grid whose sides have one point for every coordinate that occurs, but not more than `limits` says if
both limits are positive. -/
def mesh (x y z : List Float) (limits : Int × Int) (masked : Bool) : Outcome Mesh := do
  let xs := distinctSorted x
  let ys := distinctSorted y
  let limited := limits.1 > 0 && limits.2 > 0
  let columns := if limited then min xs.length limits.1.toNat else xs.length
  let rows := if limited then min ys.length limits.2.toNat else ys.length
  let (x₀, x₁) ← ends xs
  let (y₀, y₁) ← ends ys
  let xSpace := spaced x₀ x₁ columns
  let ySpace := spaced y₀ y₁ rows
  let points ← pairUp x y
  if points.any fun p => p.1.isNaN || p.2.isNaN then .error (.plain .badValue)
  if points.any fun p => p.1.isInf || p.2.isInf then .error (.plain .infeasible)
  match triangle? (points.map fun p => ⟨p, 0.0⟩) with
  | none => .error (.plain .infeasible)
  | some _ =>
    if z.length != points.length then .error (.plain .badValue)
    let samples := List.zipWith Sample.mk points z
    let corners := hull points
    match triangle? samples with
    | none => .error (.plain .infeasible)
    | some base =>
      let values := ySpace.map fun v => xSpace.map fun u => valueAt samples corners base (u, v)
      let shown ← if masked then do
          let m ← mask x y xSpace ySpace
          pure (List.zipWith (List.zipWith (· * ·)) values m)
        else pure values
      return ⟨shown, (x₀, x₁), (y₀, y₁), ← extremes z⟩

end LabBench.Surface
