import LabBench.Number.Spacing
import LabBench.Value
/-!
# Waveform generators

A generator puts a waveform together, piece by piece: single points, delays, square pulses and literal pulses. Times are
converted to numbers of points by the sampling frequency. In a rehearsal only the number of points is kept.
-/

namespace LabBench

open Number

/-! ### Markers

A marker is a level beside a waveform that is kept until it is changed. It is given by its changes, and read as one
level for every point.
-/

/-- The changes of a marker: positions, in increasing order, with the levels that start there. -/
abbrev Marker := List (Nat × Value)

namespace Marker

/-- A change at a position, which takes the place of an earlier change there. -/
def set (position : Nat) (level : Value) : Marker → Marker
  | [] => [(position, level)]
  | (p, v) :: rest =>
    if position < p then (position, level) :: (p, v) :: rest
    else if position = p then (position, level) :: rest
    else (p, v) :: set position level rest

def extent (m : Marker) : Nat :=
  m.foldl (fun n (p, _) => max n (p + 1)) 0

/-- The levels of the points from `start` on, where `level` was reached, up to `length` points in all or to the last
change. -/
def levelsFrom (length start : Nat) (level : Value) : Marker → List Value
  | [] => List.replicate (length - start) level
  | (p, v) :: rest => List.replicate (p - start) level ++ v :: levelsFrom length (p + 1) v rest

/-- The level at every point; it is off before the first change. -/
def levels (length : Nat) (m : Marker) : List Value :=
  levelsFrom length 0 (.flag false) m

end Marker

/-- The points of a waveform, and the levels of its markers at the points. -/
structure Waveform where
  data : Array Float
  markers : List (Value × List Value)

structure Generator where
  frequency : Value
  /-- In a rehearsal the points are counted and not kept. -/
  rehearsal : Bool := false
  maxLength : Nat := 10000000
  length : Nat := 0
  wave : Array Float := #[]
  markers : List (Value × Marker) := []

namespace Generator

/-- A waveform without points. -/
def fresh (frequency : Value) (rehearsal : Bool) : Generator :=
  { frequency, rehearsal }

/-- The number of points that fit into a time, without the last unfinished one. -/
def samples (g : Generator) (time : Value) : Outcome Int := do
  let t ← time.asQuantity
  let f ← g.frequency.asQuantity
  Value.wholePart (t.magnitude * f.magnitude)

/-- Whether so many more points still fit. -/
def checkLength (additional : Int) : Act Generator PUnit := do
  let g ← get
  let total := g.length + additional
  if total > g.maxLength then
    .refuse .badValue s!"Waveform is too long; stopping at {total} points"

/-- Puts points behind those that are there. In a rehearsal they are only counted. -/
def append (points : Array Float) : Act Generator PUnit :=
  modify fun g =>
    { g with length := g.length + points.size, wave := if g.rehearsal then g.wave else g.wave ++ points }

def lastPoint (g : Generator) : Float :=
  g.wave.back?.getD 0.0

def setNext (point : Float) : Act Generator PUnit := do
  checkLength 1
  append #[point]

def delay (time : Value) (lessPoints : Int := 1) : Act Generator PUnit := do
  let g ← get
  let points := (← Act.lift (g.samples time)) - lessPoints
  checkLength points
  append (Array.replicate points.toNat g.lastPoint)

/-- A square pulse, after which the point before it comes back. -/
def square (amplitude : Float) (time : Value) : Act Generator PUnit := do
  let before := (← get).lastPoint
  setNext amplitude
  delay time
  setNext before

/-- Points that are stretched to so many points, rounded to five places. -/
def stretch (points : Array Float) (count : Nat) : Array Float :=
  let knots := (spaced 0.0 1.0 points.size).toArray
  (spaced 0.0 1.0 count).toArray.map fun x => roundScaled 5 (interpolate knots points x)

def amplify (points : Array Float) : Value → Outcome (Array Float)
  | .none => .ok points
  | amplitude =>
    match amplitude.asFloat? with
    | some a => do
      let a ← a
      return points.map (a * ·)
    | none => .error (.plain .badType)

/-- Points that are made higher by a factor, and longer or shorter to fit a time. -/
def rescale (g : Generator) (points : Array Float) (amplitude time : Value) : Outcome (Array Float) := do
  if points.isEmpty then return points
  let higher ← amplify points amplitude
  match time with
  | .none => return higher
  | _ =>
    let count ← g.samples time
    if count < 0 then .error (.plain .badValue) else return stretch higher count.toNat

def pulse (points : Array Float) (amplitude time : Value) : Act Generator PUnit := do
  let data ← Act.lift ((← get).rescale points amplitude time)
  checkLength data.size
  append data

def sameName (a b : Value) : Bool :=
  match a.equal b with
  | .ok r => r
  | .error _ => false

def setMarker (name : Value) (position : Nat) (level : Value) : List (Value × Marker) → List (Value × Marker)
  | [] => [(name, Marker.set position level [])]
  | (n, m) :: rest =>
    if sameName n name then (n, m.set position level) :: rest
    else (n, m) :: setMarker name position level rest

/-- The level of a marker from the current position on. A rehearsal has no markers. -/
def mark (name level : Value) : Act Generator PUnit := do
  let g ← get
  if g.rehearsal then return
  if !name.isSettled then .fail (.plain .badType)
  set { g with markers := setMarker name g.wave.size level g.markers }

def markedLength (g : Generator) : Nat :=
  g.markers.foldl (fun n (_, m) => max n m.extent) 0

/-- The waveform so far. Zeros are added where a marker goes on after the last point. -/
def waveform (g : Generator) : Waveform :=
  let data := g.wave ++ Array.replicate (g.markedLength - g.wave.size) 0.0
  { data, markers := g.markers.map fun (name, m) => (name, m.levels data.size) }

end Generator

end LabBench
