import LabBench.Value
import LabBench.Wire.Packed
/-!
# Codes of waveforms

A point of a waveform between `-1` and `1` is a code with 14 bits. Above them there is one bit for each of two markers.
-/

namespace LabBench.WaveformSource

def dataBits : Nat := 14

def maxCode : Int :=
  Nat.pow 2 dataBits - 1

section Point

variable {K : Type} [Magnitude K]

def scaled (x : K) : K :=
  Magnitude.ofInt maxCode * (x + 1.0) / 2.0

/-- The code of a point. Infinite points have none, and neither has what is no number. -/
def code (x : K) : Outcome Int :=
  match Magnitude.truncate? (scaled x) with
  | some n => .ok n
  | none => .error (.plain (if Magnitude.same (scaled x) (scaled x) then .overflow else .badValue))

def level (n : Int) : K :=
  2.0 * Magnitude.ofInt n / Magnitude.ofInt maxCode - 1.0

/-- The points of codes with markers, which are left out. -/
def levels (words : List Nat) : List K :=
  words.map fun n => level (n % Nat.pow 2 dataBits : Nat)

end Point

def markerBit (number : Nat) : Int :=
  Nat.pow 2 (dataBits + number - 1)

/-- Adds a bit wherever a marker is up. A marker cannot be up after the last point. -/
def mark (bit : Int) : List Value → List Int → Outcome (List Int)
  | [], data => .ok data
  | up :: rest, n :: data => do return (if up.truth then n + bit else n) :: (← mark bit rest data)
  | up :: rest, [] => if up.truth then .error (.plain .outOfBounds) else mark bit rest []

def markIn (markers : Value) (data : List Int) (number : Nat) : Outcome (List Int) :=
  match markers.part (.int number) with
  | .error f => if f.kind == .missingKey then .ok data else .error f
  | .ok levels => do mark (markerBit number) (← levels.sequence) data

def markAll (markers : Value) (data : List Int) : Outcome (List Int) :=
  if markers.truth then [1, 2].foldlM (markIn markers) data else .ok data

def point (v : Value) : Outcome Float := do
  match v.asFloat? with
  | some x => x
  | none =>
    discard (v.plus (.real 1.0))
    .error (.plain .badType)

def codes (points : List Value) : Outcome (List Int) :=
  points.mapM fun v => do code (← point v)

end LabBench.WaveformSource
