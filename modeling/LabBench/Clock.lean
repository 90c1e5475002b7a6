import LabBench.Value
/-!
# Clocks

Computations that wait do so on a state with a clock.
-/

namespace LabBench

class Clocked (σ : Type) where
  time : σ → Float
  setTime : Float → σ → σ

namespace Clocked

variable {σ : Type} [Clocked σ]

def now : Act σ Float := do
  return time (← get)

def advance (seconds : Float) : Act σ PUnit :=
  modify fun s => setTime (time s + seconds) s

/-- The longest wait in seconds. It is counted in nanoseconds, as a signed word of 64 bits. -/
def longestPause : Float := 9223372036.854775807

/-- Waits for some seconds, which must be a number that is neither negative nor too large. -/
def pause (seconds : Float) : Act σ PUnit :=
  if seconds < 0.0 || seconds.isNaN then .fail (.plain .badValue)
  else if longestPause < seconds then .fail (.plain .overflow)
  else advance seconds

def sleep (seconds : Value) : Act σ PUnit := do
  match seconds.asFloat? with
  | some x => pause (← Act.lift x)
  | none => .fail (.plain .badType)

end Clocked

end LabBench
