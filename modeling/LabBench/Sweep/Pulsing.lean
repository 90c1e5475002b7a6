import LabBench.Clock
import LabBench.Waveform.Generator
/-!
# Pulses within a sweep

At every item of a sweep a pulse program can be played on a source of waveforms, while an oscilloscope acquires the
result.
-/

namespace LabBench.Sweep

/-! ### Instruments -/

structure WaveChannel (ρ : Type) where
  setWaveform : Waveform → String → Act ρ PUnit
  enable : Act ρ PUnit

structure WaveSource (ρ : Type) where
  setEnabled : Bool → Act ρ PUnit
  setSamplingRate : Value → Act ρ PUnit
  setRunMode : String → Act ρ PUnit
  clearChannels : Act ρ PUnit
  channel : Int → Act ρ (WaveChannel ρ)
  trigger : Act ρ PUnit
  settle : Act ρ PUnit

structure Scope (ρ : Type) where
  setAcquiring : Bool → Act ρ PUnit
  setFastframe : Bool → Act ρ PUnit
  setFastframeSum : String → Act ρ PUnit
  setFastframeCount : Int → Act ρ PUnit
  fastframeCount : Act ρ Value
  setStopAfter : String → Act ρ PUnit
  acquisitions : Act ρ Value
  settle : Act ρ PUnit

def sourceNeeds : List String :=
  ["channels", "clear_channels", "enabled", "run_mode", "sampling_rate", "trigger"]

def scopeNeeds : List String :=
  ["acquiring", "fastframe", "fastframe_count", "fastframe_sum", "stopafter"]

/-- Whether there is an instrument, and whether it has all the attributes that are needed. -/
def checkInstrument (name : String) (attributes : Option (List String)) (needs : List String) : Outcome PUnit := do
  match attributes with
  | none => .error (.because .badType s!"No \"{name}\" device configured")
  | some has =>
    match needs.find? fun a => !has.contains a with
    | some a => .error (.because .badType s!"Given \"{name}\" device lacks \"{a}\"")
    | none => return

/-! ### Playing -/

structure Pulsing (ρ : Type) where
  frequency : Act ρ Value
  waveforms : Act ρ (List (String × Waveform))
  timesAverage : Int
  delay : Quantity Float
  channels : List (String × Int)
  source : WaveSource ρ
  scope : Scope ρ

namespace Pulsing

variable {ρ : Type} [Clocked ρ]

def configure (p : Pulsing ρ) : Act ρ PUnit := do
  p.source.setEnabled false
  p.source.setSamplingRate (← p.frequency)
  p.source.setRunMode "triggered"

/-- The clock may stop short of the end by a rounding error, so that some more pauses are needed. -/
def sleepUntil (time : Float) : Nat → Act ρ PUnit
  | 0 => return
  | limit + 1 => do
    let rest := time - (← Clocked.now)
    if 0.0 < rest then
      Clocked.sleep (.real rest)
      sleepUntil time limit

def load (p : Pulsing ρ) (waveforms : List (String × Waveform)) : Act ρ (List (WaveChannel ρ)) :=
  p.channels.mapM fun (output, number) => do
    let channel ← p.source.channel number
    match waveforms.lookup output with
    | none => .fail (.plain .missingKey)
    | some w =>
      channel.setWaveform w output
      return channel

/-- The oscilloscope is made ready for as many acquisitions as are averaged. -/
def prepareScope (p : Pulsing ρ) : Act ρ PUnit := do
  p.scope.setAcquiring false
  if 1 < p.timesAverage then
    p.scope.setFastframe true
    p.scope.setFastframeSum "average"
    p.scope.setFastframeCount (p.timesAverage + 1)
    let count ← p.scope.fastframeCount
    if !(← Act.lift (count.equal (.int (p.timesAverage + 1)))) then
      .refuse .badValue s!"Cannot average {p.timesAverage} times; check the oscilloscope"
  else p.scope.setFastframe false
  p.scope.setStopAfter "sequence"

def shoot (p : Pulsing ρ) : Act ρ PUnit := do
  p.source.trigger
  p.source.settle
  sleepUntil ((← Clocked.now) + p.delay.magnitude) 64

def shootTimes (p : Pulsing ρ) : Nat → Act ρ PUnit
  | 0 => return
  | n + 1 => do
    p.shoot
    shootTimes p n

/-- The program is played as many times as are averaged, if there are channels for it. -/
def play (p : Pulsing ρ) : Act ρ PUnit := do
  if p.channels.isEmpty then return
  let waveforms ← p.waveforms
  p.source.setEnabled false
  p.source.clearChannels
  let channels ← p.load waveforms
  channels.forM (·.enable)
  p.source.setEnabled true
  p.prepareScope
  p.source.settle
  p.scope.settle
  p.scope.setAcquiring true
  -- the oscilloscope needs some time to get ready for the trigger
  Clocked.sleep (.int 1)
  p.shootTimes p.timesAverage.toNat
  p.scope.settle
  let made ← p.scope.acquisitions
  if !(← Act.lift (made.equal (.int p.timesAverage))) then
    let shown := made.display
    .refuse .badValue s!"Incorrect number of acquisitions made: {shown}"

end Pulsing

end LabBench.Sweep
