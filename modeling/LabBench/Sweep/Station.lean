import LabBench.Instrument.Directory
import LabBench.Pulse.Program
import LabBench.Sweep.Run
/-!
# Pulse stations

At a pulse station there are a pulse program, a source of waveforms that plays it and an oscilloscope that watches.
-/

namespace LabBench.Sweep

open Pulse

/-- A pulse station, with the lines to its instruments and all that there is around it. -/
structure Station (ω β γ : Type) where
  world : ω
  program : Program
  source : Desk PUnit β
  scope : Desk PUnit γ

namespace Station

variable {ω β γ ρ α : Type}

instance [Clocked ω] : Clocked (Station ω β γ) where
  time s := Clocked.time s.world
  setTime t s := { s with world := Clocked.setTime t s.world }

/-! ### Parts of a station -/

def onWorld (act : Act ω α) : Act (Station ω β γ) α :=
  Act.focus world (fun w s => { s with world := w }) act

def onProgram (act : Act Program α) : Act (Station ω β γ) α :=
  Act.focus program (fun p s => { s with program := p }) act

def onSource (act : Act (Desk PUnit β) α) : Act (Station ω β γ) α :=
  Act.focus source (fun d s => { s with source := d }) act

def onScope (act : Act (Desk PUnit γ) α) : Act (Station ω β γ) α :=
  Act.focus scope (fun d s => { s with scope := d }) act

def worldResource (r : Resource ω) : Resource (Run (Station ω β γ)) :=
  r.focus (fun s => s.world.world) fun w s => { s with world := { s.world with world := w } }

def programResource (r : Resource Program) : Resource (Run (Station ω β γ)) :=
  r.focus (fun s => s.world.program) fun p s => { s with world := { s.world with program := p } }

/-! ### Instruments -/

def namesOf (maker model : String) : Option (List String) :=
  match Directory.make maker model true [] {} with
  | .ok (rig, _) => some (rig.panel rig.state).names
  | .error _ => none

def check (maker : String) (source scope : Option String) : Outcome PUnit := do
  checkInstrument "AWG" (source.bind (namesOf maker)) sourceNeeds
  checkInstrument "Oscilloscope" (scope.bind (namesOf maker)) scopeNeeds

variable [Line β] [Line γ]

/-- The channel with a number. Negative numbers count from the last channel. The number zero stands for a channel that
cannot be used. -/
def channelNumber (number : Int) : Outcome Nat :=
  let count : Int := WaveformSource.channels.length + 1
  let position := if number < 0 then number + count else number
  if position < 0 || count ≤ position then .error (.plain .outOfBounds) else .ok position.toNat

def waveChannel (lift : {α : Type} → Act (Station ω β γ) α → Act ρ α) (number : Nat) : WaveChannel ρ :=
  let guarded (act : Act (Desk PUnit β) PUnit) : Act ρ PUnit :=
    if number == 0 then .fail (.plain .missingAttribute) else lift (onSource act)
  { setWaveform := fun w name => guarded (WaveformSource.setWaveform number (w.data.toList.map .real)
      (.table (w.markers.map fun (n, levels) => (n, .list levels))) (.text name))
    enable := guarded (WaveformSource.setOutput number (.flag true)) }

def waveSource (lift : {α : Type} → Act (Station ω β γ) α → Act ρ α) : WaveSource ρ where
  setEnabled b := lift (onSource (WaveformSource.setEnabled (.flag b)))
  setSamplingRate v := lift (onSource (WaveformSource.setSamplingRate v))
  setRunMode mode := lift (onSource (WaveformSource.setRunMode (.text mode)))
  clearChannels := lift (onSource WaveformSource.clearChannels)
  channel number := do return waveChannel lift (← channelNumber number)
  trigger := lift (onSource (Desk.write "*trg"))
  settle := lift (onSource (Desk.onLine Line.settle))

def oscilloscope (lift : {α : Type} → Act (Station ω β γ) α → Act ρ α) : Scope ρ where
  setAcquiring b := lift (onScope (Setting.writeInt "acquire:state " (.flag b)))
  setFastframe b := lift (onScope (Setting.writeInt "horizontal:fastframe:state " (.flag b)))
  setFastframeSum summary := lift (onScope (Oscilloscope.setSummary (.text summary)))
  setFastframeCount n := lift (onScope (Oscilloscope.setFrameCount (.int n)))
  fastframeCount := lift (onScope (Oscilloscope.whole "horizontal:fastframe:count?"))
  setStopAfter ending := lift (onScope (Oscilloscope.setEnding (.text ending)))
  acquisitions := lift (onScope (Oscilloscope.whole "acquire:numacq?"))
  settle := lift (onScope (Desk.onLine Line.settle))

/-- What is done at a station for every item of a sweep, where `lift` takes the station to the state of the sweep. -/
def pulsing (lift : {α : Type} → Act (Station ω β γ) α → Act ρ α) (p : Program) (channels : List (String × Int)) :
    Pulsing ρ where
  frequency := lift (onProgram do return (← get).env.frequency)
  waveforms := lift (onProgram do return (← Program.generate false).map fun (name, w, _) => (name, w))
  timesAverage := p.timesAverage
  delay := p.acquisitionDelay
  channels
  source := waveSource lift
  scope := oscilloscope lift

end Station

/-! ### Simulated stations -/

abbrev SimulatedStation (ω : Type) :=
  Station ω (Simulated WaveformSource.Simulation.Memory) (Simulated Oscilloscope.Simulation.Memory)

def SimulatedStation.make {ω : Type} (world : ω) (program : Program) : Outcome (SimulatedStation ω) := do
  return { world, program, source := { settings := ⟨⟩, line := ← Simulated.start [] },
           scope := { settings := ⟨⟩, line := ← Simulated.start [] } }

end LabBench.Sweep
