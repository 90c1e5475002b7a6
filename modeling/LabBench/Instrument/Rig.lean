import LabBench.Instrument.Basic
import LabBench.Wire.Session
import LabBench.Wire.Simulated
/-!
# Rigs

A rig is an instrument in use, with its panel and all that goes on around it. Its state is hidden, so that rigs with
instruments of all kinds are of one type.
-/

namespace LabBench

structure Rig where
  {σ : Type}
  state : σ
  panel : σ → Panel σ
  time : σ → Float
  /-- What was done since the last time that it was asked for. -/
  takeDeeds : Act σ (List Deed)
  /-- More will happen at the other end of the line. -/
  supply : List Happening → Act σ PUnit
  /-- What will happen and what was done, for those who come after. -/
  script : σ → Script
  /-- An entry of the memory of a simulated instrument by its path. -/
  look : List Value → σ → Outcome Value
  poke : List Value → Value → Act σ PUnit

namespace Rig

variable {κ μ : Type}

/-! ### Real instruments -/

def sessionControls : List (String × Control (Desk κ Session)) :=
  [("responses_expected", .reading do return .int (← get).line.expected),
    ("multi_command", .reading do
      return match (← get).line.collected with
        | some messages => .list (messages.map .text)
        | none => .none),
    ("driver", .reading do return .text (← get).line.bus.name)]

/-- Opens the session and sets the instrument up. An instrument on the parallel bus has to show that it is there. -/
def connect (i : Instrument κ Session) (panel : Desk κ Session → Panel (Desk κ Session)) :
    Act (Desk κ Session) PUnit := do
  Desk.onLine Session.opened
  let setUp : Act (Desk κ Session) PUnit := do
    if (← get).line.bus == .parallel then
      Desk.onLine (Session.configure i.endMark)
      discard ((panel (← get)).get "idn")
    i.connected
  match ← setUp.attempt with
  | .ok _ => return
  | .error _ =>
    let place := (← get).line.address.text
    .refuse .notFound s!"Could not finish connection to device at \"{place}\"."

def ofSession (i : Instrument κ Session) (address : Address) (script : Script) : Rig × Outcome PUnit :=
  let panel (d : Desk κ Session) : Panel (Desk κ Session) :=
    let p := i.panel d.settings
    p.extended (Instrument.lineControls p.name ++ sessionControls) Instrument.lineOperations
  let (outcome, state) :=
    connect i panel { settings := i.settings, line := { address, script, terminator := i.terminator } }
  let onScript (f : Script → Script) : Act (Desk κ Session) PUnit :=
    modify fun d => { d with line := { d.line with script := f d.line.script } }
  let rig : Rig :=
    { state, panel, time := Clocked.time
      takeDeeds := do
        let deeds := (← get).line.script.deeds
        onScript fun s => { s with deeds := [] }
        return deeds
      supply := fun more => onScript fun s => { s with happenings := s.happenings ++ more }
      script := fun d => d.line.script
      look := fun _ _ => .error (.plain .missingAttribute)
      poke := fun _ _ => .fail (.plain .missingAttribute) }
  (rig, outcome)

/-! ### Simulated instruments -/

variable [Simulation μ]

def simulationControls : List (String × Control (Desk κ (Simulated μ))) :=
  [("multi_command_responses", .reading do
      return match (← get).line.answers with
        | some answers => .list (answers.map .text)
        | none => .none),
    ("output", .reading do return .ofAnswer (← get).line.output)]

def simulationOperations : List (String × (List Value → Act (Desk κ (Simulated μ)) Value)) :=
  [("write", fun args => do
      match args with
      | [.text m, response, .flag true] => Desk.onLine (Simulated.receiveAnswered m response)
      | .text m :: _ => Desk.write m
      | _ => .fail (.plain .badType)
      return .none)]

def ofSimulation (i : Instrument κ (Simulated μ)) (line : Simulated μ) : Rig × Outcome PUnit :=
  let panel (d : Desk κ (Simulated μ)) : Panel (Desk κ (Simulated μ)) :=
    let p := i.panel d.settings
    p.extended (Instrument.lineControls p.name ++ simulationControls)
      (simulationOperations ++ Instrument.lineOperations)
  let (outcome, state) := i.connected { settings := i.settings, line }
  let forget : Act (Desk κ (Simulated μ)) PUnit := modify fun d => { d with line := { d.line with log := [] } }
  let rig : Rig :=
    { state := (forget state).2, panel, time := Clocked.time
      takeDeeds := do
        let messages := (← get).line.log
        forget
        return messages.map .received
      supply := fun _ => return
      script := fun _ => {}
      look := fun path d => Simulated.look d.line.memory path
      poke := fun path v => do
        let memory ← Simulation.poke path v (← get).line.memory
        modify fun d => { d with line := { d.line with memory } } }
  (rig, outcome)

end Rig

end LabBench
