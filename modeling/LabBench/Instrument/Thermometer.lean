import LabBench.Instrument.Setting
import LabBench.Wire.Simulated
/-!
# Thermometers

A temperature controller has one sensor and tells whether its reading can be trusted. A temperature monitor has eight
sensors.
-/

namespace LabBench.Thermometer

inductive Model where
  | controller
  | monitor
  deriving Repr, DecidableEq

namespace Model

def readings : Model → List String
  | controller => ["temperature"]
  | monitor => (List.range 8).map fun n => s!"temperature{n + 1}"

def name : Model → String
  | controller => "TC335"
  | monitor => "model218"

def simulationName : Model → String
  | controller => "MockTC335"
  | monitor => "MockModel218"

end Model

variable {β : Type} [Line β] (model : Model)

/-- The reading of the controller. It is -1 below the range of the sensor and -2 after any other trouble. -/
def checkedReading : Act (Desk PUnit β) Value :=
  Desk.busy "Taking reading" do
    let status ← Desk.askInt "rdgst?"
    if status == 0 then return .real (← Desk.askFloat "krdg?")
    return .int (if status ≤ 17 then -1 else -2)

def controls : List (String × Control (Desk PUnit β)) :=
  match model with
  | .controller =>
    [("temperature", .reading do
      return .quantity (← Quantity.ofReading (.text "K") (← checkedReading) (.real 1.0)))]
  | .monitor => Model.monitor.readings.zipIdx.map fun (name, k) =>
    let number := k + 1
    (name, .reading (Desk.askQuantity s!"krdg? {number}" "K"))

def instrument (name : String) : Instrument PUnit β where
  settings := ⟨⟩
  panel _ :=
    { name
      controls := controls model ++ [("read_only", Setting.constant (.list (model.readings.map .text)))]
      operations := [Instrument.resetOperation]
      resources := model.readings.map fun reading =>
        (reading, (Panel.resourceOf (controls model) true false reading).2.withUnits (some "K")) }

/-! ### Simulation -/

structure Memory (model : Model) where
  status : Value := .int 0

def respond (message : String) : Act (Simulated (Memory model)) (Option Value) := do
  let m ← Message.ofText message
  if !m.isQuery then return none
  match m.first, model with
  | "rdgst", .controller => return some (← Simulated.consult Memory.status)
  | "krdg", _ => return some (.int (← Simulated.roll 5 100))
  | _, _ => return none

instance : Simulation (Memory model) where
  name := model.simulationName
  blank := {}
  reset := return
  respond := respond model
  table m := .table [(.text "readingstatus", m.status), (.text "read_only", .list [.text "temperature"])]
  poke
    | [.text "readingstatus"], v, _ => .ok { status := v }
    | _, _, _ => .error (.plain .missingKey)

end LabBench.Thermometer
