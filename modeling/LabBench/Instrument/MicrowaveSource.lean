import LabBench.Instrument.Setting
import LabBench.Wire.Simulated
/-!
# Microwave sources

A microwave source puts out a wave of a given power and frequency, once its output is switched on. The power is given by
a voltage.
-/

namespace LabBench.MicrowaveSource

variable {β : Type} [Line β]

def powerBounds : Value × Value :=
  (.real 0.007, .real 7.071)

def frequencyBounds : Value × Value :=
  (.real 1e9, .real 22e9)

def controls : List (String × Control (Desk PUnit β)) :=
  [("enabled", Setting.switch "output:state"),
    ("power", Setting.boundedQuantity "source:power:power" "V" powerBounds.1 powerBounds.2),
    ("frequency", Setting.boundedQuantity "source:frequency:cw" "Hz" frequencyBounds.1 frequencyBounds.2),
    ("min_power", Setting.constant powerBounds.1), ("max_power", Setting.constant powerBounds.2),
    ("min_freq", Setting.constant frequencyBounds.1), ("max_freq", Setting.constant frequencyBounds.2)]

/-- The instrument. It is told to speak of the power in volts. -/
def instrument (name : String) : Instrument PUnit β where
  settings := ⟨⟩
  connected := Desk.write "unit:power v"
  panel _ :=
    let resource (name : String) : Resource (Desk PUnit β) := (Panel.resourceOf controls true true name).2
    { name, controls
      operations := [Instrument.resetOperation]
      resources :=
        [("enabled", { resource "enabled" with converter := some .flag }),
          ("power", (resource "power").withUnits (some "V")),
          ("frequency", (resource "frequency").withUnits (some "Hz"))] }

/-! ### Simulation -/

structure Memory where
  enabled : Int := 0
  power : Float := 0.007
  frequency : Float := 1e10

def respondSetting {α : Type} (m : Message) (read : Memory → Value) (convert : Value → Outcome α)
    (put : α → Memory → Memory) : Act (Simulated Memory) (Option Value) := do
  if m.isQuery then return some (read (← Simulated.consult id))
  let x ← convert (.text m.argument)
  Simulated.remember (put x)
  return some .none

def respond (message : String) : Act (Simulated Memory) (Option Value) := do
  let m ← Message.ofText message
  match m.first with
  | "output" =>
    if (← m.word 1) != "state" then return none
    respondSetting m (fun s => .int s.enabled) Value.toInt fun x s => { s with enabled := x }
  | "source" =>
    if ← m.goesOn 1 ["power", "power"] then
      respondSetting m (fun s => .real s.power) Value.toFloat fun x s => { s with power := x }
    else if ← m.goesOn 1 ["frequency", "cw"] then
      respondSetting m (fun s => .real s.frequency) Value.toFloat fun x s => { s with frequency := x }
    else return none
  | "unit" => return some .none
  | _ => return none

instance : Simulation Memory where
  name := "MockSMF100A"
  blank := {}
  reset := Simulated.remember fun _ => {}
  respond := respond
  table m :=
    .table [(.text "enabled", .int m.enabled), (.text "power", .real m.power), (.text "frequency", .real m.frequency)]

end LabBench.MicrowaveSource
