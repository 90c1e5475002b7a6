import LabBench.Instrument.Setting
import LabBench.Wire.Simulated
/-!
# Racks of voltage sources

A rack holds eight modules, each of which is a voltage source. A module is spoken to through the rack: messages to it
are sent within quotes, and its answer comes in a block after its length.

Since reading a module is slow, its voltage is read once, and from then on it is remembered.
-/

namespace LabBench.VoltageRack

/-- What is kept of a module on this side of the line. -/
structure Module where
  number : Nat
  gain : Value := .real 1.0
  offset : Value := .real 0.0
  lowest : Value := .int (-20)
  highest : Value := .int 20
  voltage : Option Value := none

abbrev Settings := List Module

/-- The characters between two positions, the second of which may count from the end. -/
def between (start : Nat) (stop : Int) (cs : List Char) : List Char :=
  let stop := if stop < 0 then stop + cs.length else stop
  (cs.take stop.toNat).drop start

/-- How many characters of an answer are the number, by the length of the block. Two characters end it, and a long block
has everything twice. -/
def numeralLength (length : Int) : Int :=
  let count := length - 2
  if 7 < count then (count - 2).fdiv 2 else count

def number (answer : List Char) : Outcome Float := do
  let length ← (Value.text (String.ofList (between 2 5 answer))).toInt
  (Value.text (String.ofList (between 5 (5 + numeralLength length) answer))).toFloat

/-- The voltage in the answer of a module, or an impossible one where there is no answer or no number in it. -/
def voltageIn (answer : String) : Value :=
  if answer.isEmpty then .int (-999)
  else
    match number answer.toList with
    | .ok x => .real x
    | .error _ => .int (-888)

variable {β : Type} [Line β]

abbrev Use (β α : Type) := Act (Desk Settings β) α

def change (position : Nat) (f : Module → Module) : Use β PUnit :=
  Desk.remember fun modules => modules.modify position f

def moduleAt (position : Nat) : Use β Module := do
  match (← Desk.consult id)[position]? with
  | some m => return m
  | none => .fail (.plain .outOfBounds)

def readVoltage (position : Nat) : Use β PUnit := do
  let number := (← moduleAt position).number
  Desk.write s!"SNDT {number}, \"VOLT?\""
  let answer ← Desk.onLine (Line.askRaw s!"GETN? {number}, 80")
  change position fun m => { m with voltage := some (voltageIn (answer.getD "")) }

def voltage (position : Nat) : Use β Value := do
  match (← moduleAt position).voltage with
  | some v => return .quantity (← Quantity.ofReading (.text "V") v (.real 1.0))
  | none => .fail (.plain .missingAttribute)

def setVoltage (position : Nat) (v : Value) : Use β PUnit := do
  let x ← Quantity.toSetting "V" v (.real 1.0)
  change position fun m => { m with voltage := some x }
  let number := (← moduleAt position).number
  let shown := x.display
  Desk.write s!"SNDT {number}, \"VOLT {shown}\""

/-! ### The panel -/

def field (position : Nat) (get : Module → Value) (put : Value → Module → Module) : Control (Desk Settings β) :=
  .setting (do return get (← moduleAt position)) fun v => change position (put v)

def moduleControls (position : Nat) : List (String × Control (Desk Settings β)) :=
  [("voltage", .setting (voltage position) (setVoltage position)),
    ("num", .reading do return .int (← moduleAt position).number),
    ("gain", field position Module.gain fun v m => { m with gain := v }),
    ("offset", field position Module.offset fun v m => { m with offset := v }),
    ("min_value", field position Module.lowest fun v m => { m with lowest := v }),
    ("max_value", field position Module.highest fun v m => { m with highest := v }),
    ("currVoltage", Setting.constant (.int (-999))),
    ("currentVoltage", .reading do
      match (← moduleAt position).voltage with
      | some v => return v
      | none => .fail (.plain .missingAttribute))]

def modulePanel (position : Nat) : Panel (Desk Settings β) where
  name := "Port"
  controls := moduleControls position
  resources :=
    [("voltage", (Panel.resourceOf (moduleControls position) true true "voltage").2.withUnits (some "V"))]

/-- The modules of a full rack. They take no settings. -/
def fullRack (given : Value) : Outcome Settings :=
  match given with
  | .none | .table [] => .ok ((List.range 8).map fun k => { number := k + 1 })
  | _ => .error (.plain .badType)

/-- A rack with some modules. The voltages of all modules are read first. -/
def instrument (name : String) (modules : Settings) : Instrument Settings β where
  settings := modules
  connected := do
    for k in List.range modules.length do readVoltage k
    Desk.write "*RST"
  panel modules :=
    { name
      parts := modules.zipIdx.map fun (m, k) =>
        let shown := Text.padded 2 m.number
        (s!"port{shown}", modulePanel k) }

/-! ### Simulation -/

/-- What a simulated rack remembers. It has no messages of its own. -/
structure Memory where
  frequency : Int := 1000
  amplitude : Float := 0.5

instance : Simulation Memory where
  name := "Mock_sim900"
  blank := {}
  reset := Simulated.remember fun _ => {}
  respond _ := return none
  table m := .table [(.text "frequency", .int m.frequency), (.text "BNCAmplitude", .real m.amplitude)]

end LabBench.VoltageRack
