import LabBench.Instrument.Setting
/-!
# Source meters

A source meter puts out a voltage or a current and measures both. What it was set to is remembered on this side of the
line. One of the models can be asked for most of that only while its output is on.
-/

namespace LabBench.SourceMeter

structure Settings where
  voltage : Option Value := none
  current : Option Value := none
  /-- Whether the output is on: zero means that it is off. -/
  state : Int := -1

variable {β : Type} [Line β]

abbrev Use (β α : Type) := Act (Desk Settings β) α

def lastSet (units : String) (get : Settings → Option Value) : Use β Value := do
  match ← Desk.consult get with
  | some v => return .quantity (← Quantity.ofReading (.text units) v (.real 1.0))
  | none => .fail (.plain .missingAttribute)

/-- Sets a quantity by some messages, the last of which ends with the number, and remembers it. -/
def put (messages : List String) (start units : String) (keep : Value → Settings → Settings) (v : Value) :
    Use β PUnit := do
  let x ← Quantity.toSetting units v (.real 1.0)
  for message in messages do Desk.write message
  Desk.writeValue start x
  Desk.remember (keep x)

def keepVoltage (v : Value) (s : Settings) : Settings :=
  { s with voltage := some v }

def keepCurrent (v : Value) (s : Settings) : Settings :=
  { s with current := some v }

/-- The panel of a source meter. What is put out may be readable. -/
def panel (name : String) (controls : List (String × Control (Desk Settings β))) (isOutputReadable : Bool) :
    Panel (Desk Settings β) :=
  let resource (isReadable isWritable : Bool) (units name : String) : String × Resource (Desk Settings β) :=
    (name, (Panel.resourceOf controls isReadable isWritable name).2.withUnits (some units))
  { name, controls
    operations := [Instrument.resetOperation]
    resources := [resource true false "V" "voltageIn", resource true false "A" "currentIn",
      resource isOutputReadable true "V" "voltageOut", resource isOutputReadable true "A" "currentOut"] }

/-! ### Measuring at any time -/

def plainControls : List (String × Control (Desk Settings β)) :=
  [("voltageIn", .reading (Desk.askQuantity "MEAS:VOLT?" "V")),
    ("currentIn", .reading (Desk.askQuantity "MEAS:CURR?" "A")),
    ("voltageOut", .setting (lastSet "V" Settings.voltage) (put [] "SOUR:VOLT " "V" keepVoltage)),
    ("currentOut", .setting (lastSet "A" Settings.current) (put [] "SOUR:CURR " "A" keepCurrent))]

def plainInstrument (name : String) : Instrument Settings β where
  settings := {}
  panel _ := panel name plainControls false

/-! ### Measuring while the output is on -/

def outputWords : List String :=
  ["off", "on"]

def output : Use β Value := do
  let word := Setting.wordAt outputWords (← Desk.ask "OUTP?")
  match word with
  | .text s => Desk.remember fun m => { m with state := outputWords.idxOf s }
  | _ => pure ⟨⟩
  return word

def setOutput (v : Value) : Use β PUnit := do
  Setting.checkChoice "Invalid Output State" (outputWords.map .text) v
  let state := outputWords.idxOf v.display
  Desk.remember fun m => { m with state }
  Desk.write s!"OUTP {state}"

/-- One part of a reading, or a value that cannot be true while the output is off. -/
def reading (part : Nat) (units : String) : Use β Value := do
  let v ← if (← Desk.consult Settings.state) == 0 then pure (.int (-999))
    else do pure (Value.real (← (Value.text (← Desk.askPart "READ?" part)).toFloat))
  return .quantity (← Quantity.ofReading (.text units) v (.real 1.0))

def level (question units : String) (get : Settings → Option Value) : Use β Value := do
  if (← Desk.consult Settings.state) == 0 then lastSet units get else Desk.askQuantity question units

def switchedControls : List (String × Control (Desk Settings β)) :=
  [("voltageIn", .reading (reading 0 "V")), ("currentIn", .reading (reading 1 "A")),
    ("voltageOut", .setting (level "SOUR:VOLT?" "V" Settings.voltage)
      (put ["SOUR:FUNC VOLT"] "SOUR:VOLT:LEV " "V" keepVoltage)),
    ("currentOut", .setting (level "SOUR:CURR?" "A" Settings.current) (put [] "SOUR:CURR:LEV " "A" keepCurrent)),
    ("output", .setting output setOutput),
    ("currOutputState", .reading (Desk.consult fun m => .int m.state))]

/-- A source meter with an output that is on or off. Before anything is set, impossible levels are remembered. -/
def switchedInstrument (name : String) : Instrument Settings β where
  settings := { voltage := some (.int (-88)), current := some (.int (-88)) }
  connected := do
    let state ← Desk.askInt "OUTP?"
    Desk.remember fun m => { m with state }
  panel _ :=
    let p := panel name switchedControls true
    let output := (Panel.resourceOf switchedControls true true "output").2
    { p with resources := p.resources ++
        [("output", { output with allowed := some (.set (outputWords.map .text)) })] }

end LabBench.SourceMeter
