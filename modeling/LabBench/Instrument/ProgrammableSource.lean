import LabBench.Instrument.Setting
import LabBench.Wire.Session
/-!
# Programmable voltage sources

A voltage source with one output, which is set but never asked. The limit of the current and the dwell time are kept on
this side of the line.
-/

namespace LabBench.ProgrammableSource

structure Settings where
  gain : Value := .real 1.0
  offset : Value := .real 0.0
  lowest : Value := .int (-101)
  highest : Value := .int 101
  shortestDwell : Value := .real 0.003
  longestDwell : Value := .real 0.9999
  /-- The limit of the current in milliamperes, once it has been asked for or set. -/
  limit : Option Value := none
  limitCode : Option Int := none
  /-- The dwell time in seconds, once it has been asked for or set. -/
  dwell : Option Value := none

abbrev Use (α : Type) := Act (Desk Settings Session) α

def setVoltage (v : Value) : Use PUnit := do
  let x ← Quantity.toSetting "V" v (.real 1.0)
  let s ← Desk.consult id
  let w ← adjustVoltage s.gain s.offset s.lowest s.highest x
  let shown := Number.scientific 4 'E' (← w.toFloat)
  Desk.write s!"V{shown}X"

def limits : List Value :=
  [.int 2, .int 20, .int 100]

/-- The limit of the current. The smallest one is the default. -/
def limit : Use Value := do
  match ← Desk.consult Settings.limit with
  | some v => return v
  | none =>
    Desk.remember fun s => { s with limit := some (.int 2), limitCode := some 0 }
    return .int 2

def setLimit (v : Value) : Use PUnit := do
  Setting.checkChoice "Invalid I Limit value" limits v
  let matching ← limits.zipIdx.filterM fun (l, _) => (v.equal l : Outcome Bool)
  let code := matching.head?.map fun (_, k) => (k : Int)
  Desk.remember fun s => { s with limit := some v, limitCode := code }

def dwell : Use Value := do
  match ← Desk.consult Settings.dwell with
  | some v => return v
  | none =>
    Desk.remember fun s => { s with dwell := some (.real 0.01) }
    return .real 0.01

def setDwell (v : Value) : Use PUnit := do
  let s ← Desk.consult id
  if (← v.less s.shortestDwell) || (← v.greater s.longestDwell) then
    let low := s.shortestDwell.display
    let high := s.longestDwell.display
    let shown := v.display
    .refuse .badValue s!"Dwell time must be within [{low}, {high}]. Given: {shown}."
  Desk.remember fun s => { s with dwell := some v }

def known (get : Settings → Option Value) : Control (Desk Settings Session) :=
  .reading do
    match ← Desk.consult get with
    | some v => return v
    | none => .fail (.plain .missingAttribute)

def controls : List (String × Control (Desk Settings Session)) :=
  [("voltage", { write := some setVoltage }),
    ("I_limit", .setting limit setLimit),
    ("dwell_time", .setting dwell setDwell),
    ("I_limit_code", known fun s => s.limitCode.map .int),
    ("currentILimit", known Settings.limit),
    ("dwelltime", known Settings.dwell),
    ("gain", Setting.kept Settings.gain fun v s => { s with gain := v }),
    ("offset", Setting.kept Settings.offset fun v s => { s with offset := v }),
    ("vMin", Setting.kept Settings.lowest fun v s => { s with lowest := v }),
    ("vMax", Setting.kept Settings.highest fun v s => { s with highest := v }),
    ("dwellMin", Setting.kept Settings.shortestDwell fun v s => { s with shortestDwell := v }),
    ("dwellMax", Setting.kept Settings.longestDwell fun v s => { s with longestDwell := v }),
    ("default_Ilim", Setting.constant (.real 2.0)),
    ("default_dwelltime", Setting.constant (.real 0.01))]

def adjust : List Value → Use Value
  | [v] => do
    let s ← Desk.consult id
    adjustVoltage s.gain s.offset s.lowest s.highest v
  | _ => .fail (.plain .badType)

/-- The instrument. The bus is cleared, and the source is made ready. -/
def instrument (name : String) (settings : Settings) : Instrument Settings Session where
  settings
  connected := Desk.onLine do
    Session.clear
    Session.transmit "K0X"
    Session.transmit "F1X"
  panel _ :=
    let resource (isReadable : Bool) (name : String) : Resource (Desk Settings Session) :=
      (Panel.resourceOf controls isReadable true name).2
    { name, controls
      operations := [Instrument.resetOperation, ("calculate_voltage", adjust),
        ("set_voltage", fun
          | [v] => do
            setVoltage v
            return .none
          | _ => .fail (.plain .badType))]
      resources :=
        [("voltage", (resource false "voltage").withUnits (some "V")),
          ("I_limit", { resource true "I_limit" with converter := some .float, allowed := some (.set limits) }),
          ("dwell_time", { resource true "dwell_time" with converter := some .float })] }

end LabBench.ProgrammableSource
