import LabBench.Instrument.Basic
/-!
# Field supplies

A field supply drives one superconducting magnet. Its output field is that of the magnet while the heater is on; when
the heater is turned off, the magnet keeps its field. Before the heater is turned on again, the output goes back to the
field of the magnet.
-/

namespace LabBench.FieldSupply

structure Settings where
  staysHot : Value := .flag true
  heaterDelay : Value

variable {β : Type} [Line β]

abbrev Use (β α : Type) := Act (Desk Settings β) α

/-! ### Status -/

structure Status where
  system : Int
  limits : Int
  activity : Int
  remote : Int
  heater : Int
  mode : Int
  sweep : Int
  deriving Repr, DecidableEq

def Status.toList (s : Status) : List Int :=
  [s.system, s.limits, s.activity, s.remote, s.heater, s.mode, s.sweep]

def digitAt (cs : List Char) (position : Nat) : Outcome Int :=
  match cs[position]? with
  | some c => (Value.text c.toString).toInt
  | none => .error (.plain .outOfBounds)

def Status.ofAnswer : Value → Outcome Status
  | .text s => do
    let digit (position : Nat) : Outcome Int := digitAt s.toList position
    return { system := ← digit 1, limits := ← digit 2, activity := ← digit 4, remote := ← digit 6,
             heater := ← digit 8, mode := ← digit 10, sweep := ← digit 11 }
  | _ => .error (.plain .badType)

def status : Use β Status := do
  Status.ofAnswer (← Desk.ask "X")

def activities : List String :=
  ["hold", "to_set", "to_zero", "clamped"]

def activity : Use β String := do
  match activities[(← status).activity.toNat]? with
  | some name => return name
  | none => .fail (.plain .outOfBounds)

def positionOf (v : Value) : List Value → Outcome Nat
  | [] => .error (.plain .badValue)
  | w :: rest => do if ← w.equal v then return 0 else return (← positionOf v rest) + 1

def setActivity (v : Value) : Use β PUnit := do
  let n ← positionOf v (activities.map .text)
  Desk.write s!"$A{n}"

def isHeaterOn : Use β Bool := do
  return (← status).heater % 2 != 0

def setHeater (v : Value) : Use β PUnit :=
  Desk.busy (if v.truth then "Turning heater on" else "Turning heater off") do
    let n ← v.toInt
    Desk.write s!"$H{n}"
    Clocked.sleep (← Desk.consult Settings.heaterDelay)

/-! ### Fields -/

def askNumber (query : String) : Use β Value := do
  match ← Desk.ask query with
  | .text s => return .real (← (Value.text (String.ofList (s.toList.drop 1))).toFloat)
  | _ => .fail (.plain .badType)

def askField (query : String) : Use β (Quantity Float) := do
  Quantity.ofReading (.text "T") (← askNumber query) (.real 1.0)

def outputField : Use β (Quantity Float) :=
  askField "R7"

/-- The field that the magnet kept when the heater was turned off. -/
def persistentField : Use β (Quantity Float) :=
  askField "R18"

def setPoint : Use β (Quantity Float) :=
  askField "R8"

def setSetPoint (v : Value) : Use β PUnit :=
  Desk.writeQuantity "$J" "T" v

/-- The rate of change in a second. The supply gives it for a minute. -/
def sweepRate : Use β (Quantity Float) := do
  Quantity.ofReading (.text "T.s-1") (← askNumber "R9") (.real (1.0 / 60.0))

def setSweepRate (v : Value) : Use β PUnit := do
  let x ← (← Quantity.toSetting "T.s-1" v (.int 60)).toFloat
  if x ≤ 0.0 then
    let shown := Number.plain x
    .refuse .badValue s!"Sweep rate must be positive, not {shown}."
  Desk.write ("$T" ++ Number.fixed 6 x)

/-- How many times a sweep is asked about before the wait counts as endless. -/
def sweepRounds : Nat := 100000

def waitForSweep : Use β PUnit :=
  Act.repeatUntil (do
    if (← status).sweep == 0 then return some ⟨⟩
    Clocked.sleep (.real 0.1)
    return none) sweepRounds

def duration (change rate : Quantity Float) : Outcome Float := do
  let size ← change.abs
  if rate.magnitude == 0.0 then .error (.plain .zeroDivision)
  return size.magnitude / rate.magnitude

/-- Changes the output field. While the heater is on this takes its time. -/
def goTo (v : Value) : Use β PUnit := do
  if ← (Value.quantity (← outputField)).equal v then return
  Desk.busy ("Setting field to " ++ v.display) do
    let change ← (← v.minus (.quantity (← outputField))).asQuantity
    let time ← duration change (← sweepRate)
    setSetPoint v
    setActivity (.text "to_set")
    if ← isHeaterOn then Clocked.sleep (.real time)
    waitForSweep
    setActivity (.text "hold")

def expect (holds : Bool) (message : String) : Use β PUnit := do
  if !holds then .refuse .violated message

/-- Changes the field of the magnet. If the heater is off, the output goes to the field of the magnet first, and the
heater is turned on. -/
def setField (v : Value) : Use β PUnit := do
  let s ← status
  expect (s.system == 0) s!"System status: {s.system}"
  expect (s.limits == 0) s!"Limits: {s.limits}"
  expect (s.sweep == 0) s!"Mode sweep: {s.sweep}"
  if (← activity) != "hold" then
    let now ← activity
    .refuse .violated s!"Activity: {now}"
  if !(← isHeaterOn) then
    goTo (.quantity (← persistentField))
    setHeater (.flag true)
  goTo v
  if !(← Desk.consult Settings.staysHot).truth then setHeater (.flag false)

/-! ### The panel -/

def controls : List (String × Control (Desk Settings β)) :=
  let field (act : Use β (Quantity Float)) : Use β Value := do return .quantity (← act)
  [("device_status", .reading do return .list ((← status).toList.map .int)),
    ("activity", .setting (do return .text (← activity)) setActivity),
    ("heater_on", .setting (do return .flag (← isHeaterOn)) setHeater),
    ("heater_delay", .setting (Desk.consult Settings.heaterDelay) fun v =>
      Desk.remember fun s => { s with heaterDelay := v }),
    ("perma_hot", .setting (Desk.consult Settings.staysHot) fun v => Desk.remember fun s => { s with staysHot := v }),
    ("sweep_rate", .setting (field sweepRate) setSweepRate),
    ("persistent_field", .reading (field persistentField)),
    ("output_field", .reading (field outputField)),
    ("set_point", .setting (field setPoint) setSetPoint),
    ("field", .setting (field outputField) setField)]

def panel (name : String) (more : List (String × Control (Desk Settings β))) : Panel (Desk Settings β) :=
  let resource (name : String) : Resource (Desk Settings β) := (Panel.resourceOf controls true true name).2
  { name, controls := controls ++ more
    operations := [("set_field", fun
      | [v] => do
        goTo v
        return .none
      | _ => .fail (.plain .badType))]
    resources :=
      [("perma_hot", { resource "perma_hot" with converter := some .flag }),
        ("sweep_rate", (resource "sweep_rate").withUnits (some "T.s-1")),
        ("field", (resource "field").withUnits (some "T"))] }

/-- What is done first: the supply gets the right resolution, control and unit, and has to be on hold. -/
def connected : Use β PUnit := do
  Desk.write "$Q4"
  Desk.write "$C3"
  Desk.write "$M9"
  if (← status).activity == 4 then Desk.write "$A0"
  expect ((← status).activity == 0) "Not on hold."

def ownControls : List (String × Control (Desk Settings β)) :=
  [("idn", .reading (Desk.ask "V")), ("opc", .reading (return .int 1))]

def instrument (name : String) : Instrument Settings β where
  settings := { heaterDelay := .int 10 }
  panel _ := panel name ownControls
  endMark := some '\r'
  terminator := "\r"
  connected := connected

def quickInstrument (name : String) : Instrument Settings β where
  settings := { heaterDelay := .int 0 }
  panel _ := panel name []
  connected := connected

end LabBench.FieldSupply
