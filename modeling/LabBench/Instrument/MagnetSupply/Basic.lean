import LabBench.Instrument.Basic
import LabBench.Number.Spacing
/-!
# Power supplies for superconducting magnets

A supply has two channels, one for each magnet. A magnet keeps its field by itself while the switch in it is cold; while
the heater of the switch is on, the current of the supply flows through the magnet. The heater must not be turned on
unless the two currents are the same.

The instrument acts on one channel at a time, so that a command for a channel may have to select it first. The number of
the channel that was selected last is remembered on this side. Whoever listens on the line is told which channel is
spoken for.
-/

namespace LabBench.MagnetSupply

/-! ### Settings -/

inductive Channel where
  | one
  | two
  deriving Repr, DecidableEq

def Channel.number : Channel → Int
  | one => 1
  | two => 2

def Channel.all : List Channel :=
  [.one, .two]

structure ChannelSettings where
  /-- The unit of currents, by which the field of the magnet is meant as well. -/
  units : String := "kG"
  /-- What is done with the heaters and the supply before and after a change of the field. -/
  energySaving : Value := .int 0
  outputTarget : Option Float := none
  magnetTarget : Option Float := none
  heaterWait : String := "on"
  sweepPause : Float := 1.0

structure Settings where
  selected : Value := .none
  one : ChannelSettings := {}
  two : ChannelSettings := {}

def Settings.channel (s : Settings) : Channel → ChannelSettings
  | .one => s.one
  | .two => s.two

def Settings.change (s : Settings) (c : Channel) (f : ChannelSettings → ChannelSettings) : Settings :=
  match c with
  | .one => { s with one := f s.one }
  | .two => { s with two := f s.two }

/-- A line that hears for which channel the next message is meant. -/
class Attentive (β : Type) where
  hear : Channel → ChannelSettings → Act β PUnit

/-- Most lines do not listen. -/
instance (priority := low) {β : Type} : Attentive β where
  hear _ _ := pure ⟨⟩

variable {β : Type} [Line β] [Attentive β]

abbrev Use (β α : Type) := Act (Desk Settings β) α

def consult {α : Type} (c : Channel) (f : ChannelSettings → α) : Use β α :=
  Desk.consult fun s => f (s.channel c)

def remember (c : Channel) (f : ChannelSettings → ChannelSettings) : Use β PUnit :=
  Desk.remember fun s => s.change c f

/-! ### Channels -/

def checkChoice (what : String) (choices : List Value) (v : Value) : Outcome PUnit := do
  if !(← v.isMember choices) then
    let shown := v.display
    .error (.because .badValue s!"Invalid {what}: {shown}")

def channelChoices : List Value :=
  [.int 1, .int 2]

def setChannel (v : Value) : Use β PUnit := do
  checkChoice "channel value" channelChoices v
  Desk.writeValue "chan " v
  Desk.remember fun s => { s with selected := v }

/-- Whether a channel was selected last. -/
def isSelected (c : Channel) : Value → Bool
  | .int n => n == c.number
  | _ => false

def select (c : Channel) : Use β PUnit := do
  if !isSelected c (← Desk.consult Settings.selected) then setChannel (.int c.number)

def announce (c : Channel) : Use β PUnit := do
  let settings ← consult c id
  Desk.onLine (Attentive.hear c settings)

def question (c : Channel) (query : String) : Use β Value := do
  announce c
  Desk.ask query

def order (c : Channel) (command argument : String) : Use β PUnit := do
  announce c
  Desk.write (command ++ " " ++ argument)

def askFor (c : Channel) (query : String) : Use β Value := do
  select c
  question c query

def currentOf (units : String) (answer : Value) : Outcome (Quantity Float) :=
  match answer with
  | .text s =>
    match Quantity.splitNumeral? s with
    | some (n, _) => Quantity.ofReading (.text units) (.real n.toFloat) (.real 1.0)
    | none => .error (.because .badValue s)
  | _ => .error (.plain .badType)

def askCurrent (c : Channel) (query : String) : Use β (Quantity Float) := do
  let units ← consult c (·.units)
  currentOf units (← askFor c query)

def writeCurrent (c : Channel) (command : String) (v : Value) : Use β PUnit := do
  let x ← Quantity.toSettingIn (← consult c (·.units)) v (.real 1.0)
  select c
  order c command x.display

def inUnits (c : Channel) (x : Float) : Use β (Quantity Float) := do
  Quantity.make x (← consult c (·.units))

/-! ### Direct controls -/

def magnetCurrent (c : Channel) : Use β (Quantity Float) :=
  askCurrent c "imag?"

def outputCurrent (c : Channel) : Use β (Quantity Float) :=
  askCurrent c "iout?"

def highLimit (c : Channel) : Use β (Quantity Float) :=
  askCurrent c "ulim?"

def lowLimit (c : Channel) : Use β (Quantity Float) :=
  askCurrent c "llim?"

def setHighLimit (c : Channel) (v : Value) : Use β PUnit :=
  writeCurrent c "ulim" v

def setLowLimit (c : Channel) (v : Value) : Use β PUnit :=
  writeCurrent c "llim" v

def sweepChoices : List Value :=
  [.text "up", .text "zero", .text "down", .text "pause"]

def sweep (c : Channel) : Use β String := do
  return (← askFor c "sweep?").display

def setSweep (c : Channel) (v : Value) : Use β PUnit := do
  select c
  checkChoice "sweep value" sweepChoices v
  order c "sweep" v.display

def rate (c : Channel) (range : Nat) : Use β Value := do
  let x ← (← askFor c s!"rate? {range}").toFloat
  return .quantity (← Quantity.ofReading (.text "A.s-1") (.real x) (.real 1.0))

def setRate (c : Channel) (range : Nat) (v : Value) : Use β PUnit := do
  let x ← Quantity.toSetting "A.s-1" v (.real 1.0)
  select c
  let shown := x.display
  order c "rate" s!"{range} {shown}"

def unitChoices : List Value :=
  [.text "kG", .text "A"]

/-- Sets the unit of a channel that is selected. The supply means a thousand gauss when it says gauss. -/
def putUnits (c : Channel) (v : Value) : Use β PUnit := do
  checkChoice "units" unitChoices v
  let units := v.display
  order c "units" (if units == "kG" then "G" else "A")
  remember c fun s => { s with units }

def setUnits (c : Channel) (v : Value) : Use β PUnit := do
  select c
  putUnits c v

def unitOf : Value → Outcome String
  | .text "G" => .ok "kG"
  | .text "A" => .ok "A"
  | _ => .error (.plain .missingKey)

/-- The unit that the supply uses. If it is not the one of the channel, the supply is corrected. -/
def units (c : Channel) : Use β String := do
  select c
  setChannel (.int c.number)
  let units ← unitOf (← question c "units?")
  let own ← consult c (·.units)
  if own != units then setUnits c (.text own)
  return units

/-! ### Heaters -/

def heaterChoices : List Value :=
  [.text "on", .text "off"]

/-- How many times a heater that is changing is asked about before the wait counts as endless. -/
@[irreducible] def patientRounds : Nat := 100000

/-- Whether a heater is on. One that is still changing is waited for. -/
def heater (c : Channel) : Use β String := do
  select c
  let settled : Use β (Option Float) := do
    let x ← (← question c "pshtr?").toFloat
    if x == 2.0 then
      Clocked.sleep (.real 0.5)
      return none
    return some x
  let x ← Act.repeatUntil settled patientRounds
  if x == 0.0 then return "off"
  if x == 1.0 then return "on"
  .fail (.plain .missingKey)

def isSynced (c : Channel) : Use β Bool := do
  let magnet ← magnetCurrent c
  magnet.equal (← outputCurrent c)

/-- Switches a heater of a channel that is selected. It is not turned on unless the currents are the same. -/
def switchHeater (c : Channel) (v : Value) : Use β PUnit := do
  let synced ← isSynced c
  if !synced && (← v.equal (.text "on")) then
    let number := c.number
    .refuse .badValue s!"Currents are not synced in channel {number}."
  order c "pshtr" v.display

def setHeater (c : Channel) (v : Value) : Use β PUnit := do
  select c
  checkChoice "heater switch value" heaterChoices v
  switchHeater c v
  if (← consult c (·.heaterWait)) == "on" then Clocked.sleep (.int 1)

/-! ### Sweeps -/

def sweepEnd? (c : Channel) : String → Option (Use β (Quantity Float))
  | "Sweeping up" => some (highLimit c)
  | "Sweeping to zero" => some (inUnits c 0.0)
  | "Sweeping down" => some (lowLimit c)
  | _ => none

/-- How many times a sweep is asked about before the wait counts as endless. -/
@[irreducible] def sweepRounds : Nat := 100000

def waitFor (c : Channel) (goal : Use β (Quantity Float)) : Nat → String → Use β PUnit
  | 0, _ => .fail (.plain .endless)
  | limit + 1, state => do
    if state == "Pause" then return
    let output ← outputCurrent c
    if ← output.equal (← goal) then return
    Clocked.sleep (.real 0.1)
    waitFor c goal limit (← sweep c)

def waitOnce (c : Channel) : Use β PUnit := do
  let state ← sweep c
  match sweepEnd? c state with
  | some goal => waitFor c goal sweepRounds state
  | none => return

/-- Waits until the sweep is over, and once more after a pause, since the supply needs some time to settle. -/
def waitForSweep (c : Channel) : Use β PUnit := do
  waitOnce c
  let pause ← consult c (·.sweepPause)
  if pause != 0.0 then Clocked.sleep (.real pause)
  waitOnce c

/-- Starts a sweep of the supply to a current, by way of the limit on its side. The other limit is moved out of the
way. -/
def startSweep (c : Channel) (x : Float) : Use β PUnit := do
  if x == 0.0 then setSweep c (.text "zero")
  else if (← outputCurrent c).magnitude < x then
    let goal ← inUnits c x
    if ← (← lowLimit c).greater goal then setLowLimit c (.quantity goal)
    setHighLimit c (.quantity goal)
    setSweep c (.text "up")
  else if x < (← outputCurrent c).magnitude then
    let goal ← inUnits c x
    if ← (← highLimit c).less goal then setHighLimit c (.quantity goal)
    setLowLimit c (.quantity goal)
    setSweep c (.text "down")

def numberOf (c : Channel) (v : Value) : Use β Float := do
  (← Quantity.toSettingIn (← consult c (·.units)) v (.real 1.0)).toFloat

def rounded (c : Channel) (x : Float) : Use β Float := do
  if (← consult c (·.units)) == "kG" then return Number.roundScaled 3 x
  return x

def sweepTo (c : Channel) (v : Value) : Use β PUnit := do
  let x ← numberOf c v
  startSweep c x
  let target ← rounded c x
  remember c fun s => { s with outputTarget := some target }

def setOutput (c : Channel) (v : Value) : Use β PUnit := do
  startSweep c (← numberOf c v)
  waitForSweep c

def startSync (c : Channel) : Use β PUnit := do
  sweepTo c (.quantity (← magnetCurrent c))

def setSync (c : Channel) (v : Value) : Use β PUnit := do
  if ← v.equal (.text "start") then startSync c
  else if ← v.equal (.text "stop") then setSweep c (.text "pause")

def sweepMagnetTo (c : Channel) (v : Value) : Use β PUnit := do
  let x ← numberOf c v
  if (← heater c) != "on" then setHeater c (.text "on")
  sweepTo c (.quantity (← inUnits c x))
  let target ← rounded c x
  remember c fun s => { s with magnetTarget := some target }

def setBothHeaters (v : Value) : Use β PUnit := do
  checkChoice "heater switch value" heaterChoices v
  Channel.all.forM fun c => setHeater c v

def isSaving (c : Channel) (n : Int) : Use β Bool := do
  (← consult c (·.energySaving)).equal (.int n)

def moveOutput (c : Channel) (x : Float) : Use β PUnit := do
  setOutput c (.quantity (← inUnits c x))

def heated (c : Channel) (switch : Value → Use β PUnit) (x : Float) : Use β PUnit := do
  switch (.text "on")
  moveOutput c x
  switch (.text "off")

/-- Does something between a sweep to the current of the magnet and a sweep to zero. -/
def synced (c : Channel) (act : Use β PUnit) : Use β PUnit := do
  startSync c
  waitForSweep c
  act
  setSweep c (.text "zero")

/-- Changes the field of a magnet. How energy is saved decides which heaters are turned on meanwhile, and whether the
supply goes to the field of the magnet first and to zero afterwards. -/
def setMagnet (c : Channel) (v : Value) : Use β PUnit := do
  let x ← numberOf c v
  if ← isSaving c 4 then synced c (heated c (setHeater c) x)
  else if ← isSaving c 3 then synced c (heated c setBothHeaters x)
  else if ← isSaving c 2 then heated c (setHeater c) x
  else if ← isSaving c 1 then heated c setBothHeaters x
  else if ← isSaving c 0 then
    if (← heater c) != "on" then
      let number := c.number
      .refuse .badValue s!"Heater switch is not on in channel {number}."
    moveOutput c x

/-! ### Both channels -/

def common (read : Channel → Use β String) : Use β Value := do
  let one ← read .one
  let two ← read .two
  return .text (if one == two then one else "unequal")

def setBothUnits (v : Value) : Use β PUnit := do
  checkChoice "units" unitChoices v
  Channel.all.forM fun c => setUnits c v

def resetChannel (c : Channel) : Use β PUnit := do
  let zero := Value.quantity (← (Quantity.parse "0 kG" : Outcome (Quantity Float)))
  remember c fun s => { s with energySaving := .int 0 }
  startSync c
  waitForSweep c
  setHeater c (.text "on")
  setMagnet c zero
  setLowLimit c zero
  setHighLimit c zero
  sweepMagnetTo c zero
  sweepTo c zero
  setHeater c (.text "off")

def target (c : Channel) (f : ChannelSettings → Option Float) : Use β Value := do
  match ← consult c f with
  | some x => return .quantity (← inUnits c x)
  | none => .fail (.plain .badType)

/-- Everything that a reset is to bring about in a channel, with the value that it should have. -/
def defaults (c : Channel) : Use β (List (Value × Value)) := do
  let zero := Value.quantity (← (Quantity.parse "0 kG" : Outcome (Quantity Float)))
  let saving ← consult c (·.energySaving)
  let synced ← isSynced c
  let units ← common units
  let output ← outputCurrent c
  let magnet ← magnetCurrent c
  let heater ← heater c
  let high ← highLimit c
  let low ← lowLimit c
  let magnetTarget ← target c (·.magnetTarget)
  let outputTarget ← target c (·.outputTarget)
  return [(saving, .int 0), (.text (if synced then "synced" else "not synced"), .text "synced"), (units, .text "kG"),
    (.quantity output, zero), (.quantity magnet, zero), (.text heater, .text "off"), (.quantity high, zero),
    (.quantity low, zero), (magnetTarget, zero), (outputTarget, zero)]

def checkReset (c : Channel) : Use β PUnit := do
  (← defaults c).forM fun (v, expected) => do
    if !(← v.equal expected) then
      let shown := v.display
      let wanted := expected.display
      .refuse .badValue s!"A resource with value {shown} did not set to its default value of {wanted}"

def reset : Use β PUnit := do
  Desk.write "*rst"
  setBothUnits (.text "kG")
  Channel.all.forM resetChannel
  Channel.all.forM checkReset

/-! ### The panel -/

def channelControls (c : Channel) : List (String × Control (Desk Settings β)) :=
  let current (act : Use β (Quantity Float)) : Use β Value := do return .quantity (← act)
  let copied (act : Use β (Quantity Float)) : Use β Value := do return .quantity (← inUnits c (← (← act).inUnits))
  let textOf (act : Use β String) : Use β Value := do return .text (← act)
  [("magnet_current", .reading (current (magnetCurrent c))),
    ("power_supply_current", .reading (current (outputCurrent c))),
    ("persistent_switch_heater", .setting (textOf (heater c)) (setHeater c)),
    ("high_limit", .setting (current (highLimit c)) (setHighLimit c)),
    ("low_limit", .setting (current (lowLimit c)) (setLowLimit c)),
    ("sweep", .setting (textOf (sweep c)) (setSweep c))] ++
  (List.range 5).map (fun range => (s!"rate_{range}", Control.setting (rate c range) (setRate c range))) ++
  [("virt_sync_currents", .setting (do return .text (if ← isSynced c then "synced" else "not synced")) (setSync c)),
    ("virt_imag", .setting (copied (magnetCurrent c)) (setMagnet c)),
    ("virt_iout", .setting (copied (outputCurrent c)) (setOutput c)),
    ("virt_imag_sweep_to", .setting (target c (·.magnetTarget)) (sweepMagnetTo c)),
    ("virt_iout_sweep_to", .setting (target c (·.outputTarget)) (sweepTo c)),
    ("virt_energysave_mode", .setting (consult c (·.energySaving)) fun v =>
      remember c fun s => { s with energySaving := v }),
    ("virt_heater_wait_mode", .setting (do return .text (← consult c (·.heaterWait))) fun v => do
      checkChoice "heater wait mode value" heaterChoices v
      remember c fun s => { s with heaterWait := v.display }),
    ("virt_sweep_sleep", .setting (do return .quantity (← Quantity.make (← consult c (·.sweepPause)) "s")) fun v => do
      let x ← (← Quantity.toSetting "s" v (.real 1.0)).toFloat
      remember c fun s => { s with sweepPause := x }),
    ("units", .setting (textOf (units c)) (setUnits c))]

/-- The resources of a channel. Those that are currents have the unit of the channel. -/
def channelResources (c : Channel) (units : String) : List (String × Resource (Desk Settings β)) :=
  let resource (isWritable : Bool) (name : String) : Resource (Desk Settings β) :=
    (Panel.resourceOf (channelControls c) true isWritable name).2
  let current (isWritable : Bool) (name : String) : String × Resource (Desk Settings β) :=
    (name, (resource isWritable name).withUnits (some units))
  let choice (name : String) (values : List Value) (converter : Option Converter := none) :
      String × Resource (Desk Settings β) :=
    (name, { resource true name with converter, allowed := some (.set values) })
  ["magnet_current", "power_supply_current"].map (current false) ++
  ["high_limit", "low_limit", "virt_imag", "virt_iout", "virt_imag_sweep_to",
      "virt_iout_sweep_to"].map (current true) ++
  (List.range 5).map (fun range => (s!"rate_{range}", (resource true s!"rate_{range}").withUnits (some "A.s-1"))) ++
  [("virt_sweep_sleep", (resource true "virt_sweep_sleep").withUnits (some "s")),
    choice "persistent_switch_heater" heaterChoices, choice "sweep" sweepChoices,
    choice "virt_sync_currents" [.text "start", .text "stop"],
    choice "virt_energysave_mode" [.int 0, .int 1, .int 2, .int 3, .int 4] (some .int),
    choice "virt_heater_wait_mode" heaterChoices, choice "units" unitChoices]

def channelPanel (c : Channel) (settings : Settings) : Panel (Desk Settings β) where
  name := "Channel"
  controls := channelControls c
  resources := channelResources c (settings.channel c).units
  operations :=
    [("_wait_for_sweep", Panel.plainly (waitForSweep c)),
      ("ranges", fun args => do
        -- a range cannot be asked for: its number is not accepted, and it is missing without it
        if args.isEmpty then select c
        .fail (.plain .badType))]

def controls : List (String × Control (Desk Settings β)) :=
  [("active_channel", .setting (do return .real (← Desk.askFloat "chan?")) setChannel),
    ("active_channel_store", .reading (Desk.consult Settings.selected)),
    ("virt_both_persistent_switch_heaters", .setting (common heater) setBothHeaters),
    ("virt_both_units", .setting (common units) setBothUnits)]

def panel (name : String) (settings : Settings) : Panel (Desk Settings β) :=
  let choice (name : String) (values : List Value) (converter : Option Converter := none) :
      String × Resource (Desk Settings β) :=
    (name, { (Panel.resourceOf controls true true name).2 with converter, allowed := some (.set values) })
  { name, controls
    operations := [("reset", Panel.plainly reset)]
    resources := [choice "active_channel" channelChoices (some .int),
      choice "virt_both_persistent_switch_heaters" heaterChoices, choice "virt_both_units" unitChoices]
    parts := [("channel1", channelPanel .one settings), ("channel2", channelPanel .two settings)] }

/-- What is done with a channel when the connection has been made: its targets are where it is. -/
def channelConnected (c : Channel) : Use β PUnit := do
  setUnits c (.text (← consult c (·.units)))
  let output ← (← outputCurrent c).inUnits
  remember c fun s => { s with outputTarget := some output }
  let magnet ← (← magnetCurrent c).inUnits
  remember c fun s => { s with magnetTarget := some magnet }

def instrument (name : String) : Instrument Settings β where
  settings := {}
  panel := panel name
  connected := do
    Channel.all.forM channelConnected
    setChannel (.int 1)

end LabBench.MagnetSupply
