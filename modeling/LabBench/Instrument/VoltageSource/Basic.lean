import LabBench.Instrument.Basic
import LabBench.Number.Fit
import LabBench.Number.Spacing
import LabBench.Wire.Hex
/-!
# Voltage sources

A voltage source has several outlets, each with a converter of its own. A converter is spoken to in a conversation in
which every reply is known in advance; any other reply means that the source is in an unknown state.

The voltage of an outlet is adjusted by a gain and an offset, which can be found by measuring what the outlet really
puts out.
-/

namespace LabBench.VoltageSource

/-! ### Converters of voltages

A converter turns a code, which is a whole number with a certain number of bits, into a voltage between two bounds. The
largest code stands for the smallest voltage, since all bits are flipped on their way to the converter.
-/

namespace Converter

/-! ### Codes -/

/-- How a number between two codes becomes one of them. -/
inductive Rounding where
  | down
  /-- The nearer one is taken, and the even one of two that are equally near. -/
  | nearest
  deriving Repr, DecidableEq

def largest (resolution : Nat) : Int :=
  Nat.pow 2 resolution - 1

/-- The position of a voltage, from zero at the upper bound to `top` at the lower bound. -/
def position {K : Type} [Magnitude K] (low high w top : K) : K :=
  (-w + high) / (high - low) * top

/-- The code of a voltage between two bounds, if it is a number. -/
def code {K : Type} [Magnitude K] (rounding : Rounding) (low high w top : K) : Option Int :=
  match rounding with
  | .down => Magnitude.truncate? (position low high w top)
  | .nearest => Magnitude.nearest? (position low high w top)

/-- A code with its bits moved to the left end of a word. A word that is too short has no left end. -/
def aligned (width resolution code : Int) : Outcome Int :=
  if width < resolution then .error (.plain .badValue)
  else .ok (code * Nat.pow 2 (width - resolution).toNat)

/-- A whole number in hexadecimal digits, with zeros up to the given width. A minus sign takes one place. -/
def hexOfInt (width : Nat) (n : Int) : String :=
  if n < 0 then "-" ++ Text.hex (width - 1) n.natAbs else Text.hex width n.toNat

/-! ### Frames -/

def flip (c : Char) : Char :=
  Char.ofNat (255 - c.toNat)

/-- How many bytes are missing until their number is a multiple of four. -/
def missing (count : Nat) : Nat :=
  (4 - count % 4) % 4

/-- The flipped bytes, with zeros after them until their number is a multiple of four. -/
def padded (data : List Char) : List Char :=
  data.map flip ++ List.replicate (missing data.length) (Char.ofNat 0)

def frame (message : String) : String :=
  Hex.grouped 2 (padded (Hex.encode message.toList))

end Converter

/-! ### Models -/

inductive Model where
  | sixteen
  | six
  | four
  deriving Repr, DecidableEq

namespace Model

def outlets : Model → Nat
  | sixteen => 16
  | six => 6
  | four => 4

def bounds (m : Model) (number : Nat) : Value × Value :=
  match m with
  | sixteen =>
    if number < 6 then (.int (-1), .int 1)
    else if number < 12 then (.real (-2.5), .real 2.5)
    else (.int (-10), .int 10)
  | six => if number < 4 then (.int (-5), .int 5) else (.int (-10), .int 10)
  | four => (.int (-10), .int 10)

def rounding : Model → Converter.Rounding
  | sixteen => .down
  | six | four => .nearest

def name : Model → String
  | sixteen => "VoltageSource"
  | six => "ch6VoltageSource"
  | four => "ch4VoltageSource"

end Model

/-! ### Outlets -/

structure Outlet where
  number : Nat
  gain : Value := .real 1.0
  offset : Value := .real 0.0
  resolution : Value := .int 20
  /-- Whether the settings are applied when the connection has been made. -/
  applies : Value := .flag true
  lowest : Value
  highest : Value
  adaptiveFiltering : Value := .flag true
  /-- Whether the output stays connected during a calibration. -/
  calibrateConnected : Value := .flag false
  fastSettling : Value := .flag true
  rate : Value := .int 100
  current : Option Value := none

namespace Outlet

def given (m : Model) (p : Outlet) (key v : Value) : Outcome Outlet :=
  match key, m with
  | .text "resolution", _ => .ok { p with resolution := v }
  | .text "apply_settings", _ => .ok { p with applies := v }
  | .text "adaptive_filtering", _ => .ok { p with adaptiveFiltering := v }
  | .text "calibrate_connected", _ => .ok { p with calibrateConnected := v }
  | .text "fast_settling", _ => .ok { p with fastSettling := v }
  | .text "freq", _ => .ok { p with rate := v }
  | .text "min_value", .four => .ok { p with lowest := v }
  | .text "max_value", .four => .ok { p with highest := v }
  | _, _ => .error (.plain .badType)

def make (m : Model) (settings : List (Value × Value)) (number : Nat) : Outcome Outlet := do
  let (lowest, highest) := m.bounds number
  let p : Outlet := { number, lowest, highest }
  let p ← settings.foldlM (fun p (key, v) => p.given m key v) p
  if !(← p.resolution.isListed [.int 16, .int 20]) then
    let shown := p.resolution.display
    .error (.because .badValue s!"Unsupported resolution: {shown}")
  return p

/-- A voltage after the adjustment by gain and offset, which has to be within the bounds. -/
def adjusted (p : Outlet) (v : Value) : Outcome Value :=
  adjustVoltage p.gain p.offset p.lowest p.highest v

/-- The number of bits of a code, as far as it makes sense. -/
def bits (p : Outlet) : Outcome Int :=
  match p.resolution.asInt? with
  | some n => .ok n
  | none => .error (.plain .badType)

def code (p : Outlet) (rounding : Converter.Rounding) (w : Value) : Outcome Int := do
  let bits ← p.bits
  if bits < 0 then .error (.plain .badValue)
  let low ← p.lowest.toFloat
  let high ← p.highest.toFloat
  if high - low == 0.0 then .error (.plain .zeroDivision)
  let w ← w.toFloat
  let top ← Value.floatOfInt (Converter.largest bits.toNat)
  match Converter.code rounding low high w top with
  | some n => return n
  | none => Value.wholePart (Converter.position low high w top)

end Outlet

abbrev Settings := List Outlet

variable {β : Type} [Line β]

abbrev Use (β α : Type) := Act (Desk Settings β) α

def outlet (number : Nat) : Use β Outlet := do
  match (← Desk.consult id)[number]? with
  | some p => return p
  | none => .fail (.plain .outOfBounds)

def change (number : Nat) (f : Outlet → Outlet) : Use β PUnit :=
  Desk.remember fun outlets => outlets.modify number f

/-! ### Conversations -/

/-- Sends bytes, which are given in hexadecimal digits, and returns the reply in the same way. The reply has to be the
expected one, if there is any. -/
def askEncoded (message : String) (expected : Option String := none) : Use β String := do
  Desk.write (String.ofList (Hex.encode message.toList))
  match ← Desk.onLine Line.readRaw with
  | none => .fail (.plain .badType)
  | some raw =>
    let observed := Hex.grouped 2 raw.toList
    match expected with
    | none => return observed
    | some reply =>
      if observed != Hex.grouped 2 (Hex.encode reply.toList) then
        .refuse .violated
          s!"Device in unknown state; expect general failure. Asserted: {reply}; observed: {observed}."
      return observed

def exchange (message reply : String) : Use β PUnit :=
  discard (askEncoded message (some reply))

def standardReply : String :=
  "0000 000c 0008 0100 0000 0002"

def stateQuestion : String :=
  "0000 000c 0008 0100 0000 0000"

def Model.stateReply : Model → String
  | sixteen | six => "0000 001c 0018 0100 0000 0002 0200 1000 0100 c001 0100 c000 0002 0000"
  | four => "0000 001c 0018 0100 0000 0002 0200 1000 0110 c000 0100 c000 0002 0000"

def fourDigits (v : Value) : Outcome String :=
  match v, v.asInt? with
  | _, some n => .ok (Converter.hexOfInt 4 n)
  | .real _, none | .text _, none => .error (.plain .badValue)
  | _, none => .error (.plain .badType)

def choose (m : Model) (p : Outlet) : Use β PUnit := do
  let number := Text.hex 2 p.number
  if m == .sixteen then
    exchange stateQuestion m.stateReply
    exchange "0000 0010 000c 0113 0280 0000 0000 ff01" standardReply
    exchange "0000 0010 000c 0112 0280 0000 00ff ff00" standardReply
    exchange s!"0000 0010 000c 0111 0280 0000 00ff {number} 00" standardReply
    exchange stateQuestion m.stateReply
    let rate ← fourDigits p.rate
    exchange s!"0000 0014 0010 0110 0260 0000 0000 {rate} 0700 0000" standardReply
  else
    exchange stateQuestion m.stateReply
    let rate ← fourDigits p.rate
    exchange s!"0000 0014 0010 0110 0260 0000 00 {number} {rate} 0700 0000" standardReply

/-- Sends a message of at most four bytes to the converter of an outlet. The reply has as many bits set as were sent. -/
def converse (m : Model) (number : Nat) (message : String) : Use β PUnit := do
  let size := Hex.length message.toList
  if 4 < size then .refuse .badValue s!"Message is longer than 4 bytes: {message}"
  choose m (← outlet number)
  let count := Text.hex 2 size
  let sent := Converter.frame message
  let reply := Converter.frame (String.join (List.replicate size "00"))
  exchange s!"0000 0014 0010 0111 0260 0000 0003 {count} 00 {sent}"
    s!"0000 0014 0010 0100 0000 0002 {count} 00 0000 {reply}"

/-! ### Settings and voltages -/

/-- A number moved to the left by so many bits. Only whole numbers can be moved. -/
def shifted (v : Value) (count : Nat) : Outcome Nat :=
  match v.asInt? with
  | some n => .ok (n.toNat <<< count)
  | none => .error (.plain .badType)

def commandRegister (p : Outlet) (calibrates : Bool) : Outcome Nat := do
  let filtering ← shifted (.flag !p.adaptiveFiltering.truth) 15
  let connected ← shifted p.calibrateConnected 14
  let settling ← shifted (.flag !p.fastSettling.truth) 4
  return 0x20a0 ||| filtering ||| connected ||| settling ||| (if calibrates then 1 else 0)

/-- Applies the settings of an outlet to its converter, which may calibrate itself at the same time. -/
def applySettings (m : Model) (number : Nat) (calibrates : Bool := false) : Use β PUnit := do
  let register ← commandRegister (← outlet number) calibrates
  converse m number ("24 " ++ Text.hex 4 register)

/-- The code of a voltage, which becomes the current one. -/
def calculate (m : Model) (number : Nat) (v : Value) : Use β Int := do
  let p ← outlet number
  let w ← p.adjusted v
  change number fun p => { p with current := some w }
  p.code m.rounding w

def codeMessage (m : Model) (bits code : Int) : Outcome String := do
  match m with
  | .sixteen => return "40 " ++ Converter.hexOfInt 6 (← Converter.aligned 24 bits code)
  | .six | .four => return "40 " ++ Converter.hexOfInt 5 (← Converter.aligned 20 bits code) ++ " f"

def setVoltage (m : Model) (number : Nat) (v : Value) : Use β PUnit := do
  let x ← Quantity.toSetting "V" v (.real 1.0)
  let code ← calculate m number x
  converse m number (← codeMessage m (← (← outlet number).bits) code)

def voltage (number : Nat) : Use β Value := do
  match (← outlet number).current with
  | some w => return .quantity (← Quantity.ofReading (.text "V") w (.real 1.0))
  | none => .fail (.plain .missingAttribute)

/-! ### Tuning -/

def trialCount (low high : Value) : Outcome Nat := do
  if ← high.less low then
    let shownLow := low.display
    let shownHigh := high.display
    .error (.because .badValue s!"{shownLow} > {shownHigh}")
  return if ← high.equal low then 1 else 21

/-- Sets voltages one after the other and measures each of them. -/
def tryOut (m : Model) (number : Nat) (measure : Nat → Use β Value) : Nat → List Float → Use β (List Float)
  | _, [] => return []
  | k, x :: rest => do
    setVoltage m number (.quantity (← (Value.real x).toQuantity (.text "V")))
    Clocked.sleep (.real 0.2)
    let y := (← (← measure k).asQuantity).magnitude
    return y :: (← tryOut m number measure (k + 1) rest)

/-- Finds gain and offset of an outlet by measuring what it puts out without any adjustment. At the end the outlet is
set to a last voltage, with the new gain and offset or with the old ones. -/
def tune (m : Model) (number : Nat) (measure : Nat → Use β Value) (low high : Value) (final : Value)
    (isKept : Bool) : Use β (Float × Float) :=
  Desk.busy s!"Autotuning port {number}" do
    let before ← outlet number
    let low := if low matches .none then before.lowest else low
    let high := if high matches .none then before.highest else high
    change number fun p => { p with gain := .int 1, offset := .int 0 }
    let count ← trialCount low high
    let wanted := Number.spaced (← low.toFloat) (← high.toFloat) count
    let measured ← tryOut m number measure 0 wanted
    let (gain, offset) ← Number.fitLine measured wanted
    change number fun p =>
      if isKept then { p with gain := .real gain, offset := .real offset }
      else { p with gain := before.gain, offset := before.offset }
    setVoltage m number (.quantity (← final.toQuantity (.text "V")))
    return (gain, offset)

/-! ### The panel -/

def field (number : Nat) (get : Outlet → Value) (put : Value → Outlet → Outlet) : Control (Desk Settings β) :=
  .setting (do return get (← outlet number)) fun v => change number (put v)

def outletControls (m : Model) (number : Nat) : List (String × Control (Desk Settings β)) :=
  [("voltage", .setting (voltage number) (setVoltage m number)),
    ("gain", field number Outlet.gain fun v p => { p with gain := v }),
    ("offset", field number Outlet.offset fun v p => { p with offset := v }),
    ("resolution", field number Outlet.resolution fun v p => { p with resolution := v }),
    ("do_apply_settings", field number Outlet.applies fun v p => { p with applies := v }),
    ("min_value", field number Outlet.lowest fun v p => { p with lowest := v }),
    ("max_value", field number Outlet.highest fun v p => { p with highest := v }),
    ("adaptive_filtering", field number Outlet.adaptiveFiltering fun v p => { p with adaptiveFiltering := v }),
    ("calibrate_connected", field number Outlet.calibrateConnected fun v p => { p with calibrateConnected := v }),
    ("fast_settling", field number Outlet.fastSettling fun v p => { p with fastSettling := v }),
    ("freq", field number Outlet.rate fun v p => { p with rate := v }),
    ("num", .reading (return .int number)),
    ("calibration_delay", .reading (return .int 2))]

def portOperations (m : Model) (number : Nat) : List (String × (List Value → Act (Desk Settings β) Value)) :=
  [("calculate_voltage", fun
      | [v] => do return .int (← calculate m number v)
      | _ => .fail (.plain .badType)),
    ("write_to_dac", fun
      | [.text message] => do
        converse m number message
        return .none
      | _ => .fail (.plain .badType)),
    ("apply_settings", fun
      | [] => do
        applySettings m number
        return .none
      | [calibrates] => do
        applySettings m number calibrates.truth
        return .none
      | _ => .fail (.plain .badType)),
    ("format_for_dac", fun
      | [.text message] => return .text (Converter.frame message)
      | _ => .fail (.plain .badType))]

/-- The tuning of an outlet: the bounds, the last voltage and whether the result is kept. -/
def tuning (m : Model) (number : Nat) (measure : Nat → Use β Value) (args : List Value) : Use β Value := do
  if 4 < args.length then .fail (.plain .badType)
  let (gain, offset) ← tune m number measure (args.getD 0 .none) (args.getD 1 .none) (args.getD 2 (.int 0))
    (args.getD 3 (.flag true)).truth
  return .tuple [.real gain, .real offset]

def outletPanel (m : Model) (number : Nat) : Panel (Desk Settings β) where
  name := "Port"
  controls := outletControls m number
  operations := portOperations m number
  measuring := [("autotune", tuning m number)]
  resources :=
    let (name, voltage) := Panel.resourceOf (outletControls m number) true true "voltage"
    [(name, voltage.withUnits (some "V"))]

def panel (m : Model) (name : String) : Panel (Desk Settings β) where
  name
  operations :=
    [("ask_encoded", fun
      | [.text message] | [.text message, .none] => do return .text (← askEncoded message)
      | [.text message, .text reply] => do return .text (← askEncoded message (some reply))
      | _ => .fail (.plain .badType))]
  parts := (List.range m.outlets).map fun number =>
    let digits := toString number
    ((if number < 10 then "port0" else "port") ++ digits, outletPanel m number)

/-- What is done first: the settings are applied to all outlets. -/
def connected (m : Model) : Use β PUnit :=
  (List.range m.outlets).forM fun number => do
    if (← outlet number).applies.truth then applySettings m number

def instrument (m : Model) (name : String) (settings : Value := .none) : Outcome (Instrument Settings β) := do
  let entries ← match settings with
    | .none => pure []
    | .table entries => pure entries
    | _ => .error (.plain .badType)
  return {
    settings := ← (List.range m.outlets).mapM (Outlet.make m entries)
    panel := fun _ => panel m name
    connected := connected m }

end LabBench.VoltageSource
