import LabBench.Instrument.Panel
import LabBench.Wire.Line
import LabBench.Quantity.Exchange
/-!
# Instruments

An instrument is used from a desk by its panel. When the connection to it has been made, it is set up.
-/

namespace LabBench

/-! ### Desks

A desk has an instrument at the other end of a line, and on this side what is remembered about it: settings of its own
and the list of what is going on.
-/

/-- Settings of type `κ` on this side of a line of type `β`. -/
structure Desk (κ β : Type) where
  settings : κ
  status : List String := []
  line : β

namespace Desk

variable {κ β α : Type}

def onLine (act : Act β α) : Act (Desk κ β) α :=
  Act.focus Desk.line (fun line d => { d with line }) act

def consult (f : κ → α) : Act (Desk κ β) α := do
  return f (← get).settings

def remember (f : κ → κ) : Act (Desk κ β) PUnit :=
  modify fun d => { d with settings := f d.settings }

/-- Something is listed while it is going on. -/
def busy (what : String) (act : Act (Desk κ β) α) : Act (Desk κ β) α := do
  modify fun d => { d with status := d.status ++ [what] }
  act.always (modify fun d => { d with status := d.status.dropLast })

instance [Clocked β] : Clocked (Desk κ β) where
  time d := Clocked.time d.line
  setTime t d := { d with line := Clocked.setTime t d.line }

variable [Line β]

def write (message : String) : Act (Desk κ β) PUnit :=
  onLine (Line.write message)

def writeValue (start : String) (v : Value) : Act (Desk κ β) PUnit :=
  write (start ++ v.display)

def ask (message : String) : Act (Desk κ β) Value := do
  return Value.ofAnswer (← onLine (Line.ask message))

def askFloat (message : String) : Act (Desk κ β) Float := do
  (← ask message).toFloat

def askInt (message : String) : Act (Desk κ β) Int := do
  (← ask message).toInt

/-- One part of the answer to a query, of those between commas. -/
def askPart (message : String) (position : Nat) : Act (Desk κ β) String := do
  match ← ask message with
  | .text s =>
    match (Text.splitAt ',' s.toList)[position]? with
    | some part => return String.ofList part
    | none => .fail (.plain .outOfBounds)
  | _ => .fail (.plain .missingAttribute)

def askQuantity (message units : String) : Act (Desk κ β) Value := do
  return .quantity (← Quantity.ofReading (.text units) (.real (← askFloat message)) (.real 1.0))

/-- Sends a message that ends with the number of a quantity in base units. -/
def writeQuantity (start units : String) (v : Value) : Act (Desk κ β) PUnit := do
  writeValue start (← Quantity.toSetting units v (.real 1.0))

end Desk

/-- An instrument, with settings of type `κ`, at the end of a line of type `β`. -/
structure Instrument (κ β : Type) where
  settings : κ
  panel : κ → Panel (Desk κ β)
  /-- The character that marks the end of an answer, for instruments that have one. -/
  endMark : Option Char := none
  /-- What the instrument wants at the end of every message. -/
  terminator : String := ""
  /-- What is done when the connection has been made. -/
  connected : Act (Desk κ β) PUnit := pure ⟨⟩

namespace Instrument

variable {κ β : Type} [Line β]

def lineControls (name : String) : List (String × Control (Desk κ β)) :=
  [("name", .reading (return .text name)),
    ("status", .reading do return .list ((← get).status.map .text)),
    ("idn", .reading do return .ofAnswer (← Desk.onLine Line.identify)),
    ("opc", .reading do
      Desk.onLine Line.settle
      return .none)]

def onText (act : String → Act (Desk κ β) Value) : List Value → Act (Desk κ β) Value
  | [.text s] => act s
  | _ => .fail (.plain .badType)

def onNothing (act : Act (Desk κ β) Value) : List Value → Act (Desk κ β) Value
  | [] => act
  | _ => .fail (.plain .badType)

def lineOperations : List (String × (List Value → Act (Desk κ β) Value)) :=
  [("write", onText fun m => do
      Desk.write m
      return .none),
    ("read", onNothing do return .text (← Desk.onLine Line.read)),
    ("read_raw", onNothing do return .ofAnswer (← Desk.onLine Line.readRaw)),
    ("ask", onText Desk.ask),
    ("ask_raw", onText fun m => do return .ofAnswer (← Desk.onLine (Line.askRaw m))),
    ("multi_command_start", Panel.plainly (Desk.onLine Line.startSection)),
    ("multi_command_stop", onNothing do
      match ← Desk.onLine Line.stopSection with
      | some answers => return .list (answers.map .text)
      | none => return .none),
    ("close", Panel.plainly (Desk.onLine Line.close))]

/-- The operation that brings an instrument to its default state. -/
def resetOperation : String × (List Value → Act (Desk κ β) Value) :=
  ("reset", Panel.plainly (Desk.write "*rst"))

end Instrument

/-! ### Adjusted voltages

What a source really puts out differs a little from what it is set to. A gain and an offset make up for that.
-/

/-- A voltage times a gain plus an offset. The result has to be within bounds. -/
def adjustVoltage (gain offset low high v : Value) : Outcome Value := do
  let shown := v.display
  match (do (← v.scaled gain).plus offset : Outcome Value) with
  | .error f =>
    if f.isTypeFault then .error (.because .badValue s!"Voltage must be a number. Given: {shown}") else .error f
  | .ok w =>
    if (← w.less low) || (← w.greater high) then
      let shownLow := low.display
      let shownHigh := high.display
      let result := w.display
      .error (.because .badValue
        s!"Adjusted voltage must be within [{shownLow}, {shownHigh}]. Given: {shown}; adjusted to: {result}.")
    return w

end LabBench
