import LabBench.Wire.Line
/-!
# Sessions with instruments

A real instrument is reached over the network, the parallel bus or a serial bus. What happens at the other end is given
as a script: the answers, and the failures of the bus.

Messages can be collected in a section, which is then sent as one message. Its queries are answered together.
-/

namespace LabBench

inductive Bus where
  | network
  | parallel
  | usb
  deriving Repr, DecidableEq

def Bus.name : Bus → String
  | network => "pyvisa"
  | parallel => "lgpib"
  | usb => "pyvisa_usb"

/-- The address of an instrument, with the parameters by which the bus knows it. -/
structure Address where
  bus : Bus
  parameters : List (String × Value)

namespace Address

def ofHost (host : Value) : Address :=
  let shown := host.display
  ⟨.network, [("resource_name", .text s!"tcpip::{shown}::instr")]⟩

def ofPad (board pad sad : Value) : Address :=
  ⟨.parallel, [("name", board), ("pad", pad), ("sad", sad)]⟩

def ofUsb (resource : Value) : Address :=
  ⟨.usb, [("resource_name", resource)]⟩

/-- The address from what is given of it: the network comes first and the serial bus last. -/
def choose (host board pad sad usb : Value) : Outcome Address :=
  match host, pad, usb with
  | .none, .none, .none => .error (.because .badValue "Either an IP, GPIB, or USB address must be specified.")
  | .none, .none, usb => .ok (ofUsb usb)
  | .none, pad, _ => .ok (ofPad board pad sad)
  | host, _, _ => .ok (ofHost host)

def text (a : Address) : String :=
  (Value.table (a.parameters.map fun (k, v) => (.text k, v))).quoted

end Address

/-! ### Scripts -/

inductive Happening where
  | answer (text : String)
  /-- The instrument keeps silent until the driver has waited for some seconds, and may do so already when it is
  written to. -/
  | lapse (onWrite : Bool) (seconds : Float)
  /-- The bus fails, when the instrument is read or already when it is written to. -/
  | failure (onWrite : Bool)
  deriving Repr

/-- How long a driver usually waits, in seconds. -/
def usualPatience : Float := 4.0

/-- A silence of the usual length. -/
def Happening.silence (onWrite : Bool) : Happening :=
  .lapse onWrite usualPatience

inductive Deed where
  | opened (parameters : List (String × Value))
  | wrote (message : String)
  | cleared
  | closed
  | configured (option : String) (value : Int)
  | received (message : String)

/-- What happens at the other end of a session, and what has been done to it. -/
structure Script where
  clock : Float := 0.0
  /-- What will happen. After that the instrument is silent. -/
  happenings : List Happening := []
  /-- How long the driver waits after all that happens, in seconds. -/
  patience : Float := usualPatience
  isRefusing : Bool := false
  deeds : List Deed := []

/-! ### Sessions -/

structure Session where
  address : Address
  script : Script
  /-- What the instrument wants at the end of every message. -/
  terminator : String := ""
  isOpen : Bool := false
  /-- The messages of the section, if one was started. -/
  collected : Option (List String) := none
  expected : Nat := 0

namespace Session

instance : Clocked Session where
  time s := s.script.clock
  setTime t s := { s with script := { s.script with clock := t } }

def bus (s : Session) : Bus :=
  s.address.bus

def note (d : Deed) : Act Session PUnit :=
  modify fun s => { s with script := { s.script with deeds := s.script.deeds ++ [d] } }

/-- The fault after a silence. It counts as a timeout only where the session is prepared for one; elsewhere it is a
failure of the bus. -/
def silence (isPrepared : Bool) (seconds : Float) : Act Session Fault := do
  Clocked.advance seconds
  if isPrepared then return .because .timeout "timeout"
  return .plain .visa

def failure (s : Session) : Fault :=
  .plain (if s.bus == .parallel then .gpib else .visa)

def checkOpen : Act Session PUnit := do
  if !(← get).isOpen then .fail (.plain .missingAttribute)

def goOn : Act Session PUnit :=
  modify fun s => { s with script := { s.script with happenings := s.script.happenings.tail } }

def transmit (message : String) : Act Session PUnit := do
  checkOpen
  let s ← get
  match s.script.happenings.head? with
  | some (.lapse true seconds) =>
    goOn
    .fail (← silence (s.bus != .usb) seconds)
  | some (.failure true) =>
    goOn
    .fail s.failure
  | _ => note (.wrote message)

def clear : Act Session PUnit := do
  checkOpen
  note .cleared

def write (message : String) : Act Session PUnit := do
  let message := message ++ (← get).terminator
  match (← get).collected with
  | some messages => modify fun s => { s with collected := some (messages ++ [message]) }
  | none => transmit message

def readRaw : Act Session String := do
  checkOpen
  let s ← get
  goOn
  match s.script.happenings.head? with
  | some (.answer text) => return text
  | some (.failure _) => .fail s.failure
  | some (.lapse _ seconds) => .fail (← silence (s.bus == .parallel) seconds)
  | none => .fail (← silence (s.bus == .parallel) s.script.patience)

/-- The answer to a query. Within a section it comes later. -/
def ask (message : String) : Act Session (Option String) := do
  write message
  if (← get).collected.isNone then return some (← Line.stripped (some (← readRaw)))
  modify fun s => { s with expected := s.expected + 1 }
  return none

def startSection : Act Session PUnit := do
  let bus := (← get).bus
  if bus == .usb then
    let name := bus.name
    .refuse .unsupported s!"Unsupported driver: \"{name}\"."
  modify fun s => { s with collected := some [], expected := 0 }

/-- A message within a section starts with a colon, unless it is a common command. -/
def sectionPart (message : String) : Outcome String :=
  match message.toList with
  | [] => .error (.plain .outOfBounds)
  | c :: _ => .ok (if c == '*' then message else ":" ++ message)

/-- The messages of a section are sent as one, outside of the section, and the answers are taken apart. -/
def sendSection (messages : List String) : Act Session (List String) := do
  modify fun s => { s with collected := none }
  let message := ";".intercalate (← Act.lift (messages.mapM sectionPart))
  let count := (← get).expected
  if count == 0 then
    write message
    return []
  match ← ask message with
  | some answer => return (Text.splitAtMost ';' (count - 1) answer.toList).map String.ofList
  | none => return []

def stopSection : Act Session (List String) := do
  match (← get).collected with
  | none => .refuse .badValue "Multi-command message not started."
  | some [] => return []
  | some messages => sendSection messages

def identify : Act Session (Option String) := do
  if (← get).bus == .usb then return none
  ask "*idn?"

def longestWait : Float := 15.0

/-- Asks once whether the instrument is done. Silence is accepted up to a time. -/
def isSettled (last : Float) : Act Session (Option PUnit) := do
  if (← get).bus == .usb then return none
  match ← (ask "*opc?").attempt with
  | .ok _ => return some ⟨⟩
  | .error f =>
    if f.kind == .timeout && !(last < (← Clocked.now)) then return none
    .fail f

/-- Asks again and again until the instrument is done, but not more often than some number of times. -/
def settleWithin (rounds : Nat) : Act Session PUnit := do
  Act.repeatUntil (isSettled ((← Clocked.now) + longestWait)) rounds

/-- How many times an instrument is asked before the wait counts as endless. -/
def patientRounds : Nat := 100000

def settle : Act Session PUnit :=
  settleWithin patientRounds

/-- Hangs up, which the parallel bus does not need. -/
def close : Act Session PUnit := do
  if (← get).bus != .parallel then
    checkOpen
    note .closed

instance : Line Session where
  write := write
  readRaw := do return some (← readRaw)
  ask := ask
  startSection := startSection
  stopSection := do return some (← stopSection)
  identify := identify
  settle := settle
  close := close

/-! ### Opening -/

def opened : Act Session PUnit := do
  let s ← get
  if s.script.isRefusing then
    let place := s.address.text
    .refuse .notFound s!"Could not open device at \"{place}\"."
  note (.opened s.address.parameters)
  modify fun s => { s with isOpen := true }

/-- On the parallel bus, the end of an answer may be marked by a character. -/
def configure (endMark : Option Char) : Act Session PUnit := do
  match endMark with
  | some c =>
    note (.configured "IbcEOSchar" c.toNat)
    note (.configured "IbcEOSrd" 1)
  | none => return

end Session

end LabBench
