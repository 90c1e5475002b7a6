import LabBench.Instrument.WaveformSource.Code
import LabBench.Wire.Block
import LabBench.Wire.Simulated
/-!
# A simulated source of waveforms

The simulated source keeps a list of waveforms with their markers, and the settings of its channels.
-/

namespace LabBench.WaveformSource.Simulation

/-! ### The memory -/

structure Wave where
  name : String
  length : Int
  data : List Nat
  /-- The levels of the two markers, once there has been any data. -/
  markers : Option (List Nat × List Nat) := none

structure Marker where
  delay : Float := 0.0
  low : Float := 0.0
  high : Float := 1.0

structure Channel where
  isEnabled : Bool := false
  waveform : String := ""
  voltage : Float := 1.0
  markers : List Marker := [{}, {}]

structure Memory where
  runMode : Value := .text "continuous"
  runState : Value := .text "0"
  frequency : Float := 1.2e9
  waves : List Wave := [{ name := "\"predefined waveform\"", length := 5, data := [0, 1, 2, 3, 4] }]
  channels : List Channel := List.replicate 4 {}

def Wave.zero (name : String) (length : Int) : Wave :=
  { name, length, data := List.replicate length.toNat 0 }

/-- A waveform with new data. Data that is too long is ignored, and data that is too short leaves the rest as it is. -/
def Wave.filled (w : Wave) (words : List Nat) : Wave :=
  let data := words.map (· % Nat.pow 2 dataBits)
  let level (bit n : Nat) : Nat := if n.testBit bit then 1 else 0
  { w with
    data := if (data.length : Int) ≤ w.length then data ++ w.data.drop data.length else w.data
    markers := some (words.map (level dataBits), words.map (level (dataBits + 1))) }

def Wave.words (w : Wave) : Outcome (List Int) :=
  match w.markers with
  | none => .error (.plain .missingAttribute)
  | some (first, second) =>
    .ok (((w.data.zip first).zip second).map fun ((n, a), b) =>
      ((n + a * Nat.pow 2 dataBits + b * Nat.pow 2 (dataBits + 1) : Nat) : Int))

def find (name : String) : Act (Simulated Memory) Wave := do
  match (← Simulated.consult Memory.waves).find? (·.name == name) with
  | some w => return w
  | none => .fail (.plain .missingAttribute)

def changeFirst (name : String) (f : Wave → Wave) : List Wave → List Wave
  | [] => []
  | w :: ws => if w.name == name then f w :: ws else w :: changeFirst name f ws

def dropFirst (name : String) : List Wave → List Wave
  | [] => []
  | w :: ws => if w.name == name then ws else w :: dropFirst name ws

/-! ### The list of waveforms -/

def trimmed (cs : List Char) : String :=
  String.ofList (Text.trimRight Text.isBlank (cs.dropWhile Text.isBlank))

def commaParts (s : String) : List String :=
  (Text.splitAt ',' s.toList).map trimmed

def respondNew (argument : String) : Act (Simulated Memory) (Option Value) := do
  match commaParts argument with
  | [name, length, kind] =>
    let length ← (Value.text length).toInt
    if kind != "integer" then return none
    Simulated.remember fun m => { m with waves := m.waves ++ [.zero name length] }
    return some .none
  | _ => .fail (.plain .badValue)

def nameAndBlock (argument : String) : Outcome (String × List Char) :=
  let cs := argument.toList
  match cs.dropWhile (· != ',') with
  | [] => .error (.plain .badValue)
  | _ :: rest =>
    .ok (trimmed (cs.takeWhile (· != ',')), rest.dropWhile Text.isBlank)

def respondData (m : Message) : Act (Simulated Memory) (Option Value) := do
  if m.isQuery then
    let data ← (← find m.argument).words
    return some (.text (String.ofList (Block.encode (← Packed.words data))))
  let (name, block) ← nameAndBlock m.argument
  let words ← Packed.readWords (← Block.decode block)
  discard (find name)
  Simulated.remember fun s => { s with waves := changeFirst name (·.filled words) s.waves }
  return some .none

def respondList (m : Message) : Act (Simulated Memory) (Option Value) := do
  let waves ← Simulated.consult Memory.waves
  let topic ← m.word 1
  if topic == "size" && m.isQuery then return some (.int waves.length)
  if topic == "name" && m.isQuery then
    let name ← (Value.list (waves.map (.text ·.name))).part (.int (← (Value.text m.argument).toInt))
    let inside := String.ofList (name.display.toList.drop 1).dropLast
    return some (.text s!"\"{inside}\"")
  if topic != "waveform" then return none
  match ← m.word 2 with
  | "new" => respondNew m.argument
  | "data" => respondData m
  | "delete" =>
    if waves.all (·.name != m.argument) then .fail (.plain .badValue)
    Simulated.remember fun s => { s with waves := dropFirst m.argument s.waves }
    return some .none
  | _ => return none

/-! ### Channels and markers -/

def numberOf (word : String) : Outcome Nat := do
  match word.toList[6]? with
  | some c => return (← (Value.text c.toString).toInt).toNat
  | none => .error (.plain .outOfBounds)

/-- The position of the thing with a number in a list. There is nothing with number zero, which shows only in use. -/
def place (count number : Nat) : Outcome (Option Nat) :=
  if number == 0 then .ok none
  else if count < number then .error (.plain .outOfBounds)
  else .ok (some (number - 1))

def present {α : Type} : Option α → Outcome α
  | some a => .ok a
  | none => .error (.plain .missingAttribute)

def respondNumber (m : Message) (get : Act (Simulated Memory) Float) (put : Float → Act (Simulated Memory) PUnit) :
    Act (Simulated Memory) (Option Value) := do
  if m.isQuery then return some (.real (← get))
  put (← (Value.text m.argument).toFloat)
  return some .none

def channelAt (position : Option Nat) : Act (Simulated Memory) Channel := do
  let i ← present position
  present ((← Simulated.consult Memory.channels)[i]?)

def changeChannel (position : Option Nat) (f : Channel → Channel) : Act (Simulated Memory) PUnit := do
  let i ← present position
  Simulated.remember fun s => { s with channels := s.channels.modify i f }

def respondMarker (m : Message) (channel : Option Nat) (word : String) : Act (Simulated Memory) (Option Value) := do
  let number ← numberOf word
  let markers := (← channelAt channel).markers
  let position ← place markers.length number
  let setting (get : Marker → Float) (put : Float → Marker → Marker) : Act (Simulated Memory) (Option Value) :=
    respondNumber m (do return get (← present (position.bind (markers[·]?)))) fun x => do
      let i ← present position
      changeChannel channel fun c => { c with markers := c.markers.modify i (put x) }
  match ← m.word 2 with
  | "delay" => setting Marker.delay fun x marker => { marker with delay := x }
  | "voltage" =>
    match ← m.word 3 with
    | "high" => setting Marker.high fun x marker => { marker with high := x }
    | "low" => setting Marker.low fun x marker => { marker with low := x }
    | _ => return none
  | _ => return none

def respondSource (m : Message) : Act (Simulated Memory) (Option Value) := do
  let channel ← place (← Simulated.consult Memory.channels).length (← numberOf m.first)
  let word ← m.word 1
  match word with
  | "waveform" =>
    if m.isQuery then return some (.text (← channelAt channel).waveform)
    changeChannel channel fun c =>
      { c with waveform := m.argument, isEnabled := c.isEnabled && m.argument != "\"\"" }
    return some .none
  | "frequency" =>
    respondNumber m (Simulated.consult Memory.frequency) fun x => Simulated.remember fun s => { s with frequency := x }
  | "voltage" =>
    respondNumber m (do return (← channelAt channel).voltage) fun x =>
      changeChannel channel fun c => { c with voltage := x }
  | _ => if "marker".toList.isPrefixOf word.toList then respondMarker m channel word else return none

def respondOutput (m : Message) : Act (Simulated Memory) (Option Value) := do
  let channel ← place (← Simulated.consult Memory.channels).length (← numberOf m.first)
  if (← m.word 1) != "state" then return none
  if m.isQuery then return some (.int (if (← channelAt channel).isEnabled then 1 else 0))
  changeChannel channel fun c => { c with isEnabled := m.argument == "1" }
  return some .none

/-! ### Running -/

def runningIn (mode : Value) : Value :=
  match mode with
  | .text "triggered" | .text "gated" => .text "1"
  | _ => .text "2"

def isStopped : Value → Bool
  | .text s => s == "0"
  | _ => false

def respondControl (m : Message) : Act (Simulated Memory) (Option Value) := do
  match ← m.word 1, m.isQuery with
  | "run", _ =>
    Simulated.remember fun s => { s with runState := runningIn s.runMode }
    return some .none
  | "stop", _ =>
    Simulated.remember fun s => { s with runState := .text "0" }
    return some .none
  | "rstate", true => return some (← Simulated.consult Memory.runState)
  | "rmode", true => return some (← Simulated.consult Memory.runMode)
  | "rmode", false =>
    let mode := Value.text m.argument
    Simulated.remember fun s =>
      { s with runMode := mode, runState := if isStopped s.runState then s.runState else runningIn mode }
    return some .none
  | _, _ => return none

def respond (message : String) : Act (Simulated Memory) (Option Value) := do
  let m ← Message.ofText message
  match m.first with
  | "*trg" => return some .none
  | "awgcontrol" => respondControl m
  | "wlist" => respondList m
  | first =>
    if "source".toList.isPrefixOf first.toList then respondSource m
    else if "output".toList.isPrefixOf first.toList then respondOutput m
    else return none

/-! ### The memory as a table -/

def numberList (ns : List Nat) : Value :=
  .list (ns.map fun (n : Nat) => .int n)

def Wave.table (w : Wave) : Value :=
  .table ([(.text "name", .text w.name), (.text "length", .int w.length), (.text "data", numberList w.data),
      (.text "_data", numberList w.data)] ++
    match w.markers with
    | some (a, b) => [(.text "marker1", numberList a), (.text "marker2", numberList b)]
    | none => [])

def Marker.table (m : Marker) : Value :=
  .table [(.text "delay", .real m.delay), (.text "low", .real m.low), (.text "high", .real m.high)]

def Channel.table (c : Channel) : Value :=
  .table [(.text "enabled", .flag c.isEnabled), (.text "waveform_name", .text c.waveform),
    (.text "voltage", .real c.voltage), (.text "markers", .list (.none :: c.markers.map Marker.table))]

def Memory.table (m : Memory) : Value :=
  .table [(.text "run_mode", m.runMode), (.text "run_state", m.runState), (.text "frequency", .real m.frequency),
    (.text "wlist", .list (m.waves.map Wave.table)), (.text "channels", .list (.none :: m.channels.map Channel.table))]

def Memory.poke (path : List Value) (v : Value) (m : Memory) : Outcome Memory := do
  match path with
  | [.text "run_mode"] => return { m with runMode := v }
  | [.text "run_state"] => return { m with runState := v }
  | [.text "frequency"] => return { m with frequency := ← v.toFloat }
  | _ => .error (.plain .missingKey)

instance : Simulation Memory where
  name := "MockAWG5014B"
  blank := {}
  reset := Simulated.remember fun _ => {}
  respond := respond
  table := Memory.table
  tableDepth := 2
  poke := Memory.poke

end LabBench.WaveformSource.Simulation
