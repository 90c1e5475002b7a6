import LabBench.Wire.Block
import LabBench.Wire.Packed
import LabBench.Wire.Simulated
/-!
# A simulated oscilloscope

The simulated oscilloscope shows a noisy sine on every channel, with as many periods as the number of the channel.
-/

namespace LabBench.Oscilloscope.Simulation

structure Channel where
  isEnabled : Bool := false
  scale : Float := 0.5
  offset : Float := 0.0

structure Memory where
  ending : String := "runstop"
  isAcquiring : Bool := true
  /-- The mode of acquisition, once it has been set. -/
  mode : Option String := none
  isFast : Bool := false
  frameCount : Int := 1
  sampleRate : Float := 1e10
  scale : Float := 1e-8
  bytes : Int := 2
  start : Int := 1
  stop : Int := 1000
  source : Int := 1
  frameStart : Int := 1
  frameStop : Int := 1
  channels : List Channel := { isEnabled := true } :: List.replicate 3 {}

def Memory.length (m : Memory) : Outcome Int :=
  Value.wholePart (10.0 * m.sampleRate * m.scale)

def respondSetting {α : Type} (m : Message) (read : Memory → Value) (convert : Value → Outcome α)
    (put : α → Memory → Memory) : Act (Simulated Memory) (Option Value) := do
  if m.isQuery then return some (read (← Simulated.consult id))
  let x ← convert (.text m.argument)
  Simulated.remember (put x)
  return some .none

def respondQuery (m : Message) (read : Memory → Outcome Value) : Act (Simulated Memory) (Option Value) := do
  if m.isQuery then return some (← read (← Simulated.consult id)) else return none

def flagNumber (b : Bool) : Value :=
  .int (if b then 1 else 0)

/-! ### Acquisition -/

def respondAcquire (m : Message) : Act (Simulated Memory) (Option Value) := do
  match ← m.word 1 with
  | "stopafter" =>
    respondSetting m (fun s => .text s.ending) (fun v => .ok v.display) fun x s => { s with ending := x }
  | "state" =>
    respondSetting m (fun s => flagNumber s.isAcquiring) Value.toInt fun x s => { s with isAcquiring := x != 0 }
  | "mode" =>
    if m.isQuery && (← Simulated.consult Memory.mode).isNone then .fail (.plain .missingKey)
    respondSetting m (fun s => .ofAnswer s.mode) (fun v => .ok v.display) fun x s => { s with mode := some x }
  | "numacq" => respondQuery m fun s => .ok (.int s.frameCount)
  | _ => return none

def respondHorizontal (m : Message) : Act (Simulated Memory) (Option Value) := do
  match ← m.word 1 with
  | "mode" =>
    match ← m.word 2 with
    | "samplerate" =>
      respondSetting m (fun s => .real s.sampleRate) Value.toFloat fun x s => { s with sampleRate := x }
    | "scale" => respondSetting m (fun s => .real s.scale) Value.toFloat fun x s => { s with scale := x }
    | "recordlength" => respondQuery m fun s => do return .int (← s.length)
    | _ => return none
  | "divisions" => respondQuery m fun _ => .ok (.int 10)
  | "fastframe" =>
    if (← m.word 2) == "state" then
      respondSetting m (fun s => flagNumber s.isFast) Value.toInt fun x s => { s with isFast := x != 0 }
    else return none
  | _ => return none

def channelNumber : Value → Outcome Int
  | .text s =>
    match s.toList[2]? with
    | some c => (Value.text c.toString).toInt
    | none => .error (.plain .outOfBounds)
  | _ => .error (.plain .badType)

def respondTransfer (m : Message) : Act (Simulated Memory) (Option Value) := do
  match ← m.word 1 with
  | "start" => respondSetting m (fun s => .int s.start) Value.toInt fun x s => { s with start := x }
  | "stop" => respondSetting m (fun s => .int s.stop) Value.toInt fun x s => { s with stop := x }
  | "source" => respondSetting m (fun s => .text s!"ch{s.source}") channelNumber fun x s => { s with source := x }
  | "framestart" => respondSetting m (fun s => .int s.frameStart) Value.toInt fun x s => { s with frameStart := x }
  | "framestop" => respondSetting m (fun s => .int s.frameStop) Value.toInt fun x s => { s with frameStop := x }
  | _ => return none

/-! ### Curves -/

def pi : Float := 3.141592653589793

def curve (source : Int) (count : Nat) : Act (Simulated Memory) (List Char) :=
  (List.range count).mapM fun x => do
    let sine := Float.sin (Float.ofInt (2 * source) * pi * Float.ofNat x / Float.ofNat count)
    let noise ← Simulated.roll (-7) 7
    let level ← Value.wholePart (120.0 * sine + Float.ofInt noise)
    return Packed.byte (level % 256).toNat

def respondCurve : Act (Simulated Memory) (Option Value) := do
  let s ← Simulated.consult id
  let count := (← s.length) * s.bytes
  if count < 0 then .fail (.plain .packing)
  return some (.text (String.ofList (Block.encode (← curve s.source count.toNat))))

/-! ### Channels -/

/-- The channel with a number. There is nothing with number zero. Numbers are single digits. -/
def channelAt (channels : List Channel) (number : Int) : Outcome Channel :=
  if number == 0 then .error (.plain .missingAttribute)
  else
    match channels[number.toNat - 1]? with
    | some c => .ok c
    | none => .error (.plain .outOfBounds)

def respondChannel {α : Type} (m : Message) (number : Int) (read : Channel → Value) (convert : Value → Outcome α)
    (put : α → Channel → Channel) : Act (Simulated Memory) (Option Value) := do
  if m.isQuery then return some (read (← channelAt (← Simulated.consult Memory.channels) number))
  let x ← convert (.text m.argument)
  discard (channelAt (← Simulated.consult Memory.channels) number : Outcome Channel)
  Simulated.remember fun s => { s with channels := s.channels.modify (number.toNat - 1) (put x) }
  return some .none

def isChannel (s : String) : Bool :=
  "ch".toList.isPrefixOf s.toList

def respond (message : String) : Act (Simulated Memory) (Option Value) := do
  let m ← Message.ofText message
  match m.first with
  | "autoset" => return if m.argument == "execute" then some .none else none
  | "acquire" => respondAcquire m
  | "horizontal" => respondHorizontal m
  | "data" => respondTransfer m
  | "wfmoutpre" =>
    if (← m.word 1) == "byt_nr" then
      respondSetting m (fun s => .int s.bytes) Value.toInt fun x s => { s with bytes := x }
    else return none
  | "select" =>
    let word ← m.word 1
    if !isChannel word then return none
    respondChannel m (← channelNumber (.text word)) (fun c => flagNumber c.isEnabled) (fun v => .ok v.display)
      fun x c => { c with isEnabled := x == "on" }
  | first =>
    if first == "curve" && m.isQuery then respondCurve
    else if isChannel first then
      let number ← channelNumber (.text first)
      match ← m.word 1 with
      | "scale" => respondChannel m number (fun c => .real c.scale) Value.toFloat fun x c => { c with scale := x }
      | "offset" => respondChannel m number (fun c => .real c.offset) Value.toFloat fun x c => { c with offset := x }
      | _ => return none
    else return none

/-! ### The memory as a table -/

def Channel.table (c : Channel) : Value :=
  .table [(.text "enabled", .flag c.isEnabled), (.text "scale", .real c.scale), (.text "offset", .real c.offset)]

def Memory.table (m : Memory) : Value :=
  .table ([(.text "stopafter", .text m.ending), (.text "acquire_state", .flag m.isAcquiring),
      (.text "fastframe", .flag m.isFast), (.text "fastframe_sum", .text "none"),
      (.text "fastframe_count", .int m.frameCount), (.text "samplerate", .real m.sampleRate),
      (.text "horizontal_scale", .real m.scale), (.text "waveform_bytes", .int m.bytes),
      (.text "data_start", .int m.start), (.text "data_stop", .int m.stop), (.text "data_source", .int m.source),
      (.text "data_framestart", .int m.frameStart), (.text "data_framestop", .int m.frameStop),
      (.text "channels", .list (.none :: m.channels.map Channel.table))] ++
    (m.mode.map fun s => (Value.text "acquire_mode", Value.text s)).toList)

instance : Simulation Memory where
  name := "MockDPO7104"
  blank := {}
  reset := Simulated.remember fun m => { ({} : Memory) with mode := m.mode }
  respond := respond
  table := Memory.table
  tableDepth := 2

end LabBench.Oscilloscope.Simulation
