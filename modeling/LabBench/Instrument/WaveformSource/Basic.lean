import LabBench.Instrument.Setting
import LabBench.Instrument.WaveformSource.Code
import LabBench.Wire.Block
/-!
# Sources of waveforms

A source has a list of waveforms and four channels on which they are put out, each with two markers.
-/

namespace LabBench.WaveformSource

variable {β : Type} [Line β]

abbrev Use (β α : Type) := Act (Desk PUnit β) α

/-- A text without its first and its last character, which are quotes. -/
def unquoted (s : String) : String :=
  String.ofList (s.toList.drop 1).dropLast

def askText (message : String) : Use β String := do
  match ← Desk.ask message with
  | .text s => return s
  | _ => .fail (.plain .badType)

/-! ### The list of waveforms -/

def names : Use β (List String) := do
  let count ← Desk.askInt "wlist:size?"
  Desk.onLine Line.startSection
  (List.range count.toNat).forM fun i => discard (Desk.ask s!"wlist:name? {i}")
  match ← Desk.onLine Line.stopSection with
  | some answers => return answers.map unquoted
  | none => .fail (.plain .badType)

def isListed (name : Value) : Use β Bool := do
  name.isListed ((← names).map .text)

def fetch {K : Type} [Magnitude K] (name : String) : Use β (List K) :=
  Desk.busy s!"Getting waveform \"{name}\"" do
    match ← Desk.onLine (Line.askRaw s!"wlist:waveform:data? \"{name}\"") with
    | none => .fail (.plain .badType)
    | some block => return levels (← Packed.readWords (← Block.decode block.toList))

/-- Adds a waveform to the list. It is given by the codes of its points, which do not always exist, and it may have
markers. -/
def create (name : String) (codes : Outcome (List Int)) (markers : Value) : Use β PUnit :=
  Desk.busy s!"Creating waveform \"{name}\"" do
    let data ← codes
    Desk.write s!"wlist:waveform:new \"{name}\", {data.length}, integer"
    let data ← markAll markers data
    let block := String.ofList (Block.encode (← Packed.words data))
    Desk.write s!"wlist:waveform:data \"{name}\", {block}"

def delete (name : Value) : Use β PUnit := do
  let shown := name.display
  if !(← isListed name) then .refuse .badValue s!"No such waveform \"{shown}\""
  Desk.write s!"wlist:waveform:delete \"{shown}\""

/-! ### Channels -/

def amplitude (channel : Nat) : Use β Value := do
  let x ← Desk.askFloat s!"source{channel}:voltage?"
  return .quantity (← Quantity.ofReading (.text "V") (.real (x / 2.0)) (.real 1.0))

/-- Sets the amplitude of a channel. The source wants to know it from peak to peak. -/
def setAmplitude (channel : Nat) (v : Value) : Use β PUnit := do
  let x ← (← Quantity.toSetting "V" v (.real 1.0)).toFloat
  let shown := Number.scientific 6 'E' (2.0 * x)
  Desk.write s!"source{channel}:voltage {shown}"

def waveformName (channel : Nat) : Use β Value := do
  return .text (unquoted (← askText s!"source{channel}:waveform?"))

def setWaveformName (channel : Nat) (name : Value) : Use β PUnit := do
  let shown := name.display
  Desk.write s!"source{channel}:waveform \"{shown}\""

def isOutputOn (channel : Nat) : Use β Value := do
  return .flag ((← Desk.askInt s!"output{channel}:state?") != 0)

def setOutput (channel : Nat) (v : Value) : Use β PUnit := do
  let n ← v.toInt
  Desk.write s!"output{channel}:state {n}"

def minAmplitude : Value := .real 0.01

def maxAmplitude : Value := .real 2.25

/-- The points of a waveform in volts, relative to the amplitude of the channel, which is set to the largest of them.
A waveform without any voltage leaves the amplitude as it is. -/
def normalised (channel : Nat) (points : List Value) : Use β (List Value) := do
  let peak ← Value.largest (← (points.mapM Value.absolute : Outcome _))
  if ← peak.greater maxAmplitude then
    let shown := peak.display
    let limit := maxAmplitude.display
    .refuse .badValue s!"Amplitude {shown} V exceeds maximum of {limit} V"
  if !(← peak.greater (.int 0)) then return points
  let peak := if ← peak.less minAmplitude then minAmplitude else peak
  let points ← (points.mapM (·.quotient peak) : Outcome _)
  setAmplitude channel (.quantity (← peak.toQuantity (.text "V")))
  return points

/-- Puts a waveform in volts on a channel. It takes the place of the waveform with its name. -/
def setWaveform (channel : Nat) (points : List Value) (markers name : Value) : Use β PUnit := do
  let name := if name matches .none then .text s!"Channel {channel}" else name
  if ← isListed name then delete name
  let points ← normalised channel points
  create name.display (codes points) markers
  setWaveformName channel name

def channels : List Nat := [1, 2, 3, 4]

def clearChannels : Use β PUnit :=
  channels.forM fun channel => setWaveformName channel (.text "")

/-! ### The source -/

def runModes : List (String × String) :=
  [("cont", "continuous"), ("trig", "triggered"), ("gat", "gated"), ("seq", "sequence")]

def runModeChoices : List Value :=
  runModes.map fun (_, mode) => .text mode

def runMode : Use β Value := do
  match ← Desk.ask "awgcontrol:rmode?" with
  | .text s =>
    match runModes.find? fun (start, _) => start.toList.isPrefixOf (s.toList.map Char.toLower) with
    | some (_, mode) => return .text mode
    | none => return .none
  | _ => .fail (.plain .missingAttribute)

def setRunMode (v : Value) : Use β PUnit := do
  if !(← v.isMember runModeChoices) then
    let shown := v.display
    .refuse .badValue s!"Invalid run mode: {shown}"
  Desk.writeValue "awgcontrol:rmode " v

def setSamplingRate (v : Value) : Use β PUnit := do
  let x ← (← Quantity.toSetting "Hz" v (.real 1.0)).toFloat
  if x < 1e7 || 1.2e9 < x then
    let shown := Number.general 6 x
    .refuse .badValue s!"Sampling rate must be between 1e7 Hz and 1.2e9 Hz, not {shown} Hz"
  Desk.write ("source1:frequency " ++ Number.scientific 6 'E' x)

/-- Whether the source is running, which it is also while it waits for a trigger. -/
def isEnabled : Use β Value := do
  let state ← Desk.ask "awgcontrol:rstate?"
  match state with
  | .text "0" => return .flag false
  | .text "1" | .text "2" => return .flag true
  | _ =>
    let shown := state.display
    .refuse .badValue s!"State \"{shown}\" not implemented."

def setEnabled (v : Value) : Use β PUnit :=
  Desk.write (if v.truth then "awgcontrol:run" else "awgcontrol:stop")

def isWaiting : Use β Value := do
  (Value.text "1").equal (← Desk.ask "awgcontrol:rstate?") <&> .flag

/-! ### The panel -/

def markerPanel (channel number : Nat) : Panel (Desk PUnit β) :=
  let start := s!"source{channel}:marker{number}:"
  let controls : List (String × Control (Desk PUnit β)) :=
    [("delay", Setting.quantity (start ++ "delay") "s"), ("high", Setting.quantity (start ++ "voltage:high") "V"),
      ("low", Setting.quantity (start ++ "voltage:low") "V"), ("channel", .reading (return .int channel)),
      ("number", .reading (return .int number))]
  let resource (name units : String) : String × Resource (Desk PUnit β) :=
    (name, (Panel.resourceOf controls true true name).2.withUnits (some units))
  { name := "Marker", controls, resources := [resource "delay" "s", resource "high" "V", resource "low" "V"] }

def channelControls (channel : Nat) : List (String × Control (Desk PUnit β)) :=
  [("waveform_name",
      { read := some (waveformName channel), write := some (setWaveformName channel)
        erase := some (setWaveformName channel (.text "")) }),
    ("enabled", .setting (isOutputOn channel) (setOutput channel)),
    ("amplitude", .setting (amplitude channel) (setAmplitude channel)),
    ("channel", .reading (return .int channel)), ("min_amplitude", .reading (return minAmplitude)),
    ("max_amplitude", .reading (return maxAmplitude))]

def channelPanel (channel : Nat) : Panel (Desk PUnit β) where
  name := "Channel"
  controls := channelControls channel
  operations :=
    [("set_waveform", fun args => do
      match args with
      | points :: rest =>
        if 2 < rest.length then .fail (.plain .badType)
        setWaveform channel (← points.sequence) (rest.getD 0 .none) (rest.getD 1 .none)
        return .none
      | [] => .fail (.plain .badType))]
  resources :=
    let resource (name : String) : Resource (Desk PUnit β) :=
      (Panel.resourceOf (channelControls channel) true true name).2
    [("waveform_name", resource "waveform_name"), ("enabled", { resource "enabled" with converter := some .flag }),
      ("amplitude", (resource "amplitude").withUnits (some "V"))]
  parts := [1, 2].map fun number => (s!"marker{number}", markerPanel channel number)

def controls : List (String × Control (Desk PUnit β)) :=
  [("data_bits", .reading (return .int dataBits)),
    ("value_range", .reading (return .tuple [.int 0, .int maxCode])),
    ("sampling_rate", .setting (Desk.askQuantity "source1:frequency?" "Hz") setSamplingRate),
    ("run_mode", .setting runMode setRunMode),
    ("waveform_names", .reading do return .list ((← names).map .text)),
    ("enabled", .setting isEnabled setEnabled),
    ("waiting_for_trigger", .reading isWaiting)]

def operations : List (String × (List Value → Act (Desk PUnit β) Value)) :=
  [Instrument.resetOperation,
    ("get_waveform", fun
      | [name] => do return .list ((← fetch name.display).map .real)
      | _ => .fail (.plain .badType)),
    ("create_waveform", fun args => do
      match args with
      | [name, points] => create name.display (codes (← points.sequence)) .none
      | [name, points, markers] => create name.display (codes (← points.sequence)) markers
      | _ => .fail (.plain .badType)
      return .none),
    ("delete_waveform", fun args => do
      match args with
      | [name] => delete name
      | _ => .fail (.plain .badType)
      return .none),
    ("trigger", Panel.plainly (Desk.write "*trg")),
    ("clear_channels", Panel.plainly clearChannels)]

def instrument (name : String) : Instrument PUnit β where
  settings := ⟨⟩
  panel _ :=
    let resource (name : String) : Resource (Desk PUnit β) := (Panel.resourceOf controls true true name).2
    { name, controls, operations
      resources :=
        [("sampling_rate", (resource "sampling_rate").withUnits (some "Hz")),
          ("run_mode", { resource "run_mode" with allowed := some (.set runModeChoices) }),
          ("enabled", { resource "enabled" with converter := some .flag })]
      parts := channels.map fun channel => (s!"channel{channel}", channelPanel channel) }

end LabBench.WaveformSource
