import LabBench.Instrument.Setting
import LabBench.Wire.Block
import LabBench.Number.Spacing
import LabBench.Wire.Packed
/-!
# Oscilloscopes

An oscilloscope acquires curves on four channels. In the fast mode it acquires many frames and can average them.
-/

namespace LabBench.Oscilloscope

/-! ### Curves of an oscilloscope

A curve is received in parts, since only a limited number of samples is sent at a time. The samples are whole numbers,
which stand for voltages between two bounds.
-/

/-! ### Windows -/

section Windows

variable {K : Type} [Magnitude K]

/-- The smallest whole number that is not less than a number. -/
def ceil? (x : K) : Option Int :=
  (Magnitude.truncate? x).map fun n => if Magnitude.less (Magnitude.ofInt n) x then n + 1 else n

/-- How many windows it takes to receive so many samples with a limit to the size of a window. -/
def windowCount (limit : K) (length : Int) : Nat :=
  ((ceil? (Magnitude.ofInt length / limit)).getD 0).toNat

/-- The first and the last sample of a window. Samples are counted from one on, windows from zero on. -/
def window (limit : K) (i : Nat) : Int × Int :=
  (((Magnitude.truncate? (Magnitude.ofInt i * limit)).getD 0) + 1,
    (Magnitude.truncate? (Magnitude.ofInt (i + 1) * limit)).getD 0)

end Windows

/-! ### Samples -/

/-- The samples in the bytes of a curve. A sample can have one or two bytes. A negative number of bytes counts from the
end of the possible ones. -/
def samples (size length : Int) (data : List Char) : Outcome (List Int) :=
  if size == 1 || size == -2 then Packed.readSigned false length data
  else if size == 2 || size == -1 then Packed.readSigned true length data
  else if size == 0 || size == -3 then .error (.plain .packing)
  else .error (.plain .outOfBounds)

def halfRange (size : Int) : Value :=
  let bits := 8 * size - 1
  if bits < 0 then .real (Float.pow 2.0 (Float.ofInt bits)) else .int (Nat.pow 2 bits.toNat)

/-- The smallest and the largest value of a sample of so many bytes. -/
def valueRange (size : Int) : Outcome (Value × Value) := do
  let half := halfRange size
  return (← half.scaled (.int (-1)), ← half.minus (.int 1))

/-- The voltage of a sample, where the values between two bounds stand for voltages between two bounds. -/
def voltage (values : Value × Value) (low high : Float) (sample : Value) : Outcome Float := do
  let position ← (← sample.minus values.1).toFloat
  let span ← (← values.2.minus values.1).toFloat
  if span == 0.0 then .error (.plain .zeroDivision)
  return (high - low) * position / span + low

/-- Samples as pairs of time and voltage. The times are evenly spaced. -/
def timed (values : Value × Value) (low high duration : Float) (samples : List Value) :
    Outcome (List (Float × Float)) :=
  ((Number.spaced 0.0 duration samples.length).zip samples).mapM fun (time, sample) => do
    return (time, ← voltage values low high sample)

variable {β : Type} [Line β]

abbrev Use (β α : Type) := Act (Desk PUnit β) α

/-! ### Settings -/

def whole (message : String) : Use β Value := do
  return .int (← Desk.askInt message)

/-- The word that an answer stands for, where words are known by their first letters. -/
def wordOf (words : List (String × String)) (message : String) : Use β Value := do
  match ← Desk.ask message with
  | .text s =>
    match words.find? fun (start, _) => start.toList.isPrefixOf (s.toList.map Char.toLower) with
    | some (_, word) => return .text word
    | none => return .none
  | _ => .fail (.plain .missingAttribute)

def endings : List (String × String) :=
  [("runst", "runstop"), ("seq", "sequence")]

def setEnding (v : Value) : Use β PUnit := do
  if !(← v.isListed (endings.map fun (_, word) => .text word)) then
    let shown := v.display
    .refuse .badValue s!"Invalid acquisition mode: {shown}"
  Desk.writeValue "acquire:stopafter " v

def summaries : List (String × String) :=
  [("non", "none"), ("env", "envelope"), ("ave", "average")]

def setSummary (v : Value) : Use β PUnit := do
  if !(← v.isMember (summaries.map fun (_, word) => .text word)) then
    let shown := v.display
    .refuse .badValue s!"Invalid summary frame mode: {shown}"
  Desk.writeValue "horizontal:fastframe:sumframe " v

def setFrameCount (v : Value) : Use β PUnit := do
  if ← v.atMost (.int 0) then
    let shown := v.display
    .refuse .badValue s!"Must provide a positive integer, not \"{shown}\""
  match v.asInt? with
  | some n => Desk.write s!"horizontal:fastframe:count {n}"
  | none => .fail (.plain .badValue)

def duration : Use β Float := do
  let divisions ← Desk.askFloat "horizontal:divisions?"
  return divisions * (← Desk.askFloat "horizontal:mode:scale?")

/-- Sets the duration of a curve. The oscilloscope is told that of a division. -/
def setDuration (v : Value) : Use β PUnit := do
  let x ← Quantity.toSetting "s" v (.real 1.0)
  let divisions ← Desk.askFloat "horizontal:divisions?"
  Desk.writeValue "horizontal:mode:scale " (← x.quotient (.real divisions))

def source : Use β Value := do
  match ← Desk.ask "data:source?" with
  | .text s =>
    match s.toList with
    | ['C', 'H', c] => return .int (← (Value.text c.toString).toInt)
    | _ => .fail (.plain .violated)
  | _ => .fail (.plain .badType)

/-! ### Channels -/

/-- The smallest and the largest voltage that a channel can show, which has ten divisions. -/
def bounds (channel : Nat) : Use β (Float × Float) := do
  let scale ← Desk.askFloat s!"ch{channel}:scale?"
  let offset ← Desk.askFloat s!"ch{channel}:offset?"
  let half := 5.0 * scale
  return (-half + offset, half + offset)

def transform (channel : Nat) (samples : List Value) : Use β Value := do
  let values ← valueRange (← Desk.askInt "wfmoutpre:byt_nr?")
  let (low, high) ← bounds channel
  let pairs ← timed values low high (← duration) samples
  return .list (pairs.map fun (time, x) => .tuple [.real time, .real x])

/-- The largest number of samples that is received at a time. -/
def windowLimit : Float := 1e7

def receive (windows i : Nat) : Use β (List Char) := do
  match windows with
  | 0 => return []
  | rest + 1 =>
    let (first, last) := window windowLimit i
    Desk.write s!"data:start {first}"
    Desk.write s!"data:stop {last}"
    match ← Desk.onLine (Line.askRaw "curve?") with
    | none => .fail (.plain .badType)
    | some block =>
      let data ← Block.decode block.toList
      return data ++ (← receive rest (i + 1))

/-- The curve of a channel. Of several frames it is the last one. -/
def curve (channel : Nat) : Use β Value :=
  Desk.busy s!"Getting waveform for channel {channel}" do
    Desk.write s!"data:source ch{channel}"
    let isFast := (← Desk.askInt "horizontal:fastframe:state?") != 0
    let frame ← if isFast then Desk.askInt "horizontal:fastframe:count?" else pure 1
    Desk.write s!"data:framestart {frame}"
    Desk.write s!"data:framestop {frame}"
    let length ← Desk.askInt "horizontal:mode:recordlength?"
    discard (Value.floatOfInt length : Outcome Float)
    let data ← receive (windowCount windowLimit length) 0
    let size ← Desk.askInt "wfmoutpre:byt_nr?"
    transform channel ((← samples size length data).map .int)

/-! ### The panel -/

def channelControls (channel : Nat) : List (String × Control (Desk PUnit β)) :=
  [("enabled", .setting (Setting.truth s!"select:ch{channel}?") fun v =>
      Desk.write (s!"select:ch{channel} " ++ if v.truth then "on" else "off")),
    ("waveform", .reading (curve channel)),
    ("scale", Setting.quantity s!"ch{channel}:scale" "V"),
    ("offset", Setting.quantity s!"ch{channel}:offset" "V"),
    ("acquisition_window", .reading do
      let (low, high) ← bounds channel
      return .tuple [.real low, .real high]),
    ("channel", .reading (return .int channel))]

def channelPanel (channel : Nat) : Panel (Desk PUnit β) where
  name := "Channel"
  controls := channelControls channel
  operations :=
    [("transform_waveform", fun
      | [samples] => do transform channel (← samples.sequence)
      | _ => .fail (.plain .badType))]
  resources :=
    [("waveform",
        { (Panel.resourceOf (channelControls channel) true false "waveform").2 with
          slow := true, displayUnits := some "V" }),
      ("enabled",
        { (Panel.resourceOf (channelControls channel) true true "enabled").2 with converter := some .flag })]

def controls : List (String × Control (Desk PUnit β)) :=
  [("stopafter", .setting (wordOf endings "acquire:stopafter?") setEnding),
    ("waveform_bytes", Setting.wholeNumber "wfmoutpre:byt_nr"),
    ("value_range", .reading do
      let (low, high) ← valueRange (← Desk.askInt "wfmoutpre:byt_nr?")
      return .tuple [low, high]),
    ("acquiring", Setting.switch "acquire:state"),
    ("sample_rate", Setting.quantity "horizontal:mode:samplerate" "Hz"),
    ("time_scale", .setting (do
      return .quantity (← Quantity.ofReading (.text "s") (.real (← duration)) (.real 1.0))) setDuration),
    ("data_source", .setting source (Desk.writeValue "data:source ch")),
    ("data_start", Setting.wholeNumber "data:start"),
    ("data_stop", Setting.wholeNumber "data:stop"),
    ("record_length", .reading (whole "horizontal:mode:recordlength?")),
    ("fastframe", Setting.switch "horizontal:fastframe:state"),
    ("fastframe_sum", .setting (wordOf summaries "horizontal:fastframe:sumframe?") setSummary),
    ("fastframe_count", .setting (whole "horizontal:fastframe:count?") setFrameCount),
    ("fastframe_start", Setting.wholeNumber "data:framestart"),
    ("fastframe_stop", Setting.wholeNumber "data:framestop"),
    ("acquisitions", .reading (whole "acquire:numacq?")),
    ("max_receive_samples", .reading (return .real windowLimit))]

def operations : List (String × (List Value → Act (Desk PUnit β) Value)) :=
  [Instrument.resetOperation,
    ("autoset", Panel.plainly (Desk.write "autoset execute")),
    ("acquire", Panel.plainly (Setting.writeInt "acquire:state " (.flag true)))]

def instrument (name : String) : Instrument PUnit β where
  settings := ⟨⟩
  panel _ :=
    let resource (name units : String) : String × Resource (Desk PUnit β) :=
      (name, (Panel.resourceOf controls true true name).2.withUnits (some units))
    { name, controls, operations
      resources := [resource "sample_rate" "Hz", resource "time_scale" "s"]
      parts := [1, 2, 3, 4].map fun channel => (s!"channel{channel}", channelPanel channel) }

end LabBench.Oscilloscope
