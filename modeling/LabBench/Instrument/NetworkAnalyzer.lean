import LabBench.Instrument.Setting
/-!
# Network analyzers

A network analyzer puts out a wave of one frequency and measures what comes back at its marker.
-/

namespace LabBench.NetworkAnalyzer

variable {β : Type} [Line β]

/-- A frequency. The number follows its command without a blank. -/
def frequencyControl (command : String) : Control (Desk PUnit β) :=
  .setting (Desk.askQuantity (command ++ "?") "Hz") (Desk.writeQuantity command "Hz")

def marker : Act (Desk PUnit β) Value :=
  Desk.busy "Taking reading" do
    (Value.text (← Desk.askPart "OUTPMARK" 0)).toFloat <&> .real

def controls : List (String × Control (Desk PUnit β)) :=
  [("marker", .reading marker),
    ("cwFreq", frequencyControl "cwfreq"),
    ("power", .setting (do return .real (← Desk.askFloat "powe?")) (Desk.writeValue "powe")),
    ("markFreq", frequencyControl "MARK1")]

def instrument (name : String) : Instrument PUnit β where
  settings := ⟨⟩
  connected := do
    discard (Desk.ask "opc?;pres")
    Desk.write "chan1"
    Desk.write "auxcoff"
    Desk.write "powe-20"
  panel _ :=
    let resource (isWritable : Bool) (converter : Converter) (name : String) : Resource (Desk PUnit β) :=
      { (Panel.resourceOf controls true isWritable name).2 with converter := some converter }
    let frequency (name : String) : String × Resource (Desk PUnit β) :=
      (name, (resource true (.unknown name) name).withUnits (some "Hz"))
    { name, controls
      operations := [Instrument.resetOperation]
      resources := [("marker", resource false .float "marker"), frequency "cwFreq",
        ("power", resource true .float "power"), frequency "markFreq"] }

end LabBench.NetworkAnalyzer
