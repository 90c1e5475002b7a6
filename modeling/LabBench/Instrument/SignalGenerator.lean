import LabBench.Instrument.Setting
import LabBench.Wire.Simulated
/-!
# Signal generators

A signal generator has two outputs and can modulate its signal in several ways.
-/

namespace LabBench.SignalGenerator

variable {β : Type} [Line β]

/-! ### Words -/

def switchWords : List String :=
  ["off", "on"]

def modulationTypes : List String :=
  ["AM", "FM", "Phase", "Sweep", "Pulse", "Blank", "IQ"]

def modulationShapes : List String :=
  ["Sine", "Ramp", "Triangle", "Square", "Noise", "External"]

def wordControls : List (String × List String × Control (Desk PUnit β)) :=
  let one (name message : String) (words : List String) (complaint : String) :
      String × List String × Control (Desk PUnit β) :=
    (name, words, Setting.word message words complaint)
  [one "modulationType" "TYPE" modulationTypes "Invalid Modulation Type",
    one "modulationEnabled" "MODL" switchWords "Invalid modulation enable setting",
    one "BNCEnable" "ENBL" switchWords "Invalid BNC enable setting",
    one "typeNEnable" "ENBR" switchWords "Invalid type-N enable setting",
    one "modulationFunction" "MFNC" modulationShapes "Invalid Modulation Function"]

/-! ### Numbers -/

def phaseBounds : Value × Value :=
  (.real (-180.0), .real 180.0)

def setPhase (v : Value) : Act (Desk PUnit β) PUnit := do
  Setting.checkBounds phaseBounds.1 phaseBounds.2 v (.real (← v.toFloat))
  Desk.writeValue "PHAS " v

def quantityControls : List (String × String × Control (Desk PUnit β)) :=
  [("frequency", "Hz", Setting.boundedQuantity "FREQ" "Hz" (.int 1) (.real 2e9)),
    ("BNCAmplitude", "V", Setting.boundedQuantity "AMPL" "V" (.real 0.0028) (.real 2.82) " VPP"),
    ("typeNAmplitude", "V", Setting.boundedQuantity "AMPR" "V" (.real 2e-6) (.real 4.24) " VPP"),
    ("FMDeviation", "Hz", Setting.quantity "FDEV" "Hz")]

def numberControls : List (String × Control (Desk PUnit β)) :=
  [("phase", .setting (do return .real (← Desk.askFloat "PHAS?")) setPhase),
    ("AMDepth", Setting.number "ADEP")]

/-! ### The panel -/

def boundControls : List (String × Control (Desk PUnit β)) :=
  [("minBNCAmp", .real 0.0028), ("maxBNCAmp", .real 2.82), ("minTypeNAmp", .real 2e-6), ("maxTypeNAmp", .real 4.24),
    ("minFreq", .int 1), ("maxFreq", .real 2e9), ("minPhase", phaseBounds.1), ("maxPhase", phaseBounds.2)].map
    fun (name, v) => (name, Setting.constant v)

def instrument (name : String) : Instrument PUnit β where
  settings := ⟨⟩
  panel _ :=
    { name
      controls := (quantityControls.map fun (n, _, c) => (n, c)) ++ numberControls ++
        (wordControls.map fun (n, _, c) => (n, c)) ++ boundControls
      operations := [("reset", Panel.plainly (Desk.write "*RST"))]
      resources := (quantityControls.map fun (n, units, c) => (n, (c.resource true true).withUnits (some units))) ++
        (numberControls.map fun (n, c) => (n, c.resource true true)) ++
        (wordControls.map fun (n, words, c) =>
          (n, { c.resource true true with allowed := some (.set (words.map .text)) })) }

/-! ### Simulation -/

/-- What a simulated signal generator remembers. It has no messages of its own. -/
structure Memory where
  frequency : Int := 1000
  amplitude : Float := 0.5

instance : Simulation Memory where
  name := "MockSG382"
  blank := {}
  reset := Simulated.remember fun _ => {}
  respond _ := return none
  table m := .table [(.text "frequency", .int m.frequency), (.text "BNCAmplitude", .real m.amplitude)]

end LabBench.SignalGenerator
