import LabBench.Instrument.Setting
import LabBench.Wire.Simulated
/-!
# Lock-in amplifiers

A lock-in amplifier compares a signal with the sine of its own oscillator.
-/

namespace LabBench.LockIn

variable {β : Type} [Line β]

def frequencyBounds : Value × Value :=
  (.real 0.001, .int 102000)

def amplitudeBounds : Value × Value :=
  (.real 0.0, .real 5.0)

/-- The amplitudes that are measured, in the order of their numbers. The angle comes after them. -/
def amplitudes : List String :=
  ["amplitude_x", "amplitude_y", "amplitude_R"]

def measured : List (String × Control (Desk PUnit β)) :=
  (amplitudes.zipIdx.map fun (name, k) =>
    let number := k + 1
    (name, .reading (Desk.askQuantity s!"OUTP? {number}" "V"))) ++
  [("angle_theta", .reading do return .real (← Desk.askFloat "OUTP? 4"))]

def controls : List (String × Control (Desk PUnit β)) :=
  [("reference_freq", Setting.boundedQuantity "FREQ" "Hz" frequencyBounds.1 frequencyBounds.2),
    ("reference_amplitude", Setting.boundedQuantity "SLVL" "V" amplitudeBounds.1 amplitudeBounds.2),
    ("min_freq", Setting.constant frequencyBounds.1), ("max_freq", Setting.constant frequencyBounds.2),
    ("min_amp", Setting.constant amplitudeBounds.1), ("max_amp", Setting.constant amplitudeBounds.2)] ++ measured

/-- The resource of something that is measured. It claims to be writable, with a converter that nobody knows and with
the letters of its name as values. -/
def measuredResource (name : String) : Resource (Desk PUnit β) :=
  { (Panel.resourceOf controls true true name).2 with
    converter := some (.unknown name)
    allowed := some (.set (name.toList.eraseDups.map fun c => .text c.toString)) }

/-- The instrument. It is told to speak over this line and to use its own oscillator. -/
def instrument (name : String) : Instrument PUnit β where
  settings := ⟨⟩
  connected := do
    Desk.write "OUTX 1"
    Desk.write "FMOD 1"
  panel _ :=
    let resource (name units : String) : String × Resource (Desk PUnit β) :=
      (name, (Panel.resourceOf controls true true name).2.withUnits (some units))
    { name, controls
      operations := [Instrument.resetOperation]
      resources :=
        [resource "reference_freq" "Hz", resource "reference_amplitude" "V"] ++
        (amplitudes.map fun name => (name, (measuredResource name).withUnits (some "V"))) ++
        [("angle_theta", measuredResource "angle_theta")] }

/-! ### Simulation -/

/-- What a simulated lock-in amplifier remembers. It has no messages of its own. -/
structure Memory where
  frequency : Int := 1000
  amplitude : Float := 0.5

instance : Simulation Memory where
  name := "MockSR830DSP"
  blank := {}
  reset := Simulated.remember fun _ => {}
  respond _ := return none
  table m := .table [(.text "reference_freq", .int m.frequency), (.text "reference_amplitude", .real m.amplitude)]

end LabBench.LockIn
