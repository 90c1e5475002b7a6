import LabBench.Instrument.Rig
import LabBench.Instrument.Multimeter
import LabBench.Instrument.MagnetSupply.Basic
import LabBench.Instrument.MagnetSupply.Simulation
import LabBench.Instrument.FieldSupply.Basic
import LabBench.Instrument.FieldSupply.Simulation
import LabBench.Instrument.VoltageSource.Simulation
import LabBench.Instrument.WaveformSource.Basic
import LabBench.Instrument.WaveformSource.Simulation
import LabBench.Instrument.Oscilloscope.Basic
import LabBench.Instrument.Oscilloscope.Simulation
import LabBench.Instrument.LockIn
import LabBench.Instrument.MicrowaveSource
import LabBench.Instrument.NetworkAnalyzer
import LabBench.Instrument.ProgrammableSource
import LabBench.Instrument.SignalGenerator
import LabBench.Instrument.SourceMeter
import LabBench.Instrument.Thermometer
import LabBench.Instrument.VoltageRack
/-!
# The directory of instruments

All models of instruments by their makers. Most of them can be used for real and as a simulation.
-/

namespace LabBench.Directory

/-- What is given by name when an instrument is put into use. -/
abbrev Arguments := List (String × Value)

def argument (args : Arguments) (name : String) (default : Value := .none) : Value :=
  (args.lookup name).getD default

structure Circumstances where
  script : Script := {}
  dice : List Float := []

/-- How an instrument is put into use. The instrument may be refused, and its connection may fail. -/
structure Maker where
  name : String
  make : Arguments → Circumstances → Except Fault (Rig × Outcome PUnit)

def addressNames : List String :=
  ["ip_address", "gpib_board", "gpib_pad", "gpib_sad", "usb_resource"]

def address (args : Arguments) : Outcome Address :=
  Address.choose (argument args "ip_address") (argument args "gpib_board" (.int 0)) (argument args "gpib_pad")
    (argument args "gpib_sad" (.int 0)) (argument args "usb_resource")

/-- A real instrument. Apart from the address, it takes arguments with names of its own. -/
def Maker.real {κ : Type} (name : String) (make : Arguments → Outcome (Instrument κ Session))
    (names : List String := []) : Maker where
  name
  make args world :=
    if args.any fun (n, _) => !(addressNames ++ names).contains n then .error (.plain .badType)
    else
      match make args, address args with
      | .error f, _ => .error f
      | _, .error f => .error f
      | .ok i, .ok a => .ok (Rig.ofSession i a world.script)

def Maker.simulated {κ : Type} (μ : Type) [Simulation μ]
    (make : Arguments → Outcome (Instrument κ (Simulated μ))) : Maker where
  name := Simulation.name μ
  make args world :=
    match (Simulated.start world.dice : Outcome (Simulated μ)), make args with
    | .error f, _ => .error f
    | _, .error f => .error f
    | .ok line, .ok i => .ok (Rig.ofSimulation i line)

def Maker.broken (name : String) (kind : Fault.Kind) : Maker where
  name
  make _ _ := .error (.plain kind)

structure Model where
  name : String
  real : Option Maker := none
  mock : Option Maker := none

/-! ### The bare instrument -/

def bare {β : Type} (name : String) : Instrument PUnit β where
  settings := ⟨⟩
  panel _ := { name }

/-- A simulated instrument with nothing in its memory. -/
structure Blank where

instance : Simulation Blank where
  name := "MockAbstractDevice"
  blank := {}
  reset := return
  respond _ := return none

def abstract : Model where
  name := "abstract"
  real := some (.real "AbstractDevice" fun _ => .ok (bare "AbstractDevice"))
  mock := some (.simulated Blank fun _ => .ok (bare "MockAbstractDevice"))

def sample : Model where
  name := "ABC1234"
  real := some (.real "ABC1234" fun _ => .ok (Sample.instrument "ABC1234"))
  mock := some (.simulated Sample.Memory fun _ => .ok (Sample.instrument "MockABC1234"))

/-! ### Makers -/

def multimeter (m : Multimeter.Model) (name : String) : Model where
  name
  real := some (.real m.name fun _ => .ok (Multimeter.instrument m m.name))
  mock := some (.simulated (Multimeter.Memory m) fun _ => .ok (Multimeter.instrument m ("Mock" ++ m.name)))

def magnetSupply : Model where
  name := "Model 4G"
  real := some (.real "Model4G" fun _ => .ok (MagnetSupply.instrument "Model4G"))
  mock := some (.simulated MagnetSupply.Simulation.Memory fun _ => .ok (MagnetSupply.instrument "MockModel4G"))

def fieldSupply : Model where
  name := "IPS120-10"
  real := some (.real "IPS120_10" fun _ => .ok (FieldSupply.instrument "IPS120_10"))
  mock := some (.simulated FieldSupply.Simulation.Memory fun _ => .ok (FieldSupply.quickInstrument "MockIPS120_10"))

def voltageSource (m : VoltageSource.Model) (name : String) : Model where
  name
  real := some (.real m.name (fun args => VoltageSource.instrument m m.name (argument args "port_settings"))
    ["port_settings"])
  mock := some (.simulated (VoltageSource.Simulation.Memory m) fun _ => VoltageSource.instrument m ("Mock" ++ m.name))

def waveformSource : Model where
  name := "AWG5014B"
  real := some (.real "AWG5014B" fun _ => .ok (WaveformSource.instrument "AWG5014B"))
  mock := some (.simulated WaveformSource.Simulation.Memory fun _ => .ok (WaveformSource.instrument "MockAWG5014B"))

def oscilloscope : Model where
  name := "DPO7104"
  real := some (.real "DPO7104" fun _ => .ok (Oscilloscope.instrument "DPO7104"))
  mock := some (.simulated Oscilloscope.Simulation.Memory fun _ => .ok (Oscilloscope.instrument "MockDPO7104"))

def lockIn : Model where
  name := "SR830 DSP"
  real := some (.real "SR830DSP" fun _ => .ok (LockIn.instrument "SR830DSP"))
  mock := some (.simulated LockIn.Memory fun _ => .ok (LockIn.instrument "MockSR830DSP"))

def microwaveSource : Model where
  name := "SMF100A"
  real := some (.real "SMF100A" fun _ => .ok (MicrowaveSource.instrument "SMF100A"))
  mock := some (.simulated MicrowaveSource.Memory fun _ => .ok (MicrowaveSource.instrument "MockSMF100A"))

def networkAnalyzer : Model where
  name := "8753ET"
  real := some (.real "NWA8753ET" fun _ => .ok (NetworkAnalyzer.instrument "NWA8753ET"))
  mock := some (.broken "MockNWA8753ET" .unknownName)

def programmableSource : Model where
  name := "230 Programmable Voltage Source"
  real := some (.real "voltageSource230" (fun args =>
    let s : ProgrammableSource.Settings := {}
    .ok (ProgrammableSource.instrument "voltageSource230" { s with
      lowest := argument args "vMin" s.lowest
      highest := argument args "vMax" s.highest
      shortestDwell := argument args "dwellMin" s.shortestDwell
      longestDwell := argument args "dwellMax" s.longestDwell })) ["vMin", "vMax", "dwellMin", "dwellMax"])
  mock := some (.broken "MockvoltageSource230" .missingAttribute)

def signalGenerator : Model where
  name := "SG382 Signal Generator"
  real := some (.real "SG382" fun _ => .ok (SignalGenerator.instrument "SG382"))
  mock := some (.simulated SignalGenerator.Memory fun _ => .ok (SignalGenerator.instrument "MockSG382"))

def plainSourceMeter : Model where
  name := "sourceMeter 2450"
  real := some (.real "sm2450" fun _ => .ok (SourceMeter.plainInstrument "sm2450"))
  mock := some (.broken "MockSourceMeter2450" .unknownName)

def switchedSourceMeter : Model where
  name := "sourceMeter 2401"
  real := some (.real "sm2401" fun _ => .ok (SourceMeter.switchedInstrument "sm2401"))
  mock := some (.broken "MockSourceMeter2401" .unknownName)

def thermometer (m : Thermometer.Model) (name : String) : Model where
  name
  real := some (.real m.name fun _ => .ok (Thermometer.instrument m m.name))
  mock := some (.simulated (Thermometer.Memory m) fun _ => .ok (Thermometer.instrument m m.simulationName))

/-- A rack of voltage sources. The simulated one is empty. -/
def voltageRack : Model where
  name := "SIM900+SIM928 Voltage Source"
  real := some (.real "sim900" (fun args => do
    return VoltageRack.instrument "sim900" (← VoltageRack.fullRack (argument args "port_settings"))) ["port_settings"])
  mock := some (.simulated VoltageRack.Memory fun _ => .ok (VoltageRack.instrument "Mock_sim900" []))

def makers : List (String × List Model) :=
  [("Agilent", [multimeter .m34410A "34410A", multimeter .m34401A "34401A", networkAnalyzer]),
    ("IQC", [voltageSource .sixteen "Voltage source", voltageSource .six "Six channel voltage source",
      voltageSource .four "Four channel voltage source"]),
    ("Oxford Instruments", [fieldSupply]),
    ("Rohde & Schwarz", [microwaveSource]),
    ("Tektronix", [waveformSource, oscilloscope]),
    ("Keithley", [programmableSource, plainSourceMeter, switchedSourceMeter]),
    ("Cryomagnetics", [magnetSupply]),
    ("Lakeshore", [thermometer .controller "335 Temperature Controller",
      thermometer .monitor "Model 218 Temperature Monitor"]),
    ("Stanford Research Systems", [lockIn, signalGenerator, voltageRack])]

def names : List (String × List (String × List (String × String))) :=
  makers.map fun (maker, models) =>
    (maker, models.map fun m =>
      (m.name, (m.mock.map fun k => ("mock", k.name)).toList ++ (m.real.map fun k => ("real", k.name)).toList))

def find? (maker model : String) : Option Model :=
  if model == "abstract" then some abstract
  else if maker == "Sample" then some sample
  else do (← makers.lookup maker).find? (·.name == model)

def make (maker model : String) (isMock : Bool) (args : Arguments) (world : Circumstances) :
    Except Fault (Rig × Outcome PUnit) :=
  match (find? maker model).bind fun m => if isMock then m.mock else m.real with
  | some m => m.make args world
  | none => .error (.plain .missingKey)

end LabBench.Directory
