import LabBench.Wire.Simulated
import LabBench.Entries
/-!
# A simulated power supply for magnets

The current of a channel goes from where it is to the end of a sweep within a second. The current through the magnet
follows while the heater is on.
-/

namespace LabBench.MagnetSupply.Simulation

/-- A current that goes from one value to another within a second. -/
structure Ramp where
  start : Float
  first : Float
  last : Float

def Ramp.at (r : Ramp) (time : Float) : Float :=
  let t := time - r.start
  if 1.0 < t then r.last else (r.last - r.first) * (t / 1.0) + r.first

structure Coil where
  units : String := "G"
  magnet : Float := 0.0
  output : Float := 0.0
  high : Float := 20.0
  low : Float := 10.0
  sweep : String := "Standby"
  isHeated : Bool := false
  rates : List (String × Value) :=
    [("0", .real 0.001), ("1", .real 0.002), ("2", .real 0.003), ("3", .real 0.004), ("4", .real 0.005)]
  ramp : Ramp

structure Memory where
  one : Coil
  two : Coil
  selected : Value := .int 1

/-- A channel by its position in a list that starts with nothing. Positions below zero count from the end. -/
def coilAt? (n : Int) : Outcome Bool :=
  if n == 1 || n == -2 then .ok true
  else if n == 2 || n == -1 then .ok false
  else if n == 0 || n == -3 then .error (.plain .missingAttribute)
  else .error (.plain .outOfBounds)

def isFirst (m : Memory) : Outcome Bool := do
  coilAt? (← m.selected.toInt)

def coil : Act (Simulated Memory) Coil := do
  let m ← Simulated.consult id
  return if ← isFirst m then m.one else m.two

def change (f : Coil → Coil) : Act (Simulated Memory) PUnit := do
  if ← isFirst (← Simulated.consult id) then Simulated.remember fun m => { m with one := f m.one }
  else Simulated.remember fun m => { m with two := f m.two }

def shown (c : Coil) (x : Float) : Outcome Value :=
  let written (units : String) : Outcome Value := .ok (.text (Number.plain (x * 1.0) ++ " " ++ units))
  match c.units with
  | "G" => written "kG"
  | "A" => written "A"
  | _ => .error (.plain .badType)

def number (s : String) : Outcome Float :=
  (Value.text s).toFloat

def present (c : Coil) : Act (Simulated Memory) Float := do
  return c.ramp.at (← Clocked.now)

/-- A new sweep starts. What is not known as a sweep changes nothing but the description. -/
def startSweep (c : Coil) (sweep : String) : Act (Simulated Memory) PUnit := do
  let start ← Clocked.now
  let toward (last : Float) : Ramp := { start, first := c.output, last }
  let ramp := match sweep with
    | "up" => toward c.high
    | "zero" => toward 0.0
    | "down" => toward c.low
    | "pause" => toward c.output
    | _ => c.ramp
  let sweep := match sweep with
    | "pause" => "Pause"
    | "zero" => "Sweeping to zero"
    | other => "Sweeping " ++ other
  change fun c => { c with ramp, sweep }

def rateOf (c : Coil) (argument : String) : Outcome Value :=
  match argument.toList with
  | [] => .error (.plain .outOfBounds)
  | k :: _ =>
    match Entries.get? k.toString c.rates with
    | some v => .ok v
    | none => .error (.plain .missingKey)

def readRate (argument : String) : Outcome (String × Value) :=
  match Text.words argument.toList with
  | k :: v :: _ => .ok (String.ofList k, .text (String.ofList v))
  | _ => .error (.plain .outOfBounds)

def answer (c : Coil) (m : Message) : Act (Simulated Memory) (Option Value) := do
  match m.first with
  | "ulim" => return some (← shown c c.high)
  | "llim" => return some (← shown c c.low)
  | "pshtr" => return some (.int (if c.isHeated then 1 else 0))
  | "sweep" => return some (.text c.sweep)
  | "chan" => return some (← Simulated.consult Memory.selected)
  | "units" => return some (.text c.units)
  | "rate" => return some (← rateOf c m.argument)
  | "imag" =>
    if c.isHeated then
      let x ← present c
      change fun c => { c with output := x, magnet := x }
    let c ← coil
    return some (← shown c c.magnet)
  | "iout" =>
    let x ← present c
    change fun c => { c with output := x }
    return some (← shown c x)
  | _ => return none

def obey (c : Coil) (m : Message) : Act (Simulated Memory) (Option Value) := do
  match m.first with
  | "ulim" =>
    let x ← number m.argument
    if c.low ≤ x then change fun c => { c with high := x }
  | "llim" =>
    let x ← number m.argument
    if x ≤ c.high then change fun c => { c with low := x }
  | "pshtr" =>
    match m.argument with
    | "on" => change fun c => { c with isHeated := true }
    | "off" => change fun c => { c with isHeated := false }
    | _ => pure ⟨⟩
  | "sweep" => startSweep c m.argument
  | "chan" => Simulated.remember fun s => { s with selected := .text m.argument }
  | "units" => change fun c => { c with units := m.argument }
  | "rate" =>
    let (k, v) ← readRate m.argument
    change fun c => { c with rates := Entries.put k v c.rates }
  | "imag" | "iout" => pure ⟨⟩
  | _ => return none
  return some .none

/-- A text without the occurrences of another one, after the first `skip` characters have been left out. -/
def dropParts (part : List Char) : Nat → List Char → List Char
  | _, [] => []
  | skip + 1, _ :: cs => dropParts part skip cs
  | 0, c :: cs => if part.isPrefixOf (c :: cs) then dropParts part (part.length - 1) cs else c :: dropParts part 0 cs

def without (part : String) (s : String) : String :=
  String.ofList (dropParts part.toList 0 s.toList)

/-- What is said in thousands of gauss is rounded to whole gauss. -/
def rounded : Value → Outcome Value
  | .text s => do
    let bare := without " kG" s
    if bare == s then return .text s
    return .text (Number.plain (Number.roundPlaces 3 (← number bare)) ++ " kG")
  | v => .ok v

def respond (message : String) : Act (Simulated Memory) (Option Value) := do
  let m ← Message.ofText message
  let c ← coil
  match ← if m.isQuery then answer c m else obey c m with
  | some v => return some (← rounded v)
  | none => return none

def Coil.table (c : Coil) : Value :=
  .table [(.text "mock_state", .table ([(.text "units", .text c.units), (.text "magnet_current", .real c.magnet),
    (.text "power_supply_current", .real c.output), (.text "high_limit", .real c.high),
    (.text "low_limit", .real c.low),
    (.text "sweep", .text c.sweep), (.text "persistent_switch_heater", .int (if c.isHeated then 1 else 0))] ++
    c.rates.map fun (k, v) => (.text ("rate_" ++ k), v)))]

instance : Simulation Memory where
  name := "MockModel4G"
  blank :=
    let ramp : Ramp := { start := 0.0, first := 0.0, last := 0.0 }
    { one := { ramp }, two := { ramp } }
  reset := do
    let ramp : Ramp := { start := ← Clocked.now, first := 0.0, last := 0.0 }
    Simulated.remember fun _ => { one := { ramp }, two := { ramp } }
  respond := respond
  table m := .table [(.text "channels", .list [.none, m.one.table, m.two.table]), (.text "active_channel", m.selected)]

end LabBench.MagnetSupply.Simulation
