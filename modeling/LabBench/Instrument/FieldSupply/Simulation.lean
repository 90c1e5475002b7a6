import LabBench.Wire.Simulated
/-!
# A simulated field supply

Commands start with a dollar sign, followed by a letter and an argument. Everything else is a query. Sweeps take no
time.
-/

namespace LabBench.FieldSupply.Simulation

structure Memory where
  isHeated : Bool := false
  activity : Value := .int 4
  mode : Value := .int 0
  output : Float := 0.0
  setPoint : Float := 0.0
  sweepRate : Float := 1.0
  persistent : Float := 0.0

def split (message : String) : Outcome (Char × String × Bool) :=
  match message.toList with
  | '$' :: c :: rest => .ok (c, String.ofList rest, false)
  | ['$'] => .error (.plain .outOfBounds)
  | c :: rest => .ok (c, String.ofList rest, true)
  | [] => .error (.plain .outOfBounds)

def number (s : String) : Outcome Float :=
  (Value.text s).toFloat

def obey (letter : Char) (argument : String) : Act (Simulated Memory) (Option Value) := do
  match letter with
  | 'A' =>
    let n ← (Value.text argument).toInt
    Simulated.remember fun m => { m with activity := .int n }
    if n == 1 then Simulated.remember fun m => { m with output := m.setPoint }
    return if n == 0 || n == 1 then some .none else none
  | 'H' =>
    let isHeated := argument == "1"
    Simulated.remember fun m =>
      if isHeated then { m with isHeated } else { m with isHeated, persistent := m.output }
    return some .none
  | 'J' =>
    let x ← number argument
    Simulated.remember fun m => { m with setPoint := x }
    return some .none
  | 'T' =>
    let x ← number argument
    Simulated.remember fun m => { m with sweepRate := x }
    return some .none
  | 'C' | 'M' | 'Q' | 'R' | 'X' => return some .none
  | _ => return none

/-- The status of the supply. Nines stand for what is not simulated. -/
def statusText (m : Memory) : String :=
  let heater := if m.isHeated then 1 else 0
  let activity := m.activity.display
  let mode := m.mode.display
  s!"X00A{activity}C9H{heater}M9{mode}"

def registerText (m : Memory) (argument : String) : String :=
  let text (x : Float) : String := "R" ++ Number.plain x
  match argument with
  | "7" => text m.output
  | "8" => text m.setPoint
  | "9" => text m.sweepRate
  | "18" => text m.persistent
  | _ => "R"

def answer (letter : Char) (argument : String) : Act (Simulated Memory) (Option Value) := do
  let m ← Simulated.consult id
  match letter with
  | 'R' => return some (.text (registerText m argument))
  | 'X' => return some (.text (statusText m))
  | 'C' | 'M' | 'Q' => return some .none
  | _ => return none

def respond (message : String) : Act (Simulated Memory) (Option Value) := do
  let (letter, argument, isQuery) ← split message
  if isQuery then answer letter argument else obey letter argument

def Memory.table (m : Memory) : Value :=
  .table [(.text "heater_on", .flag m.isHeated), (.text "activity", m.activity), (.text "mode", m.mode),
    (.text "output_field", .real m.output), (.text "set_point", .real m.setPoint),
    (.text "sweep_rate", .real m.sweepRate), (.text "persistent_field", .real m.persistent)]

def Memory.poke (path : List Value) (v : Value) (m : Memory) : Outcome Memory := do
  match path with
  | [.text "heater_on"] => return { m with isHeated := v.truth }
  | [.text "activity"] => return { m with activity := v }
  | [.text "mode"] => return { m with mode := v }
  | [.text "output_field"] => return { m with output := ← v.toFloat }
  | [.text "set_point"] => return { m with setPoint := ← v.toFloat }
  | [.text "sweep_rate"] => return { m with sweepRate := ← v.toFloat }
  | [.text "persistent_field"] => return { m with persistent := ← v.toFloat }
  | _ => .error (.plain .missingKey)

instance : Simulation Memory where
  name := "MockIPS120_10"
  blank := {}
  reset := Simulated.remember fun _ => {}
  respond := respond
  table := Memory.table
  poke := Memory.poke

end LabBench.FieldSupply.Simulation
