import LabBench.Pulse.Check
import LabBench.Pulse.Play
import LabBench.Pulse.Reader
import LabBench.Resource.Basic
/-!
# Pulse programs that are ready to run

A source is read and checked once; then its parameters can be set and its waveforms can be generated any number of
times. Parameters of a program can be turned into resources, which set them on a copy of the program.
-/

namespace LabBench.Pulse

open Text

structure Program where
  env : Environment
  block : Block
  filename : String := ""
  channels : List (String × Option Int)
  timesAverage : Int := 1
  acquisitionDelay : Quantity Float

namespace Program

/-- A stage of the check; its problems end the check. -/
def checked (stage : Act Environment PUnit) : Act Environment PUnit := do
  stage
  let env ← get
  if !env.problems.isEmpty then .fail ⟨.pulseSyntax, none, env.reports⟩

def inspect (block : Block) : Act Environment PUnit := do
  checked (Environment.readDeclarations block)
  checked (Environment.readValues block)
  checked (Environment.checkCommands block)

def ofBlock (start : Environment) (block : Block) (acquisitionDelay : Quantity Float) (filename : String := "") :
    Outcome Program := do
  let (r, env) := inspect block start
  r
  let channels := env.declared.filterMap fun (name, kind) => if kind = .output then some (name, none) else none
  return { env, block, filename, channels, acquisitionDelay }

def ofSource (source : String) (folder : Option Folder := none) (filename : String := "") : Outcome Program := do
  let expanded := expandTabs source
  let block ← read expanded
  let hertz ← Quantity.make 1.0 "Hz"
  let noDelay ← Quantity.make 0.0 "s"
  ofBlock { source := expanded, frequency := .quantity hertz, folder } block noDelay filename

def ofFile (folder : Folder) (filename content : String) : Outcome Program :=
  ofSource (String.ofList (fileLines content.toList).flatten) (some folder) filename

def missing (p : Program) : Outcome (List Path) :=
  p.env.missing

/-- Sets a value, whether its variable is declared or not. -/
def setValue (path : Path) (v : Value) (p : Program) : Program :=
  { p with env := { p.env with values := Entries.put path v p.env.values } }

def setFrequency (v : Value) (p : Program) : Program :=
  { p with env := { p.env with frequency := v } }

def perform (block : Block) (rehearsal : Bool) : Act Environment PUnit := do
  modify fun env => { env with rehearsal, missingShapes := [], problems := [] }
  Environment.play block
  let env ← get
  if !env.problems.isEmpty then .fail ⟨.pulse, none, env.reports⟩

/-- The waveforms of the outputs with the numbers of their points. In a rehearsal only the numbers count. -/
def generate (rehearsal : Bool) : Act Program (List (String × Waveform × Nat)) :=
  fun p =>
    let (r, env) := perform p.block rehearsal p.env
    (r.map fun _ => env.generators.map fun (name, g) => (name, g.waveform, g.length), { p with env })

/-! ### Parameters as resources -/

/-- The copy of a program on which resources act. Its quantities are made again from their texts. -/
def detached (p : Program) : Outcome Program := do
  let values ← p.env.values.mapM fun (path, v) => do return (path, ← v.renew)
  let frequency ← p.env.frequency.renew
  return { p with env := { p.env with values, frequency } }

def unitsOf (p : Program) (path : Path) : Outcome (Option String) :=
  match path with
  | [] => .error (.plain .outOfBounds)
  | name :: attributes =>
    match p.env.kindOf name, attributes with
    | none, _ => .error (.plain .missingKey)
    | some .delay, _ => .ok (some "s")
    | some .pulse, [] => .error (.plain .outOfBounds)
    | some .pulse, a :: _ =>
      .ok (if a == "amplitude" then some "V" else if a == "length" then some "s" else none)
    | some _, _ => .ok none

/-- The resource that sets a parameter, where `update` changes the program within a larger state. -/
def resource {σ : Type} (p : Program) (update : (Program → Program) → σ → σ) (path : Path) :
    Outcome (Resource σ) := do
  let units ← p.unitsOf path
  let r : Resource σ := { setter := some fun v => modify (update (setValue path v)) }
  return r.withUnits units

end Program

end LabBench.Pulse
