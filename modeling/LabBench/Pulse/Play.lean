import LabBench.Pulse.Environment
import LabBench.Text.Table
/-!
# Waveforms of pulse programs

Once all values are known, the commands of a program are carried out on the waveforms of its outputs.
-/

namespace LabBench.Pulse.Environment

open Text

/-! ### Outputs -/

/-- Something is done to all waveforms, up to the first fault. -/
def onEach (act : Act Generator PUnit) : List (String × Generator) → Outcome PUnit × List (String × Generator)
  | [] => (.ok ⟨⟩, [])
  | (name, g) :: rest =>
    match act g with
    | (.error f, g') => (.error f, (name, g') :: rest)
    | (.ok _, g') =>
      let (r, rest') := onEach act rest
      (r, (name, g') :: rest')

def onAll (act : Act Generator PUnit) : Act Environment PUnit :=
  fun env =>
    let (r, generators) := onEach act env.generators
    (r, { env with generators })

def onOutput (name : String) (act : Act Generator PUnit) : Act Environment PUnit :=
  fun env =>
    match Entries.get? name env.generators with
    | none => (.error (.plain .missingKey), env)
    | some g =>
      let (r, g') := act g
      (r, { env with generators := Entries.put name g' env.generators })

def pause (time : Value) : Act Generator PUnit := do
  Generator.setNext 0.0
  Generator.delay time

def level : Act Environment PUnit := do
  let longest := (← get).generators.foldl (fun n (_, g) => max n g.wave.size) 0
  onAll do
    let g ← get
    if g.wave.size < longest then Generator.append (Array.replicate (longest - g.wave.size) 0.0)

/-! ### Shapes -/

/-- A path in a folder, with the steps that stay in the folder left out. -/
def relativePath (path : String) : String :=
  "/".intercalate (((Text.splitAt '/' path.toList).filter fun p => p != [] && p != ['.']).map String.ofList)

def Folder.shapeFile (folder : Folder) (shape : String) : String × Option (List (List Char)) :=
  let isAbsolute := shape.startsWith "/"
  let path := if isAbsolute then shape else folder.path ++ "/" ++ shape
  let file := if isAbsolute || shape.endsWith "/" then none else Entries.get? (relativePath shape) folder.files
  (path, file.map fun content => fileLines content.toList)

/-- The points of a shape, if there is a file of its name in the folder. The directory in which the program runs is
taken to have no files, so that a name is never found there. -/
def loadShape (folder : Option Folder) (shape : String) : Outcome (Option (List Float)) :=
  if shape.toList.contains '\x00' then .error (.because .badValue s!"Not a shape file: {shape}")
  else
    match folder with
    | none => .ok none
    | some folder =>
      match Folder.shapeFile folder shape with
      | (_, none) => .ok none
      | (path, some lines) =>
        match readNumbers lines with
        | .ok points => .ok (some points)
        | .error f =>
          if f.kind == .badValue then .error (.because .badValue s!"Not a shape file: {path}") else .error f

/-- A pulse with a shape from a file. A file that is not found is reported once. -/
def playShape (place : Nat) (output name : String) (shape : String) (amplitude : Float) (length : Value) :
    Act Environment PUnit := do
  match ← Act.lift (loadShape (← get).folder shape) with
  | some points => onOutput output (Generator.pulse points.toArray (.real amplitude) length)
  | none =>
    addProblem s!"File \"{shape}\" (due to \"{name}\") not found" place
    modify fun env => { env with missingShapes := env.missingShapes ++ [.text shape] }

def playPulse (place : Nat) (output name : String) : Act Environment PUnit := do
  let env ← get
  let amplitude ← Act.lift do (← env.valueAt [name, "amplitude"]).asQuantity
  let length ← Act.lift (env.valueAt [name, "length"])
  let shape ← Act.lift (env.valueAt [name, "shape"])
  if !(← Act.lift (shape.isMember env.missingShapes)) then
    if ← Act.lift (shape.equal (.text "square")) then
      onOutput output (Generator.square amplitude.magnitude length)
    else
      match shape with
      | .text s => playShape place output name s amplitude.magnitude length
      | _ => .fail (.plain .badType)

/-! ### Commands -/

def playPiece (place : Nat) (output : String) : Piece → Act Environment PUnit
  | .delay q => onOutput output (pause (.quantity q))
  | .named name => do
    let env ← get
    match env.kindOf name with
    | none => .fail (.plain .missingKey)
    | some .delay => onOutput output (pause (← Act.lift (env.valueAt [name])))
    | some .pulse => playPulse place output name
    | some _ => return

def playTrain (t : Train) : Act Environment PUnit := within .train do
  onOutput t.output (pure ⟨⟩)
  t.pieces.forM (playPiece t.place t.output)

def playAcquisition : Act Environment PUnit := do
  let env ← get
  let number ← Act.lift (env.valueAt [markerName, "marker_num"])
  let output ← Act.lift (env.valueAt [markerName, "output"])
  if !output.isSettled then .fail (.plain .badType)
  match output with
  | .text name => onOutput name (Generator.mark number (.flag true))
  | _ => .fail (.plain .missingKey)

def repetitions (env : Environment) : Count → Outcome Nat
  | .literal n => .ok n.toNat
  | .named name => do
    let v ← env.valueAt [name]
    match v.asInt? with
    | some n => .ok n.toNat
    | none => .error (.plain .badType)

def repeated (act : Act Environment PUnit) : Nat → Act Environment PUnit
  | 0 => return
  | n + 1 => do
    act
    repeated act n

mutual

def playStatement : Statement → Act Environment PUnit
  | .acquire _ => playAcquisition
  | .delay _ length => do
    let time ← match length with
      | .named name => Act.lift ((← get).valueAt [name])
      | .literal q => pure (.quantity q)
    onAll (pause time)
  | .pulses trains => do
    within .pulses (trains.forM playTrain)
    level
  | .loop _ count body => do
    let n ← Act.lift (repetitions (← get) count)
    repeated (within .loop (within .block (playAll body))) n
  | _ => return

/-- Commands are carried out one after the other. -/
def playAll : List Statement → Act Environment PUnit
  | [] => return
  | s :: rest => do
    playStatement s
    playAll rest

end

def pathOrder : Path → Path → Bool
  | [], _ => true
  | _ :: _, [] => false
  | a :: as, b :: bs => if a == b then pathOrder as bs else decide (a < b)

/-- The commands of a program are carried out on fresh waveforms, if no values are missing. -/
def play (block : Block) : Act Environment PUnit := do
  let env ← get
  let missing ← Act.lift env.missing
  if !missing.isEmpty then
    let names := ", ".intercalate ((missing.mergeSort pathOrder).map fun p => ".".intercalate p)
    .refuse .badValue s!"Cannot generate waveforms while values are missing: {names}"
  set { env with
    generators := env.generators.map fun (e : String × Generator) =>
      (e.1, Generator.fresh env.frequency env.rehearsal) }
  within .block (playAll block)

end LabBench.Pulse.Environment
