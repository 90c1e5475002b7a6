import LabBench.Entries
import LabBench.Pulse.Location
import LabBench.Pulse.Syntax
import LabBench.Waveform.Generator
/-!
# Environments of pulse programs

What is known about a program while it is checked and run: its variables with their values, the problems that were
found, and the waveforms of its outputs.
-/

namespace LabBench.Pulse

open Text

structure Folder where
  path : String
  files : List (String × String)

inductive Frame where
  | block
  | declaration
  | assignment
  | loop
  | pulses
  | train
  deriving Repr, DecidableEq

structure Environment where
  source : String
  /-- What encloses the statement at hand, from the inside to the outside. -/
  stack : List Frame := []
  declared : List (String × Kind) := []
  values : List (Path × Value) := []
  /-- The values that are needed, once the declarations have been read. -/
  required : Option (List Path) := none
  acquisition : Bool := false
  problems : List (String × Option Location) := []
  /-- Whether the points of the waveforms are only counted. -/
  rehearsal : Bool := false
  generators : List (String × Generator) := []
  folder : Option Folder := none
  missingShapes : List Value := []
  frequency : Value

namespace Environment

def addProblem (message : String) (place : Nat) : Act Environment PUnit := do
  let env ← get
  let location ← Act.lift (locate env.source place)
  set { env with problems := env.problems ++ [(message, location)] }

/-- A part of a statement, within a frame. If it ends in a fault, then the frame stays. -/
def within {α : Type} (frame : Frame) (act : Act Environment α) : Act Environment α := do
  modify fun env => { env with stack := frame :: env.stack }
  let a ← act
  modify fun env => { env with stack := env.stack.tail }
  return a

def kindOf (env : Environment) (name : String) : Option Kind :=
  Entries.get? name env.declared

def markerName : String :=
  "_acq_marker"

def requiredOf (name : String) : Kind → List Path
  | .pulse => ["amplitude", "length", "shape"].map fun a => [name, a]
  | .marker => ["marker_num", "output"].map fun a => [name, a]
  | .output => []
  | _ => [[name]]

/-- The values that are still needed. Before the declarations have been read this is not known. -/
def missing (env : Environment) : Outcome (List Path) :=
  match env.required with
  | none => .error (.plain .missingAttribute)
  | some paths => .ok (paths.filter fun p => !Entries.has p env.values)

def isQuantityIn (units : String) (v : Value) : Bool :=
  match v.asQuantityIn units with
  | .ok _ => true
  | .error _ => false

def isWhole (v : Value) : Bool :=
  v.asInt?.isSome

def isText : Value → Bool
  | .text _ => true
  | _ => false

def objection (kind : Kind) (attributes : List String) (v : Value) : Option String :=
  let check (holds : Bool) (message : String) : Option String :=
    if holds then none else some message
  match kind, attributes with
  | .marker, [] => some "Must assign dictionary to acq_marker"
  | .marker, a :: _ =>
    if a == "marker_num" then check (isWhole v) "Must assign int to acq_marker num"
    else if a == "output" then check (isText v) "Must assign string to acq_marker num"
    else none
  | .delay, _ => check (isQuantityIn "s" v) "Must assign time quantity to delay"
  | .int, _ => check (isWhole v) "Must assign integer to int"
  | .pulse, [] => some "Must assign dictionary to pulse"
  | .pulse, a :: _ =>
    if a == "amplitude" then check (isQuantityIn "V" v) "Must assign voltage quantity to pulse amplitude"
    else if a == "length" then check (isQuantityIn "s" v) "Must assign time quantity to pulse length"
    else if a == "shape" then check (isText v) "Must assign string to pulse shape"
    else none
  | .output, _ => some s!"Cannot assign to variable of type \"{Kind.output.name}\""

def pathText (path : Path) : String :=
  (Value.tuple (path.map Value.text)).quoted

def isAssigned (env : Environment) (path : Path) : Bool :=
  match Entries.get? path env.values with
  | none => false
  | some .none => false
  | some _ => true

/-- A value for a path, if it is of the right kind and there is none yet. -/
def assign (path : Path) (v : Value) : Act Environment PUnit := do
  match path with
  | [] => .fail (.plain .outOfBounds)
  | name :: attributes =>
    let env ← get
    match env.kindOf name with
    | none => .fail (.plain .missingKey)
    | some kind =>
      match objection kind attributes v with
      | some message => .refuse .badType message
      | none =>
        if env.isAssigned path then .refuse .badType s!"Re-assignment of {pathText path}"
        else set { env with values := Entries.put path v env.values }

def valueAt (env : Environment) (path : Path) : Outcome Value :=
  match Entries.get? path env.values with
  | some v => .ok v
  | none => .error (.plain .missingKey)

/-! ### Reports -/

/-- The row and the column, which come before all others if there is no location. -/
def reportKey : Option Location → Int × Int
  | none => (-1, -1)
  | some l => (l.row, l.column)

/-- Problems without a location come first, the others in the order of the source; problems with the same location
are in the order of their texts. -/
def reportOrder (a b : String × Option Location) : Bool :=
  let x := reportKey a.2
  let y := reportKey b.2
  if x = y then decide (report a.1 a.2 ≤ report b.1 b.2)
  else decide (x.1 < y.1) || (x.1 == y.1 && decide (x.2 ≤ y.2))

def reports (env : Environment) : List String :=
  (env.problems.eraseDups.mergeSort reportOrder).map fun (message, location) => report message location

end Environment

end LabBench.Pulse
