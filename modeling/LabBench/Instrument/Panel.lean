import LabBench.Resource.Basic
/-!
# Panels

The panel of an instrument has everything on it that can be used by name: controls, operations, resources, and the
panels of its parts.
-/

namespace LabBench

/-- Something that can be read, written or erased by its name. -/
structure Control (σ : Type) where
  read : Option (Act σ Value) := none
  write : Option (Value → Act σ PUnit) := none
  erase : Option (Act σ PUnit) := none

structure Panel (σ : Type) where
  name : String
  controls : List (String × Control σ) := []
  operations : List (String × (List Value → Act σ Value)) := []
  /-- Operations during which something else is measured several times. The measurements are numbered from zero on. -/
  measuring : List (String × ((Nat → Act σ Value) → List Value → Act σ Value)) := []
  resources : List (String × Resource σ) := []
  parts : List (String × Panel σ) := []

namespace Control

variable {σ : Type}

def reading (act : Act σ Value) : Control σ :=
  { read := some act }

def setting (get : Act σ Value) (put : Value → Act σ PUnit) : Control σ :=
  { read := some get, write := some put }

def resource (c : Control σ) (isReadable isWritable : Bool) : Resource σ :=
  { getter := if isReadable then some (c.read.getD (.fail (.plain .missingAttribute))) else none
    setter := if isWritable then some (c.write.getD fun _ => .fail (.plain .missingAttribute)) else none }

end Control

namespace Panel

variable {σ : Type}

def part (p : Panel σ) : List String → Outcome (Panel σ)
  | [] => .ok p
  | name :: path =>
    match p.parts.lookup name with
    | some q => q.part path
    | none => .error (.plain .missingKey)

def control (p : Panel σ) (name : String) : Outcome (Control σ) :=
  match p.controls.lookup name with
  | some c => .ok c
  | none => .error (.plain .missingAttribute)

def get (p : Panel σ) (name : String) : Act σ Value := do
  match (← p.control name).read with
  | some act => act
  | none => .fail (.plain .missingAttribute)

def set (p : Panel σ) (name : String) (v : Value) : Act σ PUnit := do
  match (← p.control name).write with
  | some act => act v
  | none => .fail (.plain .missingAttribute)

def erase (p : Panel σ) (name : String) : Act σ PUnit := do
  match (← p.control name).erase with
  | some act => act
  | none => .fail (.plain .missingAttribute)

def call (p : Panel σ) (name : String) (args : List Value) : Act σ Value :=
  match p.operations.lookup name with
  | some act => act args
  | none => .fail (.plain .missingAttribute)

def callMeasuring (p : Panel σ) (name : String) (measure : Nat → Act σ Value) (args : List Value) : Act σ Value :=
  match p.measuring.lookup name with
  | some act => act measure args
  | none => .fail (.plain .missingAttribute)

/-- Goes down the parts to a resource, with the path so far. -/
def findResourceFrom (passed : List String) (p : Panel σ) : List String → Outcome (Resource σ)
  | [] => .error (.because .badValue "No path provided.")
  | [name] =>
    match p.resources.lookup name with
    | some r => .ok r
    | none =>
      let place := (Value.tuple (passed.map .text)).quoted
      .error (.because .badValue s!"No resource \"{name}\" in {place}.")
  | name :: path =>
    match p.parts.lookup name with
    | some q => findResourceFrom (passed ++ [name]) q path
    | none =>
      let place := (Value.tuple (passed.map .text)).quoted
      .error (.because .badValue s!"No subdevice \"{name}\" in {place}.")

def findResource (p : Panel σ) (path : List String) : Outcome (Resource σ) :=
  p.findResourceFrom [] path

def resourceOf (controls : List (String × Control σ)) (isReadable isWritable : Bool) (name : String) :
    String × Resource σ :=
  (name, ((controls.lookup name).getD {}).resource isReadable isWritable)

/-- All that is on a panel. Parts are called channels. -/
def names (p : Panel σ) : List String :=
  p.controls.map (·.1) ++ p.operations.map (·.1) ++ if p.parts.isEmpty then [] else ["channels"]

/-- A panel with more on it. What is there already comes first. -/
def extended (p : Panel σ) (controls : List (String × Control σ))
    (operations : List (String × (List Value → Act σ Value))) : Panel σ :=
  { p with controls := p.controls ++ controls, operations := p.operations ++ operations }

def plainly (act : Act σ PUnit) : List Value → Act σ Value
  | [] => do
    act
    return .none
  | _ => .fail (.plain .badType)

end Panel

end LabBench
