import LabBench.Value
/-!
# Resources

A resource is something that can be read or written, or both, such as a setting of an instrument. Its values are
checked for their dimension. Resources can be wrapped, so that values pass through filters when they are read or
written.
-/

namespace LabBench

/-! ### Converters

A converter turns what a user has typed into a value.
-/

/-- Empty values and the word "false" are off; every other text is on. -/
def Value.toFlag (v : Value) : Outcome Bool :=
  if !v.truth then .ok false
  else
    match v with
    | .text s => .ok (Text.lower s != "false")
    | _ => .error (.plain .missingAttribute)

inductive Converter where
  | float
  | int
  | flag
  | unknown (name : String)
  deriving Repr, DecidableEq

namespace Converter

def name : Converter → String
  | float => "float"
  | int => "int"
  | flag => "str_to_bool"
  | unknown name => name

def apply (v : Value) : Converter → Outcome Value
  | float => do return .real (← v.toFloat)
  | int => do return .int (← v.toInt)
  | flag => do return .flag (← v.toFlag)
  | unknown _ => .error (.plain .badType)

end Converter

/-- The values to choose from: a set of distinct values, or a list that is searched from its start. -/
inductive Resource.Choice where
  | set (values : List Value)
  | list (values : List Value)

def Resource.Choice.has (v : Value) : Choice → Outcome Bool
  | set values => v.isMember values
  | list values => v.isListed values

structure Resource.Wrapper (σ : Type) where
  name : String
  onRead : Option (Value → Act σ Value) := none
  onWrite : Option (Value → Act σ Value) := none

/-- Something that can be read or written. Reading and writing are computations on a state. -/
structure Resource (σ : Type) where
  getter : Option (Act σ Value) := none
  setter : Option (Value → Act σ PUnit) := none
  converter : Option Converter := none
  allowed : Option Resource.Choice := none
  wrappers : List (Resource.Wrapper σ) := []
  /-- Values are quantities with the dimension of this unit. Without a unit they are no quantities. -/
  units : Option String := none
  displayUnits : Option String := none
  slow : Bool := false

namespace Resource

variable {σ : Type}

/-- An object whose attributes can be read and written by name. -/
structure Owner (σ : Type) where
  get : String → Act σ Value
  set : String → Value → Act σ PUnit

/-- How a resource is accessed: by the name of an attribute of its owner, or directly. -/
inductive Access (α : Type) where
  | named (name : String)
  | direct (act : α)

def resolveGetter (owner : Option (Owner σ)) : Option (Access (Act σ Value)) → Outcome (Option (Act σ Value))
  | none => .ok none
  | some (.direct act) => .ok (some act)
  | some (.named a) =>
    match owner with
    | some o => .ok (some (o.get a))
    | none => .error (.because .badValue "Cannot call getter with no object.")

def resolveSetter (owner : Option (Owner σ)) :
    Option (Access (Value → Act σ PUnit)) → Outcome (Option (Value → Act σ PUnit))
  | none => .ok none
  | some (.direct act) => .ok (some act)
  | some (.named a) =>
    match owner with
    | some o => .ok (some (o.set a))
    | none => .error (.because .badValue "Cannot call setter with no object.")

def distinct (values : List Value) : Outcome (List Value) :=
  values.foldlM (fun seen v => do return if ← v.isMember seen then seen else seen ++ [v]) []

/-- A resource that belongs to an owner. An attribute cannot be accessed without an owner. -/
def make (owner : Option (Owner σ)) (getter : Option (Access (Act σ Value)))
    (setter : Option (Access (Value → Act σ PUnit))) (converter : Option Converter := none)
    (allowed : Option (List Value) := none) : Outcome (Resource σ) := do
  let getter ← resolveGetter owner getter
  let setter ← resolveSetter owner setter
  let allowed ← allowed.mapM distinct
  return { getter, setter, converter, allowed := allowed.map .set }

def withUnits (r : Resource σ) (units : Option String) : Resource σ :=
  { r with units, displayUnits := units }

def isReadable (r : Resource σ) : Bool :=
  r.getter.isSome

def isWritable (r : Resource σ) : Bool :=
  r.setter.isSome

/-! ### Values -/

/-- A value has to be a quantity with the dimension of the unit; without a unit it must not be a quantity. -/
def verify (r : Resource σ) (v : Value) : Outcome PUnit := do
  let shown := v.display
  match r.units, v with
  | none, .quantity _ => .error (.because .badType s!"Unexpected Quantity \"{shown}\"")
  | none, _ => return
  | some u, .quantity q =>
    if !(← q.hasUnits u) then
      .error (.because .badType s!"Expected dimensions matching \"{u}\", not \"{shown}\"")
  | some _, _ => .error (.because .badType s!"Expected a Quantity, not \"{shown}\"")

def accepts (r : Resource σ) (v : Value) : Bool :=
  match r.verify v with
  | .ok _ => true
  | .error _ => false

/-- A value passes through filters and is checked after each of them. -/
def passThrough (r : Resource σ) : List (Option (Value → Act σ Value)) → Value → Act σ Value
  | [], v => return v
  | none :: rest, v => passThrough r rest v
  | some f :: rest, v => do
    let w ← f v
    Act.lift (r.verify w)
    passThrough r rest w

def read (r : Resource σ) : Act σ Value := do
  match r.getter with
  | none => .refuse .notReadable "Resource not readable."
  | some get =>
    let v ← get
    Act.lift (r.verify v)
    r.passThrough (r.wrappers.map (·.onRead)) v

/-- Refuses a value that is not among the allowed ones. They are not listed in the message, since a set has no order. -/
def checkAllowed (r : Resource σ) (v : Value) : Outcome PUnit := do
  match r.allowed with
  | none => return
  | some choice =>
    if !(← choice.has v) then
      let shown := v.display
      .error (.because .badValue s!"Given disallowed value: {shown}.")

def write (r : Resource σ) (v : Value) : Act σ PUnit := do
  match r.setter with
  | none => .refuse .notWritable "Resource not writable."
  | some put =>
    Act.lift (r.verify v)
    let w ← r.passThrough (r.wrappers.map (·.onWrite)) v
    Act.lift (r.checkAllowed w)
    put w

def convert (r : Resource σ) (v : Value) : Outcome Value := do
  match r.converter, r.units with
  | some c, _ => c.apply v
  | none, some u =>
    let q ← v.toQuantity
    q.checkUnits u
    return .quantity q
  | none, none => return v

/-! ### Wrappers -/

def wrapped (r : Resource σ) (w : Wrapper σ) : Resource σ :=
  { r with wrappers := r.wrappers ++ [w] }

def dropLastNamed? (name : String) : List (Wrapper σ) → Option (List (Wrapper σ))
  | [] => none
  | w :: rest =>
    match dropLastNamed? name rest with
    | some rest' => some (w :: rest')
    | none => if w.name == name then some rest else none

def isWrappedBy (r : Resource σ) (name : String) : Bool :=
  r.wrappers.any (·.name == name)

def unwrapped (r : Resource σ) (name : String) : Outcome (Resource σ) :=
  match dropLastNamed? name r.wrappers with
  | some wrappers => .ok { r with wrappers }
  | none => .error (.because .badValue s!"Wrapper not found: {name}")

/-! ### Larger states -/

def Wrapper.focus {τ : Type} (get : τ → σ) (put : σ → τ → τ) (w : Wrapper σ) : Wrapper τ :=
  { name := w.name
    onRead := w.onRead.map fun f v => Act.focus get put (f v)
    onWrite := w.onWrite.map fun f v => Act.focus get put (f v) }

def focus {τ : Type} (get : τ → σ) (put : σ → τ → τ) (r : Resource σ) : Resource τ :=
  { r with
    getter := r.getter.map (Act.focus get put)
    setter := r.setter.map fun f v => Act.focus get put (f v)
    wrappers := r.wrappers.map (Wrapper.focus get put) }

end Resource

end LabBench
