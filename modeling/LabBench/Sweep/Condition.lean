import LabBench.Resource.Basic
import LabBench.Sweep.Variable
/-!
# Conditions

A sweep can be held at an item until conditions are met. A condition compares two values, which may be read from
resources.
-/

namespace LabBench.Sweep

inductive Operand (σ : Type) where
  | value (v : Value)
  /-- The value of a resource that is known by its name. -/
  | named (v : Value)
  | resource (r : Resource σ)

structure Condition (σ : Type) where
  left : Operand σ
  relation : String
  right : Operand σ

def operandKinds : List String :=
  ["string", "float", "integer", "quantity", "resource name", "resource"]

def checkOperandKind (kind : String) : Outcome PUnit :=
  if operandKinds.contains kind then .ok ⟨⟩
  else .error (.because .badValue s!"Condition cannot be of type {kind}.")

def relation? : String → Option (Value → Value → Outcome Bool)
  | ">" => some Value.greater
  | "==" => some Value.equal
  | "!=" => some fun a b => (Value.equal a b).map (!·)
  | "<" => some Value.less
  | _ => none

namespace Condition

variable {σ : Type}

/-- The values of both operands, as far as they are read from named resources. A named resource is read once for each
resource of its name, and the last value counts. A name without a resource is a text. -/
def namedValues (c : Condition σ) : Value → Value → List (String × Resource σ) → Act σ (Value × Value)
  | a, b, [] => return (a, b)
  | a, b, (n, r) :: rest => do
    let a' ← match c.left with
      | .named name => if ← Act.lift (Value.equal (.text n) name) then r.read else pure a
      | _ => pure a
    let b' ← match c.right with
      | .named name => if ← Act.lift (Value.equal (.text n) name) then r.read else pure b
      | _ => pure b
    namedValues c a' b' rest

def given : Operand σ → Value
  | .value v => v
  | .named v => v
  | .resource _ => .none

def holds (c : Condition σ) (resources : List (String × Resource σ)) : Act σ Bool := do
  let (a, b) ← c.namedValues (given c.left) (given c.right) resources
  let a ← match c.left with
    | .resource r => r.read
    | _ => pure a
  let b ← match c.right with
    | .resource r => r.read
    | _ => pure b
  match relation? c.relation with
  | some compare => Act.lift (compare a b)
  | none => .fail (.plain .missingKey)

def text (c : Condition σ) : String :=
  (given c.left).display ++ " " ++ c.relation ++ " " ++ (given c.right).display

end Condition

/-- Conditions of which one has to hold, so that the sweep goes on. -/
structure Guard (σ : Type) where
  name : String
  order : Int
  conditions : List (Condition σ)
  /-- The time to wait before the conditions are checked again. -/
  wait : Quantity Float
  enabled : Bool := false

namespace Guard

variable {σ : Type}

/-- Whether one of the conditions holds. Those after it are not looked at. -/
def anyHolds (resources : List (String × Resource σ)) : List (Condition σ) → Act σ Bool
  | [] => return false
  | c :: rest => do
    if ← c.holds resources then return true
    anyHolds resources rest

def holds (g : Guard σ) (resources : List (String × Resource σ)) : Act σ Bool :=
  if g.conditions.isEmpty then return true else anyHolds resources g.conditions

def text (g : Guard σ) : String :=
  "[" ++ ", ".intercalate (g.conditions.map Condition.text) ++ "]"

end Guard

/-- The groups of the guards that are enabled, from the highest order to the lowest. -/
def arrangeGuards {σ : Type} (guards : List (Guard σ)) : List (List (Guard σ)) :=
  byOrder Guard.order (guards.filter (·.enabled))

end LabBench.Sweep
