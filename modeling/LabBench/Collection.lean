import LabBench.Value
/-!
# Collections

Small tools for collections of values and names.
-/

namespace LabBench

/-- Neighbours that are equal become one, and their counts are added. -/
def runs {α : Type} [BEq α] (xs : List (α × Nat)) : List (α × Nat) :=
  (xs.foldl (fun seen (x, n) =>
    match seen with
    | (y, k) :: rest => if y == x then (y, k + n) :: rest else (x, n) :: seen
    | [] => [(x, n)]) []).reverse

namespace Value

/-- The elements of a collection. Those of a text are its characters, those of a table its keys. -/
def elements : Value → Outcome (List Value)
  | list items => .ok items
  | tuple items => .ok items
  | table entries => .ok (entries.map (·.1))
  | text s => .ok (s.toList.map fun c => .text c.toString)
  | _ => .error (.plain .badType)

def flatten (items : List Value) : Outcome (List Value) := do
  return (← items.mapM elements).flatten

inductive Variety where
  | int
  | text
  | real
  | list
  | quantity
  | flag
  deriving Repr, DecidableEq

/-- Whether a value is of a variety. A switch is a whole number as well. -/
def isOf : Variety → Value → Bool
  | .int, .int _ | .int, .flag _ => true
  | .text, .text _ => true
  | .real, .real _ => true
  | .list, .list _ => true
  | .quantity, .quantity _ => true
  | .flag, .flag _ => true
  | _, _ => false

def sift (variety : Variety) (items : List Value) : List Value :=
  items.filter (isOf variety)

end Value

/-! ### Closed sets of names -/

namespace NameSet

inductive Meaning where
  | member (name : String)
  | operation
  deriving Repr, DecidableEq

def operations : List String :=
  ["add", "clear", "copy", "difference", "difference_update", "discard", "intersection", "intersection_update",
    "isdisjoint", "issubset", "issuperset", "pop", "remove", "symmetric_difference", "symmetric_difference_update",
    "union", "update", "__and__", "__class__", "__class_getitem__", "__contains__", "__delattr__", "__dict__",
    "__dir__", "__eq__", "__format__", "__ge__", "__getattribute__", "__getstate__", "__gt__", "__hash__", "__iand__",
    "__init__", "__init_subclass__", "__ior__", "__isub__", "__iter__", "__ixor__", "__le__", "__len__", "__lt__",
    "__ne__", "__new__", "__or__", "__rand__", "__reduce__", "__reduce_ex__", "__repr__", "__ror__", "__rsub__",
    "__rxor__", "__setattr__", "__sizeof__", "__str__", "__sub__", "__subclasshook__", "__weakref__", "__xor__"]

/-- What a name means; members go before operations. -/
def look (members : List String) (name : String) : Outcome Meaning :=
  if members.contains name then .ok (.member name)
  else if operations.contains name then .ok .operation
  else .error (.plain .missingAttribute)

/-- The members of a set in their order, each of them once. -/
def sorted (members : List String) : List String :=
  members.eraseDups.mergeSort fun a b => decide (a ≤ b)

end NameSet

/-! ### File dialogs -/

/-- A part of a file filter must not contain a bar, which separates the parts. -/
def checkFilterPart (s : String) : Outcome PUnit :=
  if s.contains '|' then .error (.because .badValue s) else .ok ⟨⟩

/-- The choice of files in a file dialog: those with an extension, which may have a description, and all files. -/
def fileFilter (extension description : Option String) : Outcome String := do
  let all := "All files|*"
  match extension with
  | none => return all
  | some e =>
    checkFilterPart e
    match description with
    | none => return s!"(*.{e})|*.{e}|{all}"
    | some d =>
      checkFilterPart d
      return s!"{d} (*.{e})|*.{e}|{all}"

end LabBench
