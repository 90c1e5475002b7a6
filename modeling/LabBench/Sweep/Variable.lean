import LabBench.Number.Spacing
import LabBench.Value
/-!
# Swept variables

A variable takes the values of its span, or stands at a constant. Variables of one order change together; those of a
lower order run through all their values before one of a higher order moves on.
-/

namespace LabBench.Sweep

open Number

/-! ### Spans: the values that a variable takes -/

inductive Span where
  | even (first last : Float) (count : Nat)
  | listed (values : List Value)

namespace Span

/-- Evenly spaced numbers. There is at least one of them. -/
def evenly (first last : Float) (count : Int) : Outcome Span :=
  if count ≤ 0 then .error (.because .badValue s!"Number of steps must be positive, not \"{count}\".")
  else .ok (.even first last count.toNat)

def values : Span → List Value
  | even first last count => (Number.spaced first last count).map .real
  | listed values => values

def length : Span → Nat
  | even _ _ count => count
  | listed values => values.length

theorem length_values (s : Span) : s.values.length = s.length := by
  cases s <;> simp [values, length, Number.length_spaced]

end Span

/-! ### Waits -/

def Wait.make (v : Value) : Outcome (Quantity Float) :=
  v.toQuantity

def Wait.change (v : Value) : Outcome (Quantity Float) := do
  let wait ← v.toQuantity
  wait.checkUnits "s"
  return wait

/-! ### Variables -/

/-- What is made of the values of a variable before they are set. -/
inductive Form where
  | integer
  | float
  | quantity
  | other (name : String)
  deriving Repr, DecidableEq

namespace Form

def ofName : String → Form
  | "integer" => integer
  | "float" => float
  | "quantity" => quantity
  | name => other name

def name : Form → String
  | integer => "integer"
  | float => "float"
  | quantity => "quantity"
  | other name => name

end Form

structure Variable where
  name : String
  order : Int
  span : Span := .even 0.0 0.0 1
  wait : Quantity Float
  const : Value := .real 0.0
  /-- Whether the variable stands at its constant all the time. -/
  isConst : Bool := false
  resourceName : String := ""
  enabled : Bool := false
  smoothSteps : Int := 10
  /-- Whether the first value is approached smoothly from the constant. -/
  smoothFrom : Bool := false
  /-- Whether the constant is approached smoothly at the end. -/
  smoothTo : Bool := false
  /-- Whether the variable returns smoothly to its first value. -/
  smoothTransition : Bool := false
  form : Form := .float
  units : Option String := none

namespace Variable

def typed (x : Variable) (v : Value) : Outcome Value :=
  match x.form, x.units with
  | .integer, _ => do return .int (← v.toInt)
  | .float, _ => .ok v
  | .quantity, some u => do return .quantity (← v.toQuantity (.text u))
  | form, units =>
    let given := units.getD "None"
    let name := form.name
    .error (.because .badValue s!"Invalid variable setup; type: {name}, units: {given}")

def rawValues (x : Variable) : List Value :=
  if x.isConst then [x.const] else x.span.values

/-- The values in the form of the variable. Each of them may fail on its own. -/
def values (x : Variable) : List (Outcome Value) :=
  x.rawValues.map x.typed

def length (x : Variable) : Nat :=
  if x.isConst then 1 else x.span.length

theorem length_values (x : Variable) : x.values.length = x.length := by
  unfold values rawValues length
  split <;> simp [Span.length_values]

/-! ### Text -/

def shortText (v : Value) : Outcome String :=
  match v.asFloat?, v with
  | some x, _ => x.map (general 6)
  | none, .text _ => .error (.plain .badValue)
  | none, _ => .error (.plain .badType)

def shownValues : Nat := 4

def searchedValues : Nat := 1000

/-- The first values and the last one. A round bracket marks the end that is smooth. -/
def text (x : Variable) : Outcome String := do
  let raw := x.rawValues.take (searchedValues + 1)
  let found ← match x.form with
    | .integer => raw.mapM fun v => do return .int (← v.toInt)
    | _ => pure raw
  let shown ← (found.take shownValues).mapM shortText
  let dots := if shownValues + 1 < found.length then ", ..." else ""
  let last ← match found.getLast? with
    | some v =>
      if shownValues < found.length ∧ found.length ≤ searchedValues then do
        let t ← shortText v
        pure s!", {t}"
      else pure ""
    | none => pure ""
  let opening := if !x.isConst && x.smoothFrom then "(" else "["
  let closing := if !x.isConst && x.smoothTo then ")" else "]"
  let unit := match x.units with
    | some u => " " ++ u
    | none => ""
  return opening ++ ", ".intercalate shown ++ dots ++ last ++ closing ++ unit

end Variable

/-! ### Groups -/

/-- Groups of equal order, from the highest order to the lowest. Within a group the order of the list is kept. -/
def byOrder {α : Type} (order : α → Int) (xs : List α) : List (List α) :=
  (xs.mergeSort fun a b => decide (order b ≤ order a)).splitBy fun a b => order a == order b

/-- The number of values of a group, which ends with its shortest member. -/
def groupLength {α : Type} (length : α → Nat) : List α → Nat
  | [] => 0
  | [a] => length a
  | a :: rest => min (length a) (groupLength length rest)

/-- The number of combinations of the values of groups. -/
def combinations {α : Type} (length : α → Nat) (groups : List (List α)) : Nat :=
  (groups.map (groupLength length)).foldl (· * ·) 1

/-- The groups of the variables that are enabled and the number of the combinations of their values. All constants are
in one group, which comes first. -/
def arrange (all : List Variable) : List (List Variable) × Nat :=
  let enabled := all.filter (·.enabled)
  if enabled.isEmpty then ([], 0)
  else
    let constants := enabled.filter (·.isConst)
    let groups := byOrder Variable.order (enabled.filter (!·.isConst))
    (if constants.isEmpty then groups else constants :: groups, combinations Variable.length groups)

end LabBench.Sweep
