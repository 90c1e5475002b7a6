import LabBench.Entries
import LabBench.Sweep.Variable
/-!
# Dials

A group of variables runs through its rows of values like a dial, and several groups like the dials of a counter: the
last one turns with every item, and whenever a dial starts again the one before it moves on.
-/

namespace LabBench.Sweep

/-- The values of all variables of a group at a position, unless one of them has no more values. -/
def rowAt (position : Nat) : List (List (Outcome Value)) → Outcome (Option (List Value))
  | [] => .ok (some [])
  | column :: columns =>
    match column[position]? with
    | none => .ok none
    | some (.error f) => .error f
    | some (.ok v) => do
      match ← rowAt position columns with
      | none => return none
      | some row => return some (v :: row)

/-- A group of variables together with the row at which it stands. -/
structure Dial where
  columns : List (List (Outcome Value))
  position : Nat
  row : List Value

namespace Dial

def start (columns : List (List (Outcome Value))) : Outcome Dial := do
  match ← rowAt 0 columns with
  | some row => return ⟨columns, 0, row⟩
  | none => .error (.plain .exhausted)

def turn (d : Dial) : Outcome (Option Dial) := do
  match ← rowAt (d.position + 1) d.columns with
  | some row => return some ⟨d.columns, d.position + 1, row⟩
  | none => return none

end Dial

/-- The dials of the next item and the position of the one that moved on. All dials after it have started again; if
there is no such dial, all have started again. -/
def turnAll : List Dial → Outcome (List Dial × Option Nat)
  | [] => .ok ([], none)
  | d :: rest => do
    let (rest', moved) ← turnAll rest
    match moved with
    | some k => return (d :: rest', some (k + 1))
    | none =>
      match ← d.turn with
      | some d' => return (d' :: rest', some 0)
      | none => return ((← Dial.start d.columns) :: rest', none)

/-! ### Periods -/

/-- After how many items each order is through with its values, from the lowest order to the highest. -/
abbrev Periods := List (Int × Nat)

namespace Periods

/-- The periods of groups, of which the orders and lengths are given from the fastest group to the slowest. -/
def ofLengths (before : Nat) : List (Int × Nat) → Periods
  | [] => []
  | (order, length) :: rest => (order, before * length) :: ofLengths (before * length) rest

/-- An order without variables is sorted in. It has the period of the next lower order, or changes with every item. -/
def add (periods : Periods) (order : Int) : Periods :=
  if Entries.has order periods then periods
  else
    let orders := (periods.map (·.1) ++ [order]).mergeSort fun a b => decide (a ≤ b)
    let lengths := periods.map (·.2)
    let index := orders.idxOf order
    orders.zip (lengths.insertIdx index (if index > 0 then lengths.getD (index - 1) 1 else 1))

/-- The orders that are through with their values after a number of items, from the lowest to the highest. -/
def completed (periods : Periods) (items : Nat) : List Int :=
  (periods.filter fun (_, p) => items % p == 0).map (·.1)

end Periods

end LabBench.Sweep
