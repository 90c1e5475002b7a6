import LabBench.Sweep.Dial
/-!
# Tables of combinations

All combinations of the values of some axes, as the rows of a table.
-/

namespace LabBench.Sweep

structure Axis where
  name : String
  order : Int
  first : Float := 0.0
  last : Float := 0.0
  count : Nat := 1

namespace Axis

def make (name : String) (order : Int) (first last : Float) (count : Int) : Outcome Axis :=
  if count ≤ 0 then .error (.because .badValue s!"Number of steps must be positive, not \"{count}\".")
  else .ok { name, order, first, last, count := count.toNat }

def values (a : Axis) : List (Outcome Value) :=
  (Number.spaced a.first a.last a.count).map fun x => .ok (.real x)

end Axis

/-- A table of combinations. The names are those of the columns. -/
structure Table where
  names : List String
  /-- The orders of the columns, from the fastest to the slowest. -/
  orders : List Int
  periods : Periods
  rows : List (List Float)

namespace Table

def numbers (dials : List Dial) : List Float :=
  (dials.map (·.row)).flatten.filterMap fun
    | .real x => some x
    | _ => none

def rowsAfter : Nat → List Dial → Outcome (List (List Float))
  | 0, _ => .ok []
  | n + 1, dials => do
    let (next, _) ← turnAll dials
    return numbers next :: (← rowsAfter n next)

def ofAxes (axes : List Axis) : Outcome Table := do
  let groups := byOrder Axis.order axes
  let lengths := groups.reverse.filterMap fun g => g.head?.map fun a => (a.order, groupLength Axis.count g)
  let names := groups.flatten.map (·.name)
  let orders := lengths.map (·.1)
  let periods := Periods.ofLengths 1 lengths
  match combinations Axis.count groups, axes with
  | _, [] | 0, _ => return { names, orders, periods, rows := [] }
  | n + 1, _ =>
    let dials ← groups.mapM fun g => Dial.start (g.map Axis.values)
    return { names, orders, periods, rows := numbers dials :: (← rowsAfter n dials) }

/-- The numbers of a column, counted from the end if the position is negative. -/
def column? (t : Table) (position : Int) : Option (List Float) :=
  let width := t.names.length
  let p := if position < 0 then position + width else position
  if 0 ≤ p ∧ p < width then some (t.rows.map fun row => row.getD p.toNat 0.0) else none

end Table

end LabBench.Sweep
