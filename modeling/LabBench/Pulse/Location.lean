import LabBench.Fault
import LabBench.Text.Blank
import LabBench.Text.Lines
/-!
# Locations in a source

Problems of a program are reported with the line in which they are found and a pointer to the column.
-/

namespace LabBench.Pulse

open Text

/-- A row and a column, with the line itself. The column is an integer since a position between the two characters of
a line end belongs to the following line. -/
structure Location where
  row : Nat
  column : Int
  line : String
  deriving Repr, DecidableEq

/-- The location of a position, where the first of the lines starts at position `start` and is row `row`. -/
def locateIn (position start : Nat) (row : Nat) : List Line → Option Location
  | [] => none
  | l :: rest =>
    if start + l.body.length < position then
      locateIn position (start + l.toList.length) (row + 1) rest
    else some ⟨row, (position : Int) - start + 1, String.ofList l.body⟩

/-- The location of a position in a source. There is none after the last line end. -/
def locate (source : String) (position : Int) : Outcome (Option Location) :=
  if position < 0 || position > source.length then
    .error (.because .badValue s!"Location given ({position}) is outside string")
  else .ok (locateIn position.toNat 0 1 (lines source.toList))

def pointAt (problem : String) (row column : Int) (line : String) : String :=
  s!"error: {problem} at column {column} on line {row}:\n  {line}\n{spaces (column + 1).toNat}^"

def report (problem : String) : Option Location → String
  | none => s!"error: {problem}"
  | some l => pointAt problem l.row l.column l.line

end LabBench.Pulse
