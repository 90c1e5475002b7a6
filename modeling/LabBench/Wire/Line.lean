import LabBench.Clock
/-!
# Lines

An instrument is spoken to over a line. Messages and answers are texts with one character for a byte. The other end of
the line is a real instrument or a simulated one.
-/

namespace LabBench

/-- A state with an instrument at the other end of a line. Queries within a section are answered at its end. -/
class Line (β : Type) extends Clocked β where
  write : String → Act β PUnit
  /-- What the instrument has to say, if it says anything. -/
  readRaw : Act β (Option String)
  /-- Sends a query and reads the answer, which does not come yet within a section. -/
  ask : String → Act β (Option String)
  startSection : Act β PUnit
  /-- Ends a section and gives the answers to the queries in it. -/
  stopSection : Act β (Option (List String))
  identify : Act β (Option String)
  /-- Waits until the instrument is done with everything. -/
  settle : Act β PUnit
  close : Act β PUnit

namespace Line

variable {β : Type} [Line β]

/-- An answer without the blanks at its end. An instrument that says nothing has no answer. -/
def stripped (answer : Option String) : Outcome String :=
  match answer with
  | some s => .ok (String.ofList (Text.trimRight Text.isBlank s.toList))
  | none => .error (.plain .missingAttribute)

def read : Act β String := do
  stripped (← readRaw)

/-- Sends a query and reads the answer with all that ends it. -/
def askRaw (message : String) : Act β (Option String) := do
  write message
  readRaw

end Line

def Value.ofAnswer : Option String → Value
  | some s => .text s
  | Option.none => .none

end LabBench
