import LabBench.Fault
import LabBench.Number.Numeral
/-!
# Tables of comma separated values

A record stands on a line, and its fields are separated by commas. A field in double quotes may contain commas, line
ends, and double quotes that are written twice. No field may be longer than a limit.
-/

namespace LabBench.Text

open Number

inductive Phase where
  | recordStart
  | fieldStart
  | field
  | quoted
  | quoteInQuoted
  | lineEnd
  deriving Repr, DecidableEq

def fieldLimit : Nat := 131072

/-- A record in the making; the parts are in reverse order. -/
structure Record where
  phase : Phase := .recordStart
  field : List Char := []
  /-- The number of characters in the current field. -/
  size : Nat := 0
  fields : List String := []
  size_eq : size = field.length := by rfl

namespace Record

def save (r : Record) (next : Phase) : Record where
  phase := next
  fields := String.ofList r.field.reverse :: r.fields

/-- One more character in the current field, which must not be full. -/
def add (r : Record) (c : Char) (next : Phase) : Outcome Record :=
  if r.size < fieldLimit then
    .ok { r with phase := next, field := c :: r.field, size := r.size + 1, size_eq := by simp [r.size_eq] }
  else .error (.plain .other)

def startField (r : Record) (c : Char) : Outcome Record :=
  if c == '\n' || c == '\r' then .ok (r.save .lineEnd)
  else if c == '"' then .ok { r with phase := .quoted }
  else if c == ',' then .ok (r.save .fieldStart)
  else r.add c .field

def feed (r : Record) (c : Char) : Outcome Record :=
  match r.phase with
  | .recordStart =>
    if c == '\n' || c == '\r' then .ok { r with phase := .lineEnd } else r.startField c
  | .fieldStart => r.startField c
  | .field =>
    if c == '\n' || c == '\r' then .ok (r.save .lineEnd)
    else if c == ',' then .ok (r.save .fieldStart)
    else r.add c .field
  | .quoted => if c == '"' then .ok { r with phase := .quoteInQuoted } else r.add c .quoted
  | .quoteInQuoted =>
    if c == '"' then r.add c .quoted
    else if c == ',' then .ok (r.save .fieldStart)
    else if c == '\n' || c == '\r' then .ok (r.save .lineEnd)
    else r.add c .field
  | .lineEnd => if c == '\n' || c == '\r' then .ok r else .error (.plain .other)

/-- The record after the end of a line of the table. A quoted field goes on in the next line. -/
def endLine (r : Record) : Record :=
  match r.phase with
  | .recordStart => r
  | .quoted => r
  | .lineEnd => { r with phase := .recordStart }
  | _ => r.save .recordStart

end Record

/-- The records of a table. After a line that cannot be read there are no more. -/
def recordsFrom (r : Record) : List (List Char) → List (Outcome (List String))
  | [] => if r.phase == .quoted then [.ok (r.save .recordStart).fields.reverse] else []
  | line :: rest =>
    match line.foldlM Record.feed r with
    | .error f => [.error f]
    | .ok read =>
      let ended := read.endLine
      if ended.phase == .recordStart then .ok ended.fields.reverse :: recordsFrom {} rest
      else recordsFrom ended rest

def records (lines : List (List Char)) : List (Outcome (List String)) :=
  recordsFrom {} lines

/-- The lines of a file with their ends, which are all turned into line feeds. -/
def fileLines : List Char → List (List Char)
  | [] => []
  | '\r' :: '\n' :: rest => ['\n'] :: fileLines rest
  | c :: rest =>
    if c == '\n' || c == '\r' then ['\n'] :: fileLines rest
    else
      match fileLines rest with
      | [] => [[c]]
      | l :: ls => (c :: l) :: ls

def isBlankField (s : String) : Bool :=
  !s.isEmpty && s.toList.all isSpace

def fieldNumber (s : String) : Outcome Float :=
  match readFloat? s with
  | some x => .ok x
  | none => .error (.plain .badValue)

/-- All numbers of a table, record by record. Blank fields are left out. -/
def readNumbers (lines : List (List Char)) : Outcome (List Float) := do
  let rows ← (records lines).mapM fun r => do
    let fields ← r
    (fields.filter (!isBlankField ·)).mapM fieldNumber
  return rows.flatten

end LabBench.Text
