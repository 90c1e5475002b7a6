import LabBench.Wire.Line
/-!
# Simulated instruments

A simulated instrument answers from its memory. All of them understand some common messages; the others are up to the
kind of instrument.
-/

namespace LabBench

open Text

/-! ### Messages to instruments

A message starts with a command, which is a list of words between colons. A question mark after it makes it a query.
The rest of the message is its argument.
-/

structure Message where
  words : List String
  argument : String
  isQuery : Bool
  deriving Repr, DecidableEq

namespace Message

/-- The parts of a text. A text of blanks is no message. -/
def ofText (s : String) : Outcome Message :=
  let (command, rest) := splitFirst s.toList
  let argument := String.ofList (trimRight isBlank rest)
  let words (cs : List Char) : List String := (Text.splitAt ':' cs).map String.ofList
  match command.getLast? with
  | none => .error (.plain .outOfBounds)
  | some c =>
    if c == '?' then .ok ⟨words command.dropLast, argument, true⟩ else .ok ⟨words command, argument, false⟩

def first (m : Message) : String :=
  m.words.headD ""

def word (m : Message) (position : Nat) : Outcome String :=
  match m.words[position]? with
  | some w => .ok w
  | none => .error (.plain .outOfBounds)

/-- Whether words start with other words. Words that end before they differ are too few. -/
def startWith : List String → List String → Outcome Bool
  | _, [] => .ok true
  | [], _ :: _ => .error (.plain .outOfBounds)
  | w :: ws, v :: vs => if w == v then startWith ws vs else .ok false

def goesOn (m : Message) (position : Nat) (expected : List String) : Outcome Bool :=
  startWith (m.words.drop position) expected

end Message

structure Simulated (μ : Type) where
  memory : μ
  clock : Float := 0.0
  /-- The fractions that stand for dice, which are used one after the other and then from the start again. -/
  dice : List Float := []
  rolls : Nat := 0
  output : Option String := none
  answers : Option (List String) := none
  log : List String := []

class Simulation (μ : Type) where
  name : String
  /-- The memory at the start, before it is reset for the first time. -/
  blank : μ
  reset : Act (Simulated μ) PUnit
  /-- The response to a message, which is a value to be said, or nothing to be said (`Value.none`). There is no
  response at all to a message that is not understood. -/
  respond : String → Act (Simulated μ) (Option Value)
  /-- What stands at the end of everything that the instrument says by itself. -/
  ending : String := "\n"
  table : μ → Value := fun _ => .table []
  /-- How many steps into the table lead through tables and lists. Further steps go to the attributes of things. -/
  tableDepth : Nat := 9
  poke : List Value → Value → μ → Outcome μ := fun _ _ _ => .error (.plain .missingKey)

namespace Simulated

variable {μ : Type}

instance : Clocked (Simulated μ) where
  time s := s.clock
  setTime t s := { s with clock := t }

def consult {α : Type} (f : μ → α) : Act (Simulated μ) α := do
  return f (← get).memory

def remember (f : μ → μ) : Act (Simulated μ) PUnit :=
  modify fun s => { s with memory := f s.memory }

/-- A random whole number between two bounds, which are included. -/
def roll (low high : Int) : Act (Simulated μ) Int := do
  let s ← get
  let fraction := s.dice.getD (s.rolls % max s.dice.length 1) 0.0
  set { s with rolls := s.rolls + 1 }
  return low + (← Value.wholePart (fraction * Float.ofInt (high - low + 1)))

def say (v : Value) (ending : String := "\n") : Act (Simulated μ) PUnit :=
  modify fun s => { s with output := match v with
    | .none => none
    | v => some (v.display ++ ending) }

variable [Simulation μ]

def respondCommon (message : String) : Act (Simulated μ) (Option Value) := do
  match message with
  | "*idn?" => return some (.text (Simulation.name μ))
  | "*opc?" => return some (.int 1)
  | "*rst" | "system:preset" =>
    Simulation.reset
    return some .none
  | "system:version?" => return some (.text "42")
  | _ => return none

def receive (message : String) : Act (Simulated μ) PUnit := do
  modify fun s => { s with log := s.log ++ [message] }
  match ← Simulation.respond message with
  | some v => say v (Simulation.ending μ)
  | none =>
    match ← respondCommon message with
    | some v => say v (Simulation.ending μ)
    | none =>
      let shown := Text.quote message
      .refuse .unsupported s!"Cannot understand message: {shown}"

def receiveAnswered (message : String) (response : Value) : Act (Simulated μ) PUnit := do
  modify fun s => { s with log := s.log ++ [message] }
  say response

/-- The answer to a query. Within a section it is kept for later. -/
def query (message : String) : Act (Simulated μ) (Option String) := do
  receive message
  let answer ← Line.stripped (← get).output
  match (← get).answers with
  | none => return some answer
  | some answers =>
    modify fun s => { s with answers := some (answers ++ [answer]) }
    return none

instance : Line (Simulated μ) where
  write := receive
  readRaw := do return (← get).output
  ask := query
  startSection := modify fun s => { s with answers := some [] }
  stopSection := do
    let answers := (← get).answers
    modify fun s => { s with answers := none }
    return answers
  identify := do
    discard (query "*idn?")
    return none
  settle := discard (query "*opc?")
  close := return

def look (memory : μ) (path : List Value) : Outcome Value :=
  match (Simulation.table memory).inner path with
  | .error f =>
    if f.kind == .missingKey && Simulation.tableDepth μ < path.length then .error (.plain .missingAttribute)
    else .error f
  | .ok v => .ok v

def start (dice : List Float) : Outcome (Simulated μ) :=
  match Simulation.reset { memory := Simulation.blank, dice } with
  | (.ok _, s) => .ok s
  | (.error f, _) => .error f

end Simulated

end LabBench
