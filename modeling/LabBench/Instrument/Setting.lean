import LabBench.Instrument.Basic
/-!
# Settings of instruments

Most controls of an instrument are of a few kinds. Each of them is known by the start of its messages, which a question
mark makes a query.
-/

namespace LabBench.Setting

variable {κ β : Type} [Line β]

/-! ### Checks -/

def checkChoice (complaint : String) (choices : List Value) (v : Value) : Outcome PUnit := do
  if !(← v.isMember choices) then
    let shown := v.display
    .error (.because .badValue s!"{complaint}: {shown}")

def checkBounds (low high : Value) (v number : Value) : Outcome PUnit := do
  if (← number.less low) || (← number.greater high) then
    let shown := v.display
    let shownLow := low.display
    let shownHigh := high.display
    .error (.because .badValue s!"Value {shown} not within the allowed bounds: {shownLow} to {shownHigh}")

/-! ### Controls -/

def quantity (message units : String) : Control (Desk κ β) :=
  .setting (Desk.askQuantity (message ++ "?") units) (Desk.writeQuantity (message ++ " ") units)

/-- A quantity within bounds. All messages have the same ending. -/
def boundedQuantity (message units : String) (low high : Value) (ending : String := "") : Control (Desk κ β) :=
  .setting (Desk.askQuantity (message ++ "?" ++ ending) units) fun v => do
    let x ← Quantity.toSetting units v (.real 1.0)
    checkBounds low high x x
    Desk.write (message ++ " " ++ x.display ++ ending)

def number (message : String) : Control (Desk κ β) :=
  .setting (do return .real (← Desk.askFloat (message ++ "?"))) (Desk.writeValue (message ++ " "))

def wholeNumber (message : String) : Control (Desk κ β) :=
  .setting (do return .int (← Desk.askInt (message ++ "?"))) (Desk.writeValue (message ++ " "))

def truth (message : String) : Act (Desk κ β) Value := do
  return .flag ((← Desk.askInt message) != 0)

def writeInt (start : String) (v : Value) : Act (Desk κ β) PUnit := do
  Desk.writeValue start (.int (← v.toInt))

def switch (message : String) : Control (Desk κ β) :=
  .setting (truth (message ++ "?")) (writeInt (message ++ " "))

def wordAt (words : List String) (number : Value) : Value :=
  match number with
  | .text s => .ofAnswer ((words.zipIdx.find? fun (_, k) => toString k == s).map (·.1))
  | _ => .none

/-- One of some words. The instrument knows them by their numbers, from zero on. -/
def word (message : String) (words : List String) (complaint : String) : Control (Desk κ β) :=
  .setting (do return wordAt words (← Desk.ask (message ++ "?"))) fun v => do
    checkChoice complaint (words.map .text) v
    let number := words.idxOf v.display
    Desk.write s!"{message} {number}"

def kept (get : κ → Value) (put : Value → κ → κ) : Control (Desk κ β) :=
  .setting (Desk.consult get) fun v => Desk.remember (put v)

def constant (v : Value) : Control (Desk κ β) :=
  .reading (return v)

end LabBench.Setting
