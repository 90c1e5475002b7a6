import LabBench.Instrument.Sample
import LabBench.Instrument.Setting
/-!
# Digital multimeters

Multimeters that measure a constant voltage. The integration time is given in periods of the power line.
-/

namespace LabBench.Multimeter

inductive Model where
  | m34410A
  | m34401A
  deriving Repr, DecidableEq

namespace Model

def periods : Model → List Value
  | m34410A => [0.006, 0.02, 0.06, 0.2, 1.0, 2.0, 10.0, 100.0].map .real
  | m34401A => [0.02, 0.2, 1.0, 10.0, 100.0].map .real

def zeroWords : Model → List String
  | m34410A => ["voltage", "dc", "zero", "auto"]
  | m34401A => ["zero", "auto"]

def zeroCommand (m : Model) : String :=
  ":".intercalate ("sense" :: m.zeroWords)

def name : Model → String
  | m34410A => "DM34410A"
  | m34401A => "DM34401A"

end Model

def zeroChoices : List Value :=
  [.text "off", .text "on", .text "once"]

variable {β : Type} [Line β] (model : Model)

def setPeriods (v : Value) : Act (Desk PUnit β) PUnit := do
  Setting.checkChoice "Invalid NPLC value" model.periods v
  Desk.writeValue "sense:voltage:dc:nplc " v

def zero : Act (Desk PUnit β) Value := do
  return Setting.wordAt ["off", "on"] (← Desk.ask (model.zeroCommand ++ "?"))

def setZero (v : Value) : Act (Desk PUnit β) PUnit := do
  Setting.checkChoice "Invalid setting" zeroChoices v
  Desk.writeValue (model.zeroCommand ++ " ") v

def controls : List (String × Control (Desk PUnit β)) :=
  [("reading", .reading (Desk.busy "Taking reading" (Desk.askQuantity "read?" "V"))),
    ("integration_time", .setting (do return .real (← Desk.askFloat "sense:voltage:dc:nplc?")) (setPeriods model)),
    ("auto_zero", .setting (zero model) (setZero model))]

/-- What is done first: a constant voltage is to be measured. -/
def connected : Act (Desk PUnit β) PUnit := do
  Desk.write "configure:voltage:dc"
  if model == .m34401A then setPeriods model (.real 1.0)

def instrument (name : String) : Instrument PUnit β where
  settings := ⟨⟩
  connected := connected model
  panel _ :=
    let resource (isWritable : Bool) (name : String) : Resource (Desk PUnit β) :=
      (Panel.resourceOf (controls model) true isWritable name).2
    { name, controls := controls model
      operations := [Instrument.resetOperation]
      resources :=
        [("reading", (resource false "reading").withUnits (some "V")),
          ("integration_time",
            { resource true "integration_time" with converter := some .float, allowed := some (.set model.periods) }),
          ("auto_zero", { resource true "auto_zero" with allowed := some (.set zeroChoices) })] }

/-! ### Simulation -/

structure Memory (model : Model) where
  periods : String := "1"
  zero : Int := 1

def respondZero (m : Message) : Act (Simulated (Memory model)) (Option Value) := do
  if m.isQuery then return some (.int (← Simulated.consult Memory.zero))
  let zero ← match m.argument with
    | "on" => pure 1
    | "once" | "off" => pure 0
    | _ => .fail (.plain .unassigned)
  Simulated.remember fun s => { s with zero }
  return some .none

def respondSense (m : Message) : Act (Simulated (Memory model)) (Option Value) := do
  if ← m.goesOn 1 ["voltage", "dc"] then
    if (← m.word 3) == "nplc" then
      if m.isQuery then return some (.text (← Simulated.consult Memory.periods))
      Simulated.remember fun s => { s with periods := m.argument }
      return some .none
  if ← m.goesOn 1 model.zeroWords then respondZero model m else return none

def respond (message : String) : Act (Simulated (Memory model)) (Option Value) := do
  let m ← Message.ofText message
  match m.first with
  | "configure" => if ← m.goesOn 1 ["voltage", "dc"] then return some .none else return none
  | "sense" => respondSense model m
  | "read" => if m.isQuery then return some (← Sample.randomReading) else return none
  | _ => return none

instance : Simulation (Memory model) where
  name := "Mock" ++ model.name
  blank := {}
  reset := Simulated.remember fun _ => {}
  respond := respond model
  table m := .table [(.text "mode", .text "dc"), (.text "nplc", .text m.periods), (.text "auto_zero", .int m.zero)]

end LabBench.Multimeter
