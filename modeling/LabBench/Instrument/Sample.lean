import LabBench.Instrument.Basic
import LabBench.Wire.Simulated
/-!
# The sample instrument

An instrument with one setting and one reading, which shows what instruments have.
-/

namespace LabBench.Sample

variable {β : Type} [Line β]

def choices : List Value :=
  [.text "default value", .text "something else", .text "..."]

def setSetting (v : Value) : Act (Desk PUnit β) PUnit := do
  if !(← v.isListed choices) then
    let shown := v.display
    .refuse .badValue s!"Invalid setting: {shown}"
  Desk.writeValue "some:setting " v

def controls : List (String × Control (Desk PUnit β)) :=
  [("reading", .reading (Desk.askQuantity "read?" "A")),
    ("setting", .setting (Desk.ask "some:setting?") setSetting)]

def instrument (name : String) : Instrument PUnit β where
  settings := ⟨⟩
  connected := setSetting (.text "...")
  panel _ :=
    { name, controls
      operations := [Instrument.resetOperation]
      resources :=
        let reading := Panel.resourceOf controls true false "reading"
        let setting := Panel.resourceOf controls true true "setting"
        [(reading.1, reading.2.withUnits (some "A")), (setting.1, { setting.2 with allowed := some (.list choices) })] }

/-! ### Simulation -/

structure Memory where
  setting : String := ""

def randomReading {μ : Type} : Act (Simulated μ) Value := do
  let digits := Text.padded 4 (← Simulated.roll 0 9999).toNat
  return .text s!"-1.{digits}0000E-02"

def respond (message : String) : Act (Simulated Memory) (Option Value) := do
  let m ← Message.ofText message
  match m.first with
  | "some" =>
    if (← m.word 1) != "setting" then return none
    if m.isQuery then return some (.text (← Simulated.consult Memory.setting))
    Simulated.remember fun _ => { setting := m.argument }
    return some .none
  | "read" => if m.isQuery then return some (← randomReading) else return none
  | _ => return none

instance : Simulation Memory where
  name := "MockABC1234"
  blank := {}
  reset := Simulated.remember fun _ => { setting := "default value" }
  respond := respond
  table m := .table [(.text "setting", .text m.setting)]

end LabBench.Sample
