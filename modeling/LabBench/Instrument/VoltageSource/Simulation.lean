import LabBench.Instrument.VoltageSource.Basic
import LabBench.Wire.Simulated
/-!
# Simulated voltage sources

A simulated voltage source takes part in the conversations with its converters and remembers the registers of each of
them.
-/

namespace LabBench.VoltageSource.Simulation

structure Registers where
  data : Int := 0
  resolution : Option Int := none

structure Memory (m : Model) where
  outlets : List Registers := []
  chosen : Option Nat := none

def portCount : Model → Nat
  | .sixteen => 16
  | .six | .four => 6

def base : Model → Nat
  | .sixteen => 16
  | .six | .four => 6

def number (m : Model) (a b : Char) : Outcome Nat :=
  match Hex.digit? a, Hex.digit? b with
  | some x, some y =>
    if x < base m && y < base m then .ok (base m * x + y) else .error (.plain .badValue)
  | _, _ => .error (.plain .missingAttribute)

/-! ### Commands -/

def bitsOfByte (c : Char) : List Bool :=
  (List.range 8).map fun i => c.toNat.testBit (7 - i)

def ofBits (bits : List Bool) : Nat :=
  bits.foldl (fun n b => 2 * n + b.toNat) 0

structure Command where
  isReading : Bool
  count : Nat
  register : Nat
  value : Nat
  deriving Repr, DecidableEq

/-- The command in some bits: the first eight describe it, the others are its value. -/
def Command.ofBits (bits : List Bool) : Outcome Command := do
  match bits with
  | [] => .error (.plain .outOfBounds)
  | isReading :: _ =>
    let part (start stop : Nat) : List Bool := (bits.drop start).take (stop - start)
    let count := 1 + Simulation.ofBits (part 1 3)
    let value := part 8 (8 + 8 * count)
    if value.isEmpty then .error (.plain .badValue)
    return { isReading, count, register := Simulation.ofBits (part 4 8), value := Simulation.ofBits value }

variable {m : Model}

def onChosen (f : Registers → Registers) : Act (Simulated (Memory m)) PUnit := do
  let memory ← Simulated.consult id
  match memory.chosen with
  | none => .fail (.plain .missingKey)
  | some number =>
    if memory.outlets.length ≤ number then .fail (.plain .outOfBounds)
    Simulated.remember fun memory => { memory with outlets := memory.outlets.modify number f }

/-- A value whose bytes begin at a position of a register with several bytes. -/
def placed (size : Nat) (c : Command) (start value : Nat) : Outcome Nat :=
  if size < c.register - start + c.count then .error (.plain .badValue)
  else .ok (value * Nat.pow 2 (8 * (size - (c.register - start) - c.count)))

/-- A converter carries out a command. The data register takes the flipped value; the command register has a bit for the
resolution and one that clears the data. -/
def obey (c : Command) : Act (Simulated (Memory m)) PUnit := do
  if c.isReading then return
  if c.register ≤ 2 then
    let data ← placed 3 c 0 (Nat.pow 2 (8 * c.count) - 1 - c.value)
    onChosen fun r => { r with data }
  else if c.register == 4 || c.register == 5 then
    let value ← placed 2 c 4 c.value
    onChosen fun r => { r with resolution := some (if value.testBit 6 then 20 else 16) }
    if value.testBit 5 then onChosen fun r => { r with data := 0 }

/-! ### Conversations -/

def idleMessages : List String :=
  ["0000 0010 000c 0113 0280 0000 0000 ff01", "0000 0010 000c 0112 0280 0000 00ff ff00",
    "0000 0014 0010 0110 0260 0000 0000 0064 0700 0000"]

def choiceStart : List Char :=
  "0000 0010 000c 0111 0280 0000 00ff ".toList

def commandStart : List Char :=
  "0000 0014 0010 0111 0260 0000 0003 ".toList

def replyToChoice (rest : List Char) : Act (Simulated (Memory m)) String := do
  match rest with
  | a :: b :: '0' :: '0' :: _ =>
    let chosen ← number m a b
    Simulated.remember fun memory => { memory with chosen := some chosen }
    return standardReply
  | _ => .fail (.plain .missingAttribute)

def replyToCommand (rest : List Char) : Act (Simulated (Memory m)) String := do
  match rest with
  | a :: b :: '0' :: '0' :: ' ' :: digits =>
    if digits.length < 9 then .fail (.plain .missingAttribute)
    let size ← number m a b
    let data := (Hex.encode (digits.take 9)).take size
    obey (← Command.ofBits (data.flatMap fun c => bitsOfByte (Converter.flip c)))
    let set := String.join (List.replicate size "ff")
    let unset := String.join (List.replicate (4 - size) "00")
    let count := Text.hex 2 size
    return s!"0000 0014 0010 0100 0000 0002 {count}00 0000 {set}{unset}"
  | _ => .fail (.plain .missingAttribute)

/-- The reply to a message in hexadecimal digits. There is none to a message that does not belong to a conversation. -/
def reply (message : String) : Act (Simulated (Memory m)) (Option String) := do
  let cs := message.toList
  if idleMessages.contains message then return some standardReply
  else if message == stateQuestion then return some (Model.stateReply .sixteen)
  else if choiceStart.isPrefixOf cs then return some (← replyToChoice (cs.drop choiceStart.length))
  else if commandStart.isPrefixOf cs then return some (← replyToCommand (cs.drop commandStart.length))
  else return none

def respond (message : String) : Act (Simulated (Memory m)) (Option Value) := do
  match ← reply (Hex.grouped 2 message.toList) with
  | some digits => return some (.text (String.ofList (Hex.encode digits.toList)))
  | none => return some .none

def Registers.table (r : Registers) : Value :=
  .table ((.text "_voltage", .int r.data) :: (r.resolution.map fun n => (Value.text "resolution", Value.int n)).toList)

def Memory.table (memory : Memory m) : Value :=
  .table ((.text "ports", .list (memory.outlets.map Registers.table)) ::
    (memory.chosen.map fun (n : Nat) => (Value.text "port", Value.int n)).toList)

instance : Simulation (Memory m) where
  name := "Mock" ++ m.name
  blank := {}
  reset := Simulated.remember fun memory => { memory with outlets := List.replicate (portCount m) {} }
  respond := respond
  ending := ""
  table := Memory.table
  tableDepth := 2

end LabBench.VoltageSource.Simulation
