import LabBench.Instrument.Directory
/-!
# Setups

A setup says which instrument there is and where it is, so that a connection to it can be made. The resources of an
instrument are known by labels; two sets of labels can be compared.
-/

namespace LabBench

/-- What is noted about an instrument. Anything can be noted. -/
structure Setup where
  entries : List (String × Value)

namespace Setup

def blank (name : Value) : Setup where
  entries := [("name", name), ("address_mode", .none), ("ip_address", .none), ("gpib_board", .int 0),
    ("gpib_pad", .int 0), ("gpib_sad", .int 0), ("usb_resource", .none), ("manufacturer", .none), ("model", .none),
    ("mock", .flag false), ("gui_setup", .none), ("resource_labels", .table [])]

def get (s : Setup) (name : String) : Value :=
  (Entries.get? name s.entries).getD .none

/-- The names under which nothing is noted: the instrument itself and its resources last only as long as the
connection. -/
def passing : List String :=
  ["_device", "resources"]

/-- Notes something. There is no special panel for another instrument. -/
def put (name : String) (v : Value) (s : Setup) : Setup :=
  if name == "device" then ⟨Entries.put "gui_setup" .none s.entries⟩
  else if passing.contains name then s
  else ⟨Entries.put name v s.entries⟩

def isMock (s : Setup) : Bool :=
  (s.get "mock").truth

/-! ### Connections -/

def refusal (message : String) : Fault :=
  .because .connection message

def needed (s : Setup) (name complaint : String) : Outcome Directory.Arguments :=
  match s.get name with
  | .none => .error (refusal complaint)
  | v => .ok [(name, v)]

def addressModes : List Value :=
  [.text "ethernet", .text "gpib", .text "usb"]

/-- The address. A simulated instrument needs none. -/
def address (s : Setup) : Outcome Directory.Arguments :=
  if s.isMock then .ok []
  else
    match s.get "address_mode" with
    | .text "ethernet" => s.needed "ip_address" "No IP address specified."
    | .text "gpib" => .ok (["gpib_board", "gpib_pad", "gpib_sad"].map fun name => (name, s.get name))
    | _ => s.needed "usb_resource" "No USB resource specified."

def known {α : Type 1} (what : String) (name : Value) (find : String → Option α) : Except Fault α :=
  let unknown := refusal (what ++ ": " ++ name.display)
  match name with
  | .text s => (find s).elim (.error unknown) .ok
  | v => .error (if v.isSettled then unknown else .plain .badType)

/-- The first entry that is missing or makes no sense, if there is one; otherwise the address. -/
def checked (s : Setup) : Outcome Directory.Arguments := do
  if !(← (s.get "address_mode").isMember addressModes) then .error (refusal "Invalid address mode specified.")
  if s.get "manufacturer" matches .none || s.get "model" matches .none then
    .error (refusal "No implementation specified.")
  s.address

def maker (s : Setup) : Except Fault (Directory.Maker × Directory.Arguments) :=
  match s.checked with
  | .error f => .error f
  | .ok args =>
    match known "Unknown manufacturer" (s.get "manufacturer") (Directory.makers.lookup ·) with
    | .error f => .error f
    | .ok models =>
      match known "Unknown model" (s.get "model") fun name => models.find? (·.name == name) with
      | .error f => .error f
      | .ok model =>
        match if s.isMock then model.mock else model.real with
        | some m => .ok (m, args)
        | none => .error (refusal ("Unknown kind: " ++ if s.isMock then "mock" else "real"))

def blamed (f : Fault) : Fault :=
  match f.kind with
  | .badValue | .unsupported => refusal "Unable to create device."
  | _ => f

def blamedOnLine (f : Fault) : Fault :=
  match f.kind with
  | .notFound => refusal "Unable to make connection to device."
  | _ => f

/-- Makes the connection and gives the name of the instrument. What was done on the bus is noted in the script. -/
def connect : Act (Setup × Script) String := fun (s, script) =>
  match s.maker with
  | .error f => (.error f, s, script)
  | .ok (maker, args) =>
    match maker.make args { script } with
    | .error f => (.error (blamed f), s, script)
    | .ok (rig, outcome) =>
      let after := if s.isMock then script else rig.script rig.state
      match outcome with
      | .error f => (.error (blamedOnLine f), s, after)
      | .ok _ => (.ok (rig.panel rig.state).name, s.put "device" .none, after)

/-! ### Labels -/

/-- How labels change: which appear, which stand for something else, and which disappear. -/
structure Changes where
  appeared : List String
  changed : List String
  disappeared : List String
  deriving Repr, DecidableEq

def changes {α : Type} [BEq α] (old new : List (String × α)) : Changes where
  appeared := (new.filter fun (label, _) => !Entries.has label old).map (·.1)
  changed := (new.filter fun (label, a) => (Entries.get? label old).any (· != a)).map (·.1)
  disappeared := (old.filter fun (label, _) => !Entries.has label new).map (·.1)

end Setup

end LabBench
