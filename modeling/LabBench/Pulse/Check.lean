import LabBench.Pulse.Environment
/-!
# Checks of pulse programs

Before a program can be run it is gone through three times: for the declarations, for the values that are assigned, and
for the commands. Problems are collected on the way.
-/

namespace LabBench.Pulse.Environment

def isTopLevel (env : Environment) : Bool :=
  env.stack.length == 1

/-! ### Declarations -/

def declareVariable (kind : Kind) (d : Declared) : Act Environment PUnit := do
  match d.path with
  | [] => return
  | name :: _ =>
    let env ← get
    if Entries.has name env.declared then addProblem s!"Re-declaration of \"{name}\"" d.place
    else set { env with declared := Entries.put name kind env.declared }

mutual

def declareIn : Statement → Act Environment PUnit
  | .acquire place => do
    if !(← get).isTopLevel then addProblem "Acquisition not at top level" place
    modify fun env => { env with declared := Entries.put markerName .marker env.declared }
  | .declare place kind names => do
    if !(← get).isTopLevel then addProblem "Declaration not at top level" place
    names.forM (declareVariable kind)
  | .loop _ _ body => within .loop (within .block (declareInAll body))
  | _ => return

def declareInAll : List Statement → Act Environment PUnit
  | [] => return
  | s :: rest => do
    declareIn s
    declareInAll rest

end

/-- All declarations of a program. Every output gets a waveform, and the values that are needed become known. -/
def readDeclarations (block : Block) : Act Environment PUnit := do
  within .block (declareInAll block)
  modify fun env =>
    let outputs := env.declared.filterMap fun (name, kind) => if kind = .output then some name else none
    { env with
      generators := outputs.foldl (fun gs name => Entries.put name (.fresh env.frequency false) gs) env.generators
      required := some (env.declared.flatMap fun (name, kind) => requiredOf name kind) }

/-! ### Values -/

/-- A value is assigned; a value of the wrong kind is a problem. -/
def assignAt (place : Nat) (path : Path) (v : Value) : Act Environment PUnit := do
  match ← Act.attempt (assign path v) with
  | .ok _ => return
  | .error f =>
    let name := Text.quote (path.headD "")
    if f.kind == .badType then addProblem (f.message.getD "") place
    else if f.kind == .missingKey then addProblem s!"Undeclared variable \"{name}\"" place
    else .fail f

/-- The target of an assignment. Attributes have to be known. -/
def checkTarget : Target → Act Environment PUnit
  | .named _ => return
  | .part place owner name => within .assignment do
    match (← get).required with
    | none => .fail (.plain .missingAttribute)
    | some paths =>
      if !paths.contains [owner, name] then addProblem s!"Unrecognized attribute \"{owner}.{name}\"" place

/-- The entries of a dictionary. Of several entries for a key the last one counts, in the place of the first. -/
def distinctEntries (entries : List (String × Value)) : List (String × Value) :=
  entries.foldl (fun es (k, v) => Entries.put k v es) []

def assignContent (a : Assignment) : Act Environment PUnit := do
  checkTarget a.target
  let path := a.target.path
  let name := path.headD ""
  match (← get).kindOf name with
  | none => addProblem s!"Undeclared variable \"{name}\"" a.place
  | some _ =>
    match a.content with
    | .value v => assignAt a.place path v
    | .dictionary entries => (distinctEntries entries).forM fun (k, v) => assignAt a.place (path ++ [k]) v

/-- An assignment is carried out, and should stand at the top level or inside of a declaration. -/
def assignHere (a : Assignment) : Act Environment PUnit := do
  let env ← get
  if !env.isTopLevel && env.stack.head? != some .declaration then
    addProblem "Assignment neither at top level nor inside declaration" a.place
  assignContent a

mutual

def assignIn : Statement → Act Environment PUnit
  | .assign a => assignHere a
  | .declare _ _ names =>
    names.forM fun d => within .declaration do
      match d with
      | .plain _ _ => return
      | .assigned a => assignHere a
  | .loop _ _ body => within .loop (within .block (assignInAll body))
  | _ => return

def assignInAll : List Statement → Act Environment PUnit
  | [] => return
  | s :: rest => do
    assignIn s
    assignInAll rest

end

def readValues (block : Block) : Act Environment PUnit :=
  within .block (assignInAll block)

/-! ### Commands -/

def expectKind (name : String) (kinds : List Kind) (otherwise : String) (place : Nat) : Act Environment PUnit := do
  match (← get).kindOf name with
  | none => addProblem s!"Undeclared variable \"{name}\"" place
  | some kind => if !kinds.contains kind then addProblem otherwise place

def expectTime (q : Quantity Float) (place : Nat) : Act Environment PUnit := do
  if !(← Act.lift (q.hasUnits "s")) then addProblem "Delay must be a time value" place

def checkPiece (place : Nat) : Piece → Act Environment PUnit
  | .named name => expectKind name [.delay, .pulse] s!"Invalid command \"{name}\"" place
  | .delay q => expectTime q place

def checkTrain (t : Train) : Act Environment PUnit := do
  if !Entries.has t.output (← get).generators then addProblem s!"Undefined output \"{t.output}\"" t.place
  within .train (t.pieces.forM (checkPiece t.place))

mutual

def checkIn : Statement → Act Environment PUnit
  | .acquire place => do
    if (← get).acquisition then addProblem "Repeated acquisition" place
    else modify fun env => { env with acquisition := true }
  | .delay place length =>
    match length with
    | .named name => expectKind name [.delay] "Not a delay" place
    | .literal q => expectTime q place
  | .pulses trains => within .pulses (trains.forM checkTrain)
  | .loop place count body => do
    match count with
    | .named name => expectKind name [.int] "Repetition count must be int" place
    | .literal _ => pure ⟨⟩
    within .loop (within .block (checkInAll body))
  | _ => return

def checkInAll : List Statement → Act Environment PUnit
  | [] => return
  | s :: rest => do
    checkIn s
    checkInAll rest

end

def checkCommands (block : Block) : Act Environment PUnit :=
  within .block (checkInAll block)

end LabBench.Pulse.Environment
