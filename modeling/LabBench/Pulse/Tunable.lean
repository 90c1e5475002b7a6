import LabBench.Pulse.Program
/-!
# Tunable programs

Parameters of a program that bear labels become resources. The resources act on a copy of the program, so that the
program itself keeps its values.
-/

namespace LabBench.Pulse

/-- A program with the copy on which its resources act. -/
structure Tunable where
  program : Program
  copy : Option Program := none
  labels : List Path := []
  resources : List (Path × Resource Program) := []

namespace Tunable

/-- The copy, or the program itself as long as there is no copy. -/
def current (t : Tunable) : Program :=
  t.copy.getD t.program

def setCurrent (p : Program) (t : Tunable) : Tunable :=
  if t.copy.isSome then { t with copy := some p } else { t with program := p }

def onCurrent {α : Type} (act : Act Program α) : Act Tunable α :=
  Act.focus current setCurrent act

/-- More parameters get labels. All resources are made anew, on a new copy. -/
def label (paths : List Path) (t : Tunable) : Outcome Tunable := do
  let labels := t.labels ++ paths.filter fun path => !t.labels.contains path
  let copy ← t.program.detached
  let resources ← labels.mapM fun path => do return (path, ← copy.resource id path)
  return { t with copy := some copy, labels, resources }

def resource (t : Tunable) (path : Path) : Outcome (Resource Program) :=
  match Entries.get? path t.resources with
  | some r => .ok r
  | none => .error (.plain .missingKey)

end Tunable

end LabBench.Pulse
