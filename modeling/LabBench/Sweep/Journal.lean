import LabBench.Sweep.Run
/-!
# The journal of a run

Everything that a run tells about itself can be written down as a sequence of events.
-/

namespace LabBench.Sweep

inductive Event where
  /-- A variable has been set: its group, its place in the group, and the value. -/
  | wrote (group : Int) (place : Nat) (v : Value)
  | measured (number : Nat) (v : Value)
  /-- The values of an item and its measurements, at a time since the first ones. -/
  | data (time : Float) (values measurements : List Value)
  | paused
  /-- A resource has failed while it was written or read. -/
  | resourceFault (name : String) (f : Fault) (writing : Bool)
  | fault (phase : Phase) (f : Fault)
  | closed

/-- Hooks that note every event. Progress and failures are noted only if they are asked for. -/
def Hooks.noting {ρ : Type} (note : Event → Act ρ PUnit) (progress failures : Bool := true) : Hooks ρ where
  onData := some fun time values measurements => note (.data time values measurements)
  onWrite := if progress then some fun group place v => note (.wrote group place v) else none
  onRead := if progress then some fun number v => note (.measured number v) else none
  onClose := if progress then some (note .closed) else none
  onFault := if failures then some fun phase f => note (.fault phase f) else none
  onResourceFault := if failures then some fun name f writing => note (.resourceFault name f writing) else none
  onPause := note .paused

end LabBench.Sweep
