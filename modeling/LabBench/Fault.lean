/-!
# Faults

What can go wrong, sorted by the kind of cause. A fault that the library itself finds comes with an explanation; one
that a basic operation runs into, such as a look-up or a conversion, has only its kind.
-/

namespace LabBench

inductive Fault.Kind where
  /-- A value of the right type that is not accepted. -/
  | badValue
  | badType
  | dimension
  | missingKey
  | missingAttribute
  | outOfBounds
  /-- A look-up by another criterion that finds nothing. -/
  | lookup
  | overflow
  | zeroDivision
  /-- A condition that was expected to hold and does not. -/
  | violated
  | unsupported
  | system
  | unknownName
  | malformed
  /-- A computation that cannot be carried out on its data. -/
  | infeasible
  | packing
  /-- A failure reported by an instrument on the network or on a serial bus. -/
  | visa
  /-- A failure reported by an instrument on the parallel bus. -/
  | gpib
  | notReadable
  | notWritable
  | timeout
  | notFound
  /-- A connection that is not described properly or cannot be made. -/
  | connection
  | block
  | pulse
  | pulseSyntax
  | exhausted
  | unassigned
  | endless
  | other
  deriving Repr, DecidableEq

/-- A cause with its explanation. The problems of a pulse program are listed one by one. -/
structure Fault where
  kind : Fault.Kind
  message : Option String := none
  problems : List String := []
  deriving Repr, DecidableEq

namespace Fault

def because (kind : Kind) (message : String) : Fault :=
  ⟨kind, some message, []⟩

def plain (kind : Kind) : Fault :=
  ⟨kind, none, []⟩

/-- Quantities of different dimensions are a case of a wrong type. -/
def isTypeFault (f : Fault) : Bool :=
  f.kind == .badType || f.kind == .dimension

end Fault

abbrev Outcome (α : Type) := Except Fault α

/-- A computation on a state. A fault ends it, and the state keeps what was done before. -/
abbrev Act (σ α : Type) := ExceptT Fault (StateM σ) α

namespace Act

variable {σ τ α : Type}

def fail (f : Fault) : Act σ α :=
  throw f

def refuse (kind : Fault.Kind) (message : String) : Act σ α :=
  throw (.because kind message)

/-- A computation that does not need the state. -/
def lift (r : Outcome α) : Act σ α :=
  fun s => (r, s)

/-- The outcome of a computation, which is a fault or a result, together with the state afterwards. -/
def attempt (act : Act σ α) : Act σ (Outcome α) :=
  fun s => match act s with
    | (r, s') => (.ok r, s')

/-- Runs `last` after `act`, whether `act` ends in a fault or not. -/
def always (act : Act σ α) (last : Act σ Unit) : Act σ α :=
  fun s => match act s with
    | (r, s₁) => match last s₁ with
      | (.ok (), s₂) => (r, s₂)
      | (.error f, s₂) => (.error f, s₂)

/-- Repeats a computation until it gives a result. If there is none after `limit` rounds, the wait has no end. -/
def repeatUntil (body : Act σ (Option α)) : Nat → Act σ α
  | 0 => throw (.plain .endless)
  | limit + 1 => do
    match ← body with
    | some a => return a
    | none => repeatUntil body limit

def focus (get : τ → σ) (put : σ → τ → τ) (act : Act σ α) : Act τ α :=
  fun t => match act (get t) with
    | (r, s) => (r, put s t)

end Act

end LabBench
