import LabBench.Quantity.Dimension
/-!
# Quantities

A quantity is a magnitude in base units with its dimension. It remembers the unit in which it was given, and the power
of ten between this unit and the base units, so that it can be shown in it.
-/

namespace LabBench

open Number Text

/-- The exponent of a power of ten: a whole number for a coherent unit, otherwise a sum with logarithms. -/
inductive Quantity.Scale (K : Type) where
  | whole (n : Int)
  | real (x : K)

/-- A magnitude in base units and its dimension, with the unit in which it is shown. -/
structure Quantity (K : Type) where
  magnitude : K
  dimension : Dimension K
  units : String
  scale : Quantity.Scale K

namespace Quantity

variable {K : Type} [Magnitude K]

def Scale.tenTo? : Scale K → Option K
  | whole n => Magnitude.tenPow? n
  | real x => Magnitude.tenToThe? x

/-- The value of a unit without its decades in base units. -/
def unitFactor (terms : List (Unit.Term K)) : K :=
  (Unit.collect terms).foldl (fun f (u, e) => f * Magnitude.power u.factor e) (Magnitude.ofInt 1)

def checkExponents (terms : List (Unit.Term K)) : Outcome PUnit :=
  if terms.all fun t => Magnitude.isFinite t.power then .ok ⟨⟩ else .error (.plain .lookup)

/-- The scale of a unit: the sum of its decades, corrected by the ratio of the magnitudes in base units and in the
unit if they differ. -/
def findScale (decade : Int) (inBase inUnit : K) : Outcome (Scale K) :=
  if Magnitude.same inBase inUnit then .ok (.whole decade)
  else
    match Magnitude.logTen? (Magnitude.abs inBase), Magnitude.logTen? (Magnitude.abs inUnit) with
    | some a, some b => .ok (.real (Magnitude.ofInt decade + (a - b)))
    | _, _ => .error (.plain .badValue)

def make (value : K) (units : String) : Outcome (Quantity K) := do
  let terms ← (Unit.parse (K := K) units).mapError Unit.Problem.fault
  let decade := Unit.decade terms
  let ten ← match Magnitude.tenPow? (K := K) decade with
    | some t => .ok t
    | none => .error (.plain .overflow)
  checkExponents terms
  let inUnit := value * ten
  let inBase := unitFactor terms * inUnit
  let scale ← findScale decade inBase inUnit
  return ⟨inBase, Dimension.ofTerms terms, units, scale⟩

/-- The longest numeral at the start of a text and what follows it; `length` bounds the length of the numeral. -/
def splitNumeralUpTo? (cs : List Char) : Nat → Option (Numeral × List Char)
  | 0 => none
  | length + 1 =>
    match Numeral.parse? (cs.take (length + 1)) with
    | some n => some (n, cs.drop (length + 1))
    | none => splitNumeralUpTo? cs length

def splitNumeral? (s : String) : Option (Numeral × String) :=
  (splitNumeralUpTo? s.toList s.length).map fun (n, rest) => (n, String.ofList rest)

def parse (s : String) : Outcome (Quantity K) :=
  match splitNumeral? s with
  | some (n, units) => make (Magnitude.ofNumeral n) units
  | none => .error (.because .badValue s)

/-- The number that gives the quantity in its own unit. -/
def inUnits (q : Quantity K) : Outcome K :=
  match q.scale.tenTo? with
  | some ten => .ok (q.magnitude / ten)
  | none => .error (.plain .overflow)

/-- The quantity made again from its text: its number is cut to ten significant digits, and spaces in front of the
unit are lost. -/
def renew (q : Quantity K) : Outcome (Quantity K) := do
  let x ← q.inUnits
  make (Magnitude.cutTen x) (String.ofList (trimLeft isSpace q.units.toList))

def sameDimension (a b : Quantity K) : Bool :=
  a.dimension.same b.dimension

def checkDimension (a b : Quantity K) : Outcome PUnit :=
  if a.sameDimension b then .ok ⟨⟩ else .error (.plain .dimension)

def hasUnits (q : Quantity K) (units : String) : Outcome Bool := do
  let one ← make (Magnitude.ofInt 1) units
  return q.sameDimension one

def checkUnits (q : Quantity K) (units : String) : Outcome PUnit := do
  if ← q.hasUnits units then .ok ⟨⟩ else .error (.plain .dimension)

/-! ### Arithmetic -/

def add (a b : Quantity K) : Outcome (Quantity K) := do
  a.checkDimension b
  let c ← a.renew
  return { c with magnitude := c.magnitude + b.magnitude }

def sub (a b : Quantity K) : Outcome (Quantity K) := do
  a.checkDimension b
  let c ← a.renew
  return { c with magnitude := c.magnitude - b.magnitude }

def mul (a : Quantity K) (x : K) : Outcome (Quantity K) := do
  let c ← a.renew
  return { c with magnitude := c.magnitude * x }

def div (a : Quantity K) (x : K) : Outcome (Quantity K) := do
  let c ← a.renew
  return { c with magnitude := c.magnitude / x }

def abs (a : Quantity K) : Outcome (Quantity K) := do
  if Magnitude.less a.magnitude (Magnitude.ofInt 0) then
    let x ← a.inUnits
    make (Magnitude.abs x) a.units
  else
    return a

/-! ### Comparison -/

def equal (a b : Quantity K) : Outcome Bool := do
  a.checkDimension b
  return Magnitude.close a.magnitude b.magnitude

def less (a b : Quantity K) : Outcome Bool := do
  a.checkDimension b
  return Magnitude.less a.magnitude b.magnitude

def unequal (a b : Quantity K) : Outcome Bool :=
  (a.equal b).map (!·)

def atMost (a b : Quantity K) : Outcome Bool := do
  if ← a.equal b then return true
  a.less b

def atLeast (a b : Quantity K) : Outcome Bool :=
  (a.less b).map (!·)

/-- Neither equal up to the tolerance nor less. -/
def greater (a b : Quantity K) : Outcome Bool :=
  (a.atMost b).map (!·)

/-! ### Text -/

/-- The number in the unit of the quantity, with ten significant digits, and the unit. -/
def text (q : Quantity Float) : Outcome String := do
  let x ← q.inUnits
  return general 10 x ++ " " ++ q.units

def quoted (q : Quantity Float) : Outcome String := do
  let t ← q.text
  return s!"Quantity('{t}')"

end Quantity

end LabBench
