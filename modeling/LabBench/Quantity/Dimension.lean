import LabBench.Quantity.Unit
/-!
# Dimensions

The dimension of a quantity is given by seven exponents, one for each base unit.
-/

namespace LabBench

/-- The exponents of kilogram, metre, second, ampere, candela, mole and kelvin. -/
structure Dimension (K : Type) where
  mass : K
  length : K
  time : K
  current : K
  intensity : K
  amount : K
  temperature : K

namespace Dimension

variable {K : Type} [Magnitude K]

def ofInts (mass length time current intensity amount temperature : Int) : Dimension K where
  mass := Magnitude.ofInt mass
  length := Magnitude.ofInt length
  time := Magnitude.ofInt time
  current := Magnitude.ofInt current
  intensity := Magnitude.ofInt intensity
  amount := Magnitude.ofInt amount
  temperature := Magnitude.ofInt temperature

def pure : Dimension K :=
  ofInts 0 0 0 0 0 0 0

def ofSymbol : Unit.Symbol → Dimension K
  | .ampere => ofInts 0 0 0 1 0 0 0
  | .candela => ofInts 0 0 0 0 1 0 0
  | .gram => ofInts 1 0 0 0 0 0 0
  | .kelvin => ofInts 0 0 0 0 0 0 1
  | .metre => ofInts 0 1 0 0 0 0 0
  | .mole => ofInts 0 0 0 0 0 1 0
  | .second => ofInts 0 0 1 0 0 0 0
  | .hertz => ofInts 0 0 (-1) 0 0 0 0
  | .joule => ofInts 1 2 (-2) 0 0 0 0
  | .newton => ofInts 1 1 (-2) 0 0 0 0
  | .tesla => ofInts 1 0 (-2) (-1) 0 0 0
  | .volt => ofInts 1 2 (-3) (-1) 0 0 0
  | .gauss => ofInts 1 0 (-2) (-1) 0 0 0

def zipWith (f : K → K → K) (a b : Dimension K) : Dimension K where
  mass := f a.mass b.mass
  length := f a.length b.length
  time := f a.time b.time
  current := f a.current b.current
  intensity := f a.intensity b.intensity
  amount := f a.amount b.amount
  temperature := f a.temperature b.temperature

def times (a b : Dimension K) : Dimension K :=
  zipWith (· + ·) a b

def raise (a : Dimension K) (e : K) : Dimension K :=
  zipWith (fun x _ => x * e) a a

/-- The seven exponents with the names of the base units, in the order in which they are written. -/
def toList (d : Dimension K) : List (String × K) :=
  [("kg", d.mass), ("m", d.length), ("s", d.time), ("A", d.current), ("cd", d.intensity), ("mol", d.amount),
    ("K", d.temperature)]

def support (d : Dimension K) : List (String × K) :=
  d.toList.filter fun (_, e) => !Magnitude.same e (Magnitude.ofInt 0)

def same (a b : Dimension K) : Bool :=
  (a.toList.zip b.toList).all fun (x, y) => Magnitude.same x.2 y.2

def ofTerms (terms : List (Unit.Term K)) : Dimension K :=
  (Unit.collect terms).foldl (fun d (u, e) => d.times ((ofSymbol u).raise e)) pure

/-- A base unit with an exponent, of which zeros and a point at the end are not written. -/
def powerText (name : String) (e : Float) : String :=
  if e == 1.0 then name
  else
    let digits := (Number.dropZeros (Number.plain e).toList).reverse.dropWhile (· == '.')
    name ++ "**" ++ String.ofList digits.reverse

/-- The base units with positive exponents, then those with negative ones below a line. -/
def text (d : Dimension Float) : String :=
  let above := (d.toList.filter fun (_, e) => 0.0 < e).map fun (u, e) => powerText u e
  let below := (d.toList.filter fun (_, e) => e < 0.0).map fun (u, e) => powerText u (-e)
  let top := "*".intercalate above
  match below with
  | [] => if above.isEmpty then "dimensionless" else top
  | [b] => (if above.isEmpty then "1" else top) ++ "/" ++ b
  | bs => (if above.isEmpty then "1" else top) ++ "/(" ++ "*".intercalate bs ++ ")"

end Dimension

end LabBench
