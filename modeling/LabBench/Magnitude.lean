import LabBench.Number.Layout
import LabBench.Number.Numeral
/-!
# Magnitudes

The numbers that measure quantities. Programs run on binary numbers; the operations that quantities need are collected
in a class, so that the same definitions can be read over exact numbers.
-/

namespace LabBench

open Number

class Magnitude (K : Type) extends Add K, Sub K, Mul K, Div K, Neg K, OfScientific K where
  ofInt : Int → K
  ofNumeral : Numeral → K
  /-- A power of ten with a whole exponent, if it is not too large. -/
  tenPow? : Int → Option K
  /-- A power of ten with any exponent, if it is not too large. -/
  tenToThe? : K → Option K
  /-- The logarithm to base ten, which zero does not have. -/
  logTen? : K → Option K
  power : K → K → K
  abs : K → K
  less : K → K → Bool
  same : K → K → Bool
  isFinite : K → Bool
  truncate? : K → Option Int
  /-- The nearest whole number, if the number is finite; a half goes to the even neighbour. -/
  nearest? : K → Option Int
  /-- The nearest number with ten significant digits. -/
  cutTen : K → K

namespace Magnitude

variable {K : Type} [Magnitude K]

def atMost (a b : K) : Bool :=
  less a b || same a b

/-- Equality up to a relative tolerance of `1e-5` of the second number and an absolute one of `1e-8`. -/
def close (a b : K) : Bool :=
  (isFinite b && atMost (abs (a - b)) (1e-8 + 1e-5 * abs b)) || same a b

end Magnitude

def Number.nearest? (x : Float) : Option Int :=
  match Exact.ofFloat x with
  | .finite negative m e =>
    let size : Int := (Ratio.ofBinary m e).round
    some (if negative then -size else size)
  | _ => none

/-- Powers of ten with exponents from zero on are whole numbers, rounded once. -/
def Number.tenPow? (n : Int) : Option Float :=
  if n < 0 then some (Float.pow 10.0 (Float.ofInt n))
  else if 308 < n then none
  else some (Float.ofScientific 1 false n.toNat)

/-- A power. The first one is the number itself, and so is every power of one. -/
def Number.power (x y : Float) : Float :=
  if y == 1.0 || x == 1.0 then x else Float.pow x y

instance : Magnitude Float where
  ofInt := Float.ofInt
  ofNumeral := Numeral.toFloat
  tenPow? := Number.tenPow?
  tenToThe? x :=
    let y := Float.pow 10.0 x
    if y.isInf && x.isFinite then none else some y
  logTen? x := if x == 0.0 then none else some (Float.log10 x)
  power := Number.power
  abs := Float.abs
  less a b := a < b
  same a b := a == b
  isFinite := Float.isFinite
  truncate? := Number.truncate?
  nearest? := Number.nearest?
  cutTen := cutDigits 10

end LabBench
