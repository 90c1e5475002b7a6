import LabBench.Number.Digits
/-!
# Layouts of numbers

How the digits of a number are laid out: with a fixed number of places, with an exponent, whichever of the two is
shorter, or plainly with the fewest digits that read back.
-/

namespace LabBench.Number

/-- How infinite numbers and the missing number are written, with the sign of the former. -/
def special (x : Float) : Option String :=
  match Exact.ofFloat x with
  | .nan => some "nan"
  | .infinite negative => some (if negative then "-inf" else "inf")
  | .finite .. => none

/-- A minus sign in front of negative numbers, the negative zero included. -/
def sign (x : Float) : String :=
  if isNegative x then "-" else ""

def size (x : Float) : Ratio :=
  match Exact.ofFloat x with
  | .finite _ m e => Ratio.ofBinary m e
  | _ => ⟨0, 1⟩

/-- The nearest decimal with `count` digits; zero has only zeros. -/
def digitsOf (count : Nat) (x : Float) : Digits :=
  let r := size x
  if r.num == 0 then ⟨0, count, 0⟩ else significant count r

def exponentText (letter : Char) (e : Int) : String :=
  let ds := Nat.toDigits 10 e.natAbs
  let padding := if ds.length < 2 then "0" else ""
  letter.toString ++ (if e < 0 then "-" else "+") ++ padding ++ String.ofList ds

def fraction (ds : List Char) : String :=
  if ds.isEmpty then "" else "." ++ String.ofList ds

def dropZeros (ds : List Char) : List Char :=
  (ds.reverse.dropWhile (· == '0')).reverse

/-- Digits of which the first stands for `10 ^ exponent`, without an exponent. -/
def positional (ds : List Char) (exponent : Int) : List Char × List Char :=
  if exponent < 0 then (['0'], List.replicate (exponent.natAbs - 1) '0' ++ ds)
  else
    let whole := exponent.toNat + 1
    (ds.take whole ++ List.replicate (whole - ds.length) '0', ds.drop whole)

/-- One digit, a point, `places` digits and an exponent of at least two digits. The case of the letter before the
exponent is the case of everything. -/
def scientific (places : Nat) (letter : Char) (x : Float) : String :=
  ((special x).map fun word => if letter.isUpper then word.map Char.toUpper else word).getD <|
    let d := digitsOf (places + 1) x
    sign x ++ String.ofList (d.text.take 1) ++ fraction (d.text.drop 1) ++ exponentText letter d.exponent

def fixed (places : Nat) (x : Float) : String :=
  (special x).getD <|
    let r := size x
    let scaled := (r.shift places).round
    let ds := Nat.toDigits 10 scaled
    let padded := List.replicate (places + 1 - ds.length) '0' ++ ds
    let whole := padded.length - places
    sign x ++ String.ofList (padded.take whole) ++ fraction (padded.drop whole)

/-- At most `count` significant digits without zeros at the end. The exponent is written where it is under -4 or
where the digits would not reach the point. -/
def general (count : Nat) (x : Float) : String :=
  (special x).getD <|
    let d := digitsOf count x
    if d.exponent < -4 || (count : Int) ≤ d.exponent then
      sign x ++ String.ofList (d.text.take 1) ++ fraction (dropZeros (d.text.drop 1)) ++
        exponentText 'e' d.exponent
    else
      let (whole, rest) := positional d.text d.exponent
      sign x ++ String.ofList whole ++ fraction (dropZeros rest)

/-- The fewest digits that read back, with at least one place; from `10 ^ 16` on and under `10 ^ -4` with an
exponent. -/
def plain (x : Float) : String :=
  (special x).getD <|
    match Exact.ofFloat x with
    | .finite _ m e =>
      if m == 0 then sign x ++ "0.0"
      else
        let d := shortest m e
        let ds := dropZeros d.text
        if d.exponent < -4 || 16 ≤ d.exponent then
          sign x ++ String.ofList (ds.take 1) ++ fraction (ds.drop 1) ++ exponentText 'e' d.exponent
        else
          let (whole, rest) := positional ds d.exponent
          sign x ++ String.ofList whole ++ fraction (if rest.isEmpty then ['0'] else rest)
    | _ => ""

def ofDigits (negative : Bool) (d : Nat) (exponent : Int) : Float :=
  let x := Float.ofScientific d (exponent < 0) exponent.natAbs
  if negative then -x else x

def cutDigits (count : Nat) (x : Float) : Float :=
  match Exact.ofFloat x with
  | .finite negative m _ =>
    if m == 0 then x
    else
      let d := digitsOf count x
      ofDigits negative d.value (d.exponent - (count - 1))
  | _ => x

/-- The number rounded to `places` decimal places, a half to the even neighbour. -/
def roundPlaces (places : Nat) (x : Float) : Float :=
  match Exact.ofFloat x with
  | .finite negative m e => ofDigits negative ((Ratio.ofBinary m e).shift places).round (-places)
  | _ => x

end LabBench.Number
