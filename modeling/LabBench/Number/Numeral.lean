import LabBench.Number.Exact
import LabBench.Text.Blank
/-!
# Numerals

The texts that stand for numbers. White space may surround a numeral and single underscores may divide its digits; the
digits may be those of any script.
-/

namespace LabBench.Number

open Text

/-- A written number: `decimal negative d e` is `d * 10 ^ e`, with its sign. -/
inductive Numeral where
  | decimal (negative : Bool) (digits : Nat) (exponent : Int)
  | infinite (negative : Bool)
  | nan
  deriving Repr, DecidableEq

/-- Digits with single underscores between them: their value, how many there are, and what follows. `seen` are the
value and the number of the digits so far. -/
def scanDigits (seen : Nat × Nat) : List Char → (Nat × Nat) × List Char
  | [] => (seen, [])
  | c :: rest =>
    match digitValue? c with
    | some d => scanDigits (seen.1 * 10 + d, seen.2 + 1) rest
    | none =>
      if c == '_' && seen.2 != 0 && (rest.head?.bind digitValue?).isSome then scanDigits seen rest
      else (seen, c :: rest)

def scanSign : List Char → Bool × List Char
  | '-' :: rest => (true, rest)
  | '+' :: rest => (false, rest)
  | cs => (false, cs)

/-- The exponent after the letter `e`, or nothing at the end of the text. -/
def scanExponent? : List Char → Option Int
  | [] => some 0
  | c :: rest =>
    if c == 'e' || c == 'E' then
      let (negative, body) := scanSign rest
      match scanDigits (0, 0) body with
      | ((e, count), []) => if count == 0 then none else some (if negative then -e else e)
      | _ => none
    else none

/-- An unsigned decimal fraction: digits, a point with further digits, and an exponent. -/
def scanDecimal? (negative : Bool) (cs : List Char) : Option Numeral :=
  let ((whole, wholeCount), rest) := scanDigits (0, 0) cs
  match rest with
  | '.' :: afterPoint =>
    -- an underscore may not follow the point, which `scanDigits` sees from the count
    let ((places, placeCount), rest') := scanDigits (0, 0) afterPoint
    if wholeCount + placeCount == 0 then none
    else (scanExponent? rest').map fun e =>
      .decimal negative (whole * Nat.pow 10 placeCount + places) (e - placeCount)
  | _ =>
    if wholeCount == 0 then none
    else (scanExponent? rest).map fun e => .decimal negative whole e

def Numeral.parse? (cs : List Char) : Option Numeral :=
  let (negative, body) := scanSign (trim isSpace cs)
  let word := lower (String.ofList body)
  if word == "inf" || word == "infinity" then some (.infinite negative)
  else if word == "nan" then some .nan
  else scanDecimal? negative body

/-- The nearest binary number. Exponents far outside of the range are answered without computing the power. -/
def Numeral.toFloat : Numeral → Float
  | .decimal negative d e =>
    let length : Int := (Nat.toDigits 10 d).length
    let x :=
      if d == 0 || length + e < -330 then 0.0
      else if 310 < length + e then 1.0 / 0.0
      else Float.ofScientific d (e < 0) e.natAbs
    if negative then -x else x
  | .infinite negative => if negative then -1.0 / 0.0 else 1.0 / 0.0
  | .nan => 0.0 / 0.0

def readFloat? (s : String) : Option Float :=
  (Numeral.parse? s.toList).map Numeral.toFloat

/-- The whole number that a text stands for: a sign and digits. -/
def readInt? (s : String) : Option Int :=
  let (negative, body) := scanSign (trim isSpace s.toList)
  match scanDigits (0, 0) body with
  | ((n, count), []) => if count == 0 then none else some (if negative then -n else n)
  | _ => none

/-- Only digits of the ASCII range, with a sign that may be missing: the whole numbers of a program text. -/
def readDigits? (cs : List Char) : Option Int :=
  let (negative, body) := scanSign cs
  if body.isEmpty || !body.all Char.isDigit then none
  else
    let n := body.foldl (fun n c => n * 10 + (c.toNat - '0'.toNat)) 0
    some (if negative then -n else n)

end LabBench.Number
