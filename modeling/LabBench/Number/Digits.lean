import LabBench.Number.Exact
/-!
# Decimal digits of a fraction

A positive fraction is rounded to a number of significant digits, to a number of decimal places, or to the fewest
digits from which the binary number can be read back.
-/

namespace LabBench.Number

/-- The digits of `value` in order, the first of which stands for `10 ^ exponent`. -/
structure Digits where
  value : Nat
  count : Nat
  exponent : Int
  deriving Repr, DecidableEq

/-- The exponent of the first digit of a positive fraction, by an estimate from the binary lengths that is at most
two too small. -/
def leadingExponent (r : Ratio) : Int :=
  let estimate : Int := (((r.num.log2 : Int) - (r.den.log2 : Int)) * 30103).fdiv 100000 - 2
  let reaches (e : Int) : Bool := ((⟨1, 1⟩ : Ratio).shift e).compare r != .gt
  if reaches (estimate + 4) then estimate + 4
  else if reaches (estimate + 3) then estimate + 3
  else if reaches (estimate + 2) then estimate + 2
  else if reaches (estimate + 1) then estimate + 1
  else estimate

/-- The nearest decimal with `count` digits; a half goes to the even neighbour. -/
def significant (count : Nat) (r : Ratio) : Digits :=
  let e := leadingExponent r
  let d := (r.shift (count - 1 - e)).round
  if d == Nat.pow 10 count then ⟨Nat.pow 10 (count - 1), count, e + 1⟩ else ⟨d, count, e⟩

/-- The decimals between which the reading of a binary number `m * 2 ^ e` does not change, in units of
`2 ^ (e - 2)`: half the distance to the neighbours, which below a power of two is half as large. -/
def readingBounds (m : Nat) (e : Int) : Nat × Nat :=
  (if m == Nat.pow 2 52 && -1074 < e then 4 * m - 1 else 4 * m - 2, 4 * m + 2)

/-- Whether a decimal reads back as `m * 2 ^ e`. The bounds themselves do so if `m` is even. -/
def readsBack (m : Nat) (e : Int) (decimal : Ratio) : Bool :=
  let (lo, hi) := readingBounds m e
  let lower := (Ratio.ofBinary lo (e - 2)).compare decimal
  let upper := decimal.compare (Ratio.ofBinary hi (e - 2))
  if m % 2 == 0 then lower != .gt && upper != .gt else lower == .lt && upper == .lt

/-- The distance of a decimal from a fraction, over a common denominator. -/
def Ratio.gap (a b : Ratio) : Nat :=
  let x := a.num * b.den
  let y := b.num * a.den
  if x ≤ y then y - x else x - y

/-- The decimal with `count` digits that is nearest among those that read back. -/
def candidate? (m : Nat) (e : Int) (count : Nat) : Option Digits :=
  let r := Ratio.ofBinary m e
  let lead := leadingExponent r
  let scale : Int := count - 1 - lead
  let scaled := r.shift scale
  let below := scaled.num / scaled.den
  let decimal (d : Nat) : Ratio := (⟨d, 1⟩ : Ratio).shift (-scale)
  let fits (d : Nat) : Bool := d != 0 && readsBack m e (decimal d)
  let chosen : Option Nat :=
    if fits below && fits (below + 1) then
      let nearer := Ord.compare (scaled.gap ⟨below, 1⟩) (scaled.gap ⟨below + 1, 1⟩)
      some (if nearer == .lt || (nearer == .eq && below % 2 == 0) then below else below + 1)
    else if fits below then some below
    else if fits (below + 1) then some (below + 1)
    else none
  chosen.map fun d => if d == Nat.pow 10 count then ⟨Nat.pow 10 (count - 1), count, lead + 1⟩ else ⟨d, count, lead⟩

/-- The shortest decimal that reads back as `m * 2 ^ e`, of which 17 digits are always enough. -/
def shortest (m : Nat) (e : Int) : Digits :=
  ((List.range' 1 17).findSome? (candidate? m e)).getD (significant 17 (Ratio.ofBinary m e))

/-- The digits without the zeros at the end, but with at least one digit. -/
def Digits.text (d : Digits) : List Char :=
  let ds := Nat.toDigits 10 d.value
  List.replicate (d.count - ds.length) '0' ++ ds

end LabBench.Number
