/-!
# The exact value of a binary number

A finite binary number is a whole multiple of a power of two. Rounding, printing and truncation start from this exact
value and use whole numbers only.
-/

namespace LabBench.Number

/-- The value of a binary number: `finite negative m e` is `m * 2 ^ e`, with its sign. -/
inductive Exact where
  | nan
  | infinite (negative : Bool)
  | finite (negative : Bool) (mantissa : Nat) (exponent : Int)
  deriving Repr, DecidableEq

structure Ratio where
  num : Nat
  den : Nat
  deriving Repr, DecidableEq

def Ratio.ofBinary (m : Nat) (e : Int) : Ratio :=
  if e < 0 then ⟨m, Nat.pow 2 e.natAbs⟩ else ⟨m * Nat.pow 2 e.natAbs, 1⟩

def Ratio.shift (r : Ratio) (e : Int) : Ratio :=
  if e < 0 then ⟨r.num, r.den * Nat.pow 10 e.natAbs⟩ else ⟨r.num * Nat.pow 10 e.natAbs, r.den⟩

/-- The comparison of two fractions by cross multiplication. -/
def Ratio.compare (a b : Ratio) : Ordering :=
  Ord.compare (a.num * b.den) (b.num * a.den)

/-- Eleven bits of exponent and 52 bits of mantissa; a leading one is implied unless the exponent bits are zero. -/
def Exact.ofFloat (x : Float) : Exact :=
  let bits := x.toBits.toNat
  let negative := bits / Nat.pow 2 63 == 1
  let exponent : Nat := bits / Nat.pow 2 52 % Nat.pow 2 11
  let mantissa : Nat := bits % Nat.pow 2 52
  if exponent == 2047 then
    if mantissa == 0 then .infinite negative else .nan
  else if exponent == 0 then .finite negative mantissa (-1074)
  else .finite negative (mantissa + Nat.pow 2 52) ((exponent : Int) - 1075)

/-- The quotient rounded to the nearest whole number; a half goes to the even neighbour. -/
def roundDiv (num den : Nat) : Nat :=
  let q := num / den
  let r := num % den
  if 2 * r < den then q
  else if den < 2 * r then q + 1
  else q + q % 2

def Ratio.round (r : Ratio) : Nat :=
  roundDiv r.num r.den

theorem roundDiv_near (num den : Nat) (h : 0 < den) :
    2 * (roundDiv num den * den) ≤ 2 * num + den ∧ 2 * num ≤ 2 * (roundDiv num den * den) + den := by
  have hm := Nat.div_add_mod num den
  have hr := Nat.mod_lt num h
  have hc : den * (num / den) = num / den * den := Nat.mul_comm ..
  unfold roundDiv
  dsimp only
  split
  · omega
  · split
    · rw [Nat.add_mul]; omega
    · have : num / den % 2 = 0 ∨ num / den % 2 = 1 := by omega
      rcases this with h0 | h0 <;> rw [h0, Nat.add_mul] <;> omega

/-- The whole part of a number, which is the number with its fraction cut off. Only finite numbers have one. -/
def truncate? (x : Float) : Option Int :=
  match Exact.ofFloat x with
  | .finite negative m e =>
    let r := Ratio.ofBinary m e
    let size : Int := (r.num / r.den : Nat)
    some (if negative then -size else size)
  | _ => none

def isNegative (x : Float) : Bool :=
  x.toBits >>> 63 == 1

/-- A whole number as a binary number, rounded to the nearest; too large ones have none. -/
def ofInt? (n : Int) : Option Float :=
  let x := Float.ofInt n
  if x.isInf then none else some x

end LabBench.Number
