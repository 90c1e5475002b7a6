import LabBench.Fault
import LabBench.Number.Numeral
/-!
# Blocks of binary data

Instruments send binary data in blocks. A block of definite length starts with a number sign, the number of digits of
the length, and the length; a block of indefinite length starts with a number sign and a zero, and ends in a line feed.
Bytes are characters with code points below 256.
-/

namespace LabBench.Block

open Number

def encode (data : List Char) : List Char :=
  let length := Nat.toDigits 10 data.length
  '#' :: Nat.toDigits 10 length.length ++ length ++ data

def position (length : Nat) (p : Int) : Nat :=
  if p < 0 then (length + p).toNat else p.toNat

/-- The part of a text from a start to an end, which may be counted from the end of the text. -/
def slice (cs : List Char) (first : Nat) (last : Int) : List Char :=
  (cs.take (position cs.length last)).drop first

def refuse {α : Type} (message : String) : Outcome α :=
  .error (.because .block message)

/-- The data of a block of definite length, where `k` is the digit for the number of digits of the length. -/
def decodeDefinite (block : List Char) (k : Char) : Outcome (List Char) :=
  match readInt? k.toString with
  | none => refuse s!"Length length incorrectly specified: {k}"
  | some digits =>
    let start := 2 + digits.toNat
    if block.length < start then refuse "Not enough data."
    else
      let lengthText := String.ofList ((block.take start).drop 2)
      match readInt? lengthText with
      | none => refuse s!"Length incorrectly specified: {lengthText}"
      | some length =>
        let stop : Int := start + length
        if stop > block.length then refuse "Not enough data."
        else .ok (slice block start stop)

/-- The data of a block. What follows a block of definite length is ignored. -/
def decode (block : List Char) : Outcome (List Char) :=
  match block with
  | first :: k :: c :: rest =>
    if first != '#' then refuse s!"Leading character is \"{first}\", not \"#\"."
    else if k == '0' then
      let last := (c :: rest).getLastD c
      if last != '\n' then refuse s!"Final character is \"{last}\", not NL."
      else .ok (c :: rest).dropLast
    else decodeDefinite block k
  | _ => refuse "Not enough data."

end LabBench.Block
