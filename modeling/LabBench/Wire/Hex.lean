import LabBench.Fault
import LabBench.Text.Quoted
/-!
# Bytes in hexadecimal digits

Binary messages are written down in hexadecimal digits, two for a byte. Bytes are characters with code points below 256.
-/

namespace LabBench.Hex

def digit? (c : Char) : Option Nat :=
  if '0' ≤ c && c ≤ '9' then some (c.toNat - '0'.toNat)
  else if 'a' ≤ c && c ≤ 'f' then some (c.toNat - 'a'.toNat + 10)
  else if 'A' ≤ c && c ≤ 'F' then some (c.toNat - 'A'.toNat + 10)
  else none

/-- Two digits make a byte; a digit that is left over makes one by itself. -/
def bytes : List Nat → List Char
  | a :: b :: rest => Char.ofNat (16 * a + b) :: bytes rest
  | [a] => [Char.ofNat a]
  | [] => []

/-- The bytes of a text, in which everything but hexadecimal digits is ignored. -/
def encode (text : List Char) : List Char :=
  bytes (text.filterMap digit?)

def length (text : List Char) : Nat :=
  (encode text).length

/-- The parts of a list with `size` elements each; the last one may be shorter. -/
def groups {α : Type} (size : Nat) (xs : List α) : List (List α) :=
  if _h : size = 0 ∨ xs = [] then []
  else xs.take size :: groups size (xs.drop size)
termination_by xs.length
decreasing_by
  have : 0 < xs.length := List.length_pos_iff.2 (fun h => _h (Or.inr h))
  simp only [List.length_drop]
  omega

def digits (data : List Char) : List String :=
  data.map fun c => Text.hex 2 c.toNat

/-- The digits of bytes, in groups of so many bytes with spaces between them. -/
def grouped (size : Nat) (data : List Char) : String :=
  " ".intercalate ((groups size (digits data)).map String.join)

/-- The digits of bytes, with or without groups. Groups cannot be empty. -/
def decode (data : List Char) (size : Int := 2) (group : Bool := true) : Outcome String :=
  if !group then .ok (String.join (digits data))
  else if size == 0 then .error (.plain .badValue)
  else .ok (grouped size.toNat data)

end LabBench.Hex
