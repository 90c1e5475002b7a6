import LabBench.Fault
/-!
# Packed numbers

Whole numbers of a fixed size as bytes, one character for a byte.
-/

namespace LabBench.Packed

def byte (n : Nat) : Char :=
  Char.ofNat (n % 256)

/-- An unsigned number in two bytes, the lower one first. Other numbers do not fit. -/
def word (n : Int) : Outcome (List Char) :=
  if 0 ≤ n && n < 65536 then .ok [byte n.toNat, byte (n.toNat / 256)]
  else .error (.plain .packing)

def words (ns : List Int) : Outcome (List Char) := do
  return (← ns.mapM word).flatten

/-- The unsigned numbers in some bytes, two for each. No byte may be left over. -/
def readWords : List Char → Outcome (List Nat)
  | [] => .ok []
  | low :: high :: rest => do return (low.toNat + 256 * high.toNat) :: (← readWords rest)
  | [_] => .error (.plain .packing)

/-- The signed number with the bits of an unsigned one below `2 * half`. -/
def signed (half n : Nat) : Int :=
  if n < half then n else (n : Int) - 2 * half

/-- The signed numbers in some bytes, two for each, the upper one first. -/
def readPairs : List Char → List Int
  | high :: low :: rest => signed 32768 (256 * high.toNat + low.toNat) :: readPairs rest
  | _ => []

/-- So many signed numbers of one or two bytes. There have to be exactly as many bytes as they take. -/
def readSigned (isWide : Bool) (count : Int) (data : List Char) : Outcome (List Int) :=
  if count * (if isWide then 2 else 1) != data.length then .error (.plain .packing)
  else .ok (if isWide then readPairs data else data.map fun c => signed 128 c.toNat)

end LabBench.Packed
