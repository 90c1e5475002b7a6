/-!
# Blank characters

Two classes of white space are in use. Messages, unit symbols and table cells are separated by *blanks*, the six
characters of the ASCII range; numerals may be surrounded by any *space* of Unicode.
-/

namespace LabBench.Text

/-- Space, tab, line feed, vertical tab, form feed and carriage return. -/
def isBlank (c : Char) : Bool :=
  c == ' ' || ('\t' ≤ c && c ≤ '\r')

/-- The white space of Unicode, with the four information separators. -/
def isSpace (c : Char) : Bool :=
  isBlank c || ('\x1c' ≤ c && c ≤ '\x1f') || (0x2000 ≤ c.toNat && c.toNat ≤ 0x200a) ||
    [0x85, 0xa0, 0x1680, 0x2028, 0x2029, 0x202f, 0x205f, 0x3000].contains c.toNat

theorem isSpace_of_isBlank {c : Char} (h : isBlank c) : isSpace c := by
  simp [isSpace, h]

def trimLeft (p : Char → Bool) (cs : List Char) : List Char :=
  cs.dropWhile p

def trimRight (p : Char → Bool) (cs : List Char) : List Char :=
  (cs.reverse.dropWhile p).reverse

def trim (p : Char → Bool) (cs : List Char) : List Char :=
  trimRight p (trimLeft p cs)

/-- The first word of a text and what follows it, without the blanks between them. -/
def splitFirst (cs : List Char) : List Char × List Char :=
  let body := trimLeft isBlank cs
  (body.takeWhile (!isBlank ·), trimLeft isBlank (body.dropWhile (!isBlank ·)))

theorem length_dropWhile_le (p : Char → Bool) (cs : List Char) : (cs.dropWhile p).length ≤ cs.length :=
  (List.dropWhile_suffix p).length_le

def words (cs : List Char) : List (List Char) :=
  match _h : trimLeft isBlank cs with
  | [] => []
  | c :: rest => (c :: rest.takeWhile (!isBlank ·)) :: words (rest.dropWhile (!isBlank ·))
termination_by cs.length
decreasing_by
  have h₁ : (c :: rest).length ≤ cs.length := _h ▸ length_dropWhile_le isBlank cs
  have h₂ := length_dropWhile_le (!isBlank ·) rest
  simp only [List.length_cons] at h₁
  omega

def splitAt (sep : Char) : List Char → List (List Char)
  | [] => [[]]
  | c :: rest =>
    match splitAt sep rest with
    | [] => [[c]]
    | part :: parts => if c == sep then [] :: part :: parts else (c :: part) :: parts

/-- At most `limit` cuts are made; what is left over is the last part. -/
def splitAtMost (sep : Char) : Nat → List Char → List (List Char)
  | 0, cs => [cs]
  | limit + 1, cs =>
    match cs.dropWhile (· != sep) with
    | [] => [cs]
    | _ :: rest => cs.takeWhile (· != sep) :: splitAtMost sep limit rest

/-- Letters of the ASCII range in lower case, everything else as it is. -/
def lower (s : String) : String :=
  s.map Char.toLower

def startsWith (s start : String) : Bool :=
  start.toList.isPrefixOf s.toList

def spaces (n : Nat) : String :=
  String.ofList (List.replicate n ' ')

/-- A number in decimal digits, with zeros in front up to the given width. -/
def padded (width n : Nat) : String :=
  let digits := Nat.toDigits 10 n
  String.ofList (List.replicate (width - digits.length) '0' ++ digits)

/-! ### Decimal digits

A numeral may be written with the decimal digits of any script. In every script the ten digits are consecutive code
points, so that a table of the zeros is enough.
-/

/-- The code points of the characters for zero, in ascending order. -/
def digitZeros : List Nat :=
  [0x30, 0x660, 0x6f0, 0x7c0, 0x966, 0x9e6, 0xa66, 0xae6, 0xb66, 0xbe6, 0xc66, 0xce6, 0xd66, 0xde6, 0xe50, 0xed0,
    0xf20, 0x1040, 0x1090, 0x17e0, 0x1810, 0x1946, 0x19d0, 0x1a80, 0x1a90, 0x1b50, 0x1bb0, 0x1c40, 0x1c50, 0xa620,
    0xa8d0, 0xa900, 0xa9d0, 0xa9f0, 0xaa50, 0xabf0, 0xff10, 0x104a0, 0x10d30, 0x11066, 0x110f0, 0x11136, 0x111d0,
    0x112f0, 0x11450, 0x114d0, 0x11650, 0x116c0, 0x11730, 0x118e0, 0x11950, 0x11c50, 0x11d50, 0x11da0, 0x16a60,
    0x16ac0, 0x16b50, 0x1d7ce, 0x1d7d8, 0x1d7e2, 0x1d7ec, 0x1d7f6, 0x1e140, 0x1e2f0, 0x1e950, 0x1fbf0]

def digitValue? (c : Char) : Option Nat :=
  if c.toNat < 0x80 then
    if c.isDigit then some (c.toNat - 0x30) else none
  else
    (digitZeros.find? fun z => z ≤ c.toNat && c.toNat ≤ z + 9).map (c.toNat - ·)

theorem digitValue?_of_isDigit {c : Char} (h : c.isDigit) : digitValue? c = some (c.toNat - 0x30) := by
  have hc : c.toNat < 0x80 := by
    simp only [Char.isDigit, Bool.and_eq_true, decide_eq_true_eq] at h
    have := h.2
    simp only [Char.toNat]
    exact Nat.lt_of_le_of_lt this (by decide)
  simp [digitValue?, hc, h]

end LabBench.Text
