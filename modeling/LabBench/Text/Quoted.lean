/-!
# Quoted texts

A text is shown in quotes so that it stands on one line and every character can be told apart: the quote and the
backslash are escaped by a backslash, line feeds, carriage returns and tabs have letters, and all other characters
that do not show are written by their code points in hexadecimal digits.
-/

namespace LabBench.Text

/-- The ranges of code points that are assigned and do not show. -/
def hiddenRanges : List (Nat × Nat) :=
  [(0x0, 0x1f), (0x7f, 0xa0), (0xad, 0xad), (0x600, 0x605), (0x61c, 0x61c), (0x6dd, 0x6dd), (0x70f, 0x70f),
    (0x890, 0x891), (0x8e2, 0x8e2), (0x1680, 0x1680), (0x180e, 0x180e), (0x2000, 0x200f), (0x2028, 0x202f),
    (0x205f, 0x2064), (0x2066, 0x206f), (0x3000, 0x3000), (0xd800, 0xf8ff), (0xfeff, 0xfeff), (0xfff9, 0xfffb),
    (0x110bd, 0x110bd), (0x110cd, 0x110cd), (0x13430, 0x13438), (0x1bca0, 0x1bca3), (0x1d173, 0x1d17a),
    (0xe0001, 0xe0001), (0xe0020, 0xe007f), (0xf0000, 0xffffd), (0x100000, 0x10fffd)]

/-- Controls, format characters, separators other than the space, and private characters. -/
def isHidden (c : Char) : Bool :=
  hiddenRanges.any fun (lo, hi) => lo ≤ c.toNat && c.toNat ≤ hi

/-- A number in lower-case hexadecimal digits, with zeros in front up to the given width. -/
def hex (width n : Nat) : String :=
  let digits := Nat.toDigits 16 n
  String.ofList (List.replicate (width - digits.length) '0' ++ digits)

def escape (quote : Char) (c : Char) : String :=
  if c == quote || c == '\\' then String.ofList ['\\', c]
  else if c == '\n' then "\\n"
  else if c == '\r' then "\\r"
  else if c == '\t' then "\\t"
  else if isHidden c then
    if c.toNat < 0x100 then "\\x" ++ hex 2 c.toNat
    else if c.toNat < 0x10000 then "\\u" ++ hex 4 c.toNat
    else "\\U" ++ hex 8 c.toNat
  else c.toString

def apostrophe : Char :=
  Char.ofNat 39

/-- Single quotes are preferred; double quotes serve a text with single quotes and no double ones. -/
def quoteFor (s : String) : Char :=
  if s.contains apostrophe && !s.contains '"' then '"' else apostrophe

def quote (s : String) : String :=
  let q := quoteFor s
  String.join (q.toString :: s.toList.map (escape q) ++ [q.toString])

end LabBench.Text
