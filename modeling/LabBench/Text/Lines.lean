/-!
# Lines and tabs

Lines end at any of the line ends of Unicode; a carriage return followed by a line feed is one end.
-/

namespace LabBench.Text

/-- Line feed, vertical tab, form feed, carriage return, three of the information separators, next line, and the
line and paragraph separators. -/
def isLineEnd (c : Char) : Bool :=
  ('\n' ≤ c && c ≤ '\r') || ('\x1c' ≤ c && c ≤ '\x1e') || c == '\x85' || c.toNat == 0x2028 || c.toNat == 0x2029

/-- A line and the characters that end it, of which there are none in an unfinished last line. -/
structure Line where
  body : List Char
  ending : List Char
  deriving Repr, DecidableEq

def Line.toList (l : Line) : List Char :=
  l.body ++ l.ending

private def Line.cons (c : Char) (l : Line) : Line :=
  { l with body := c :: l.body }

/-- The lines of a text. There is no empty line after the last end. -/
def lines : List Char → List Line
  | [] => []
  | '\r' :: '\n' :: rest => ⟨[], ['\r', '\n']⟩ :: lines rest
  | c :: rest =>
    if isLineEnd c then ⟨[], [c]⟩ :: lines rest
    else
      match lines rest with
      | [] => [⟨[c], []⟩]
      | l :: ls => l.cons c :: ls

theorem flatMap_toList_lines (cs : List Char) : (lines cs).flatMap Line.toList = cs := by
  fun_induction lines cs with
  | case1 => rfl
  | case2 rest ih => simp [Line.toList, ih]
  | case3 c rest _ _ ih => simp [Line.toList, ih]
  | case4 c rest _ _ h ih =>
    have hr : rest = [] := by simpa [h] using ih.symm
    simp [Line.toList, hr]
  | case5 c rest _ _ l ls h ih =>
    rw [h] at ih
    simpa [Line.cons, Line.toList] using ih

/-- Tabs are replaced by spaces up to the next multiple of eight columns; `column` counts from the last line feed or
carriage return. -/
def expandTabsFrom (column : Nat) : List Char → List Char
  | [] => []
  | c :: rest =>
    if c == '\t' then
      let width := 8 - column % 8
      List.replicate width ' ' ++ expandTabsFrom (column + width) rest
    else if c == '\n' || c == '\r' then c :: expandTabsFrom 0 rest
    else c :: expandTabsFrom (column + 1) rest

def expandTabs (s : String) : String :=
  String.ofList (expandTabsFrom 0 s.toList)

/-! ### Cursors -/

structure Cursor where
  offset : Nat
  rest : List Char
  deriving Repr, DecidableEq

namespace Cursor

def start (s : String) : Cursor :=
  ⟨0, s.toList⟩

def advance (n : Nat) (c : Cursor) : Cursor :=
  ⟨c.offset + n, c.rest.drop n⟩

def span (p : Char → Bool) (c : Cursor) : List Char × Cursor :=
  let token := c.rest.takeWhile p
  (token, c.advance token.length)

end Cursor

end LabBench.Text
