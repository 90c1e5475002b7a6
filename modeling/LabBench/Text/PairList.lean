import LabBench.Fault
import LabBench.Number.Numeral
import LabBench.Text.Lines
import LabBench.Text.Quoted
/-!
# Lists of pairs

Columns of recorded data may hold lists of pairs of numbers, in brackets, with each pair in parentheses. Blanks may
stand between any two tokens, and what follows the closing bracket is ignored.
-/

namespace LabBench.Text.PairList

open Number

structure Mismatch where
  expected : String
  offset : Nat
  deriving Repr, DecidableEq

def isGap (c : Char) : Bool :=
  c == ' ' || c == '\t' || c == '\n' || c == '\r'

def skip (c : Cursor) : Cursor :=
  (c.span isGap).2

def symbol (s : Char) (c : Cursor) : Except Mismatch (Unit × Cursor) :=
  let d := skip c
  if d.rest.head? == some s then .ok ((), d.advance 1)
  else .error ⟨"\"" ++ s.toString ++ "\"", d.offset⟩

def numberForm : String :=
  "Re:('[-+]?[0-9]+(?:\\\\.[0-9]*)?(?:e[-+]?[0-9]+)?')"

def digits (cs : List Char) : List Char :=
  cs.takeWhile Char.isDigit

def signToken : List Char → List Char
  | c :: _ => if c == '+' || c == '-' then [c] else []
  | [] => []

def fractionToken : List Char → List Char
  | '.' :: rest => '.' :: digits rest
  | _ => []

def exponentToken : List Char → List Char
  | e :: rest =>
    let s := signToken rest
    let ds := digits (rest.drop s.length)
    if (e == 'e' || e == 'E') && !ds.isEmpty then e :: s ++ ds else []
  | [] => []

def numberToken (cs : List Char) : List Char :=
  let s := signToken cs
  let whole := digits (cs.drop s.length)
  if whole.isEmpty then []
  else
    let head := s ++ whole
    let part := fractionToken (cs.drop head.length)
    let body := head ++ part
    body ++ exponentToken (cs.drop body.length)

def number (c : Cursor) : Except Mismatch (Float × Cursor) :=
  let d := skip c
  let token := numberToken d.rest
  match token, readFloat? (String.ofList token) with
  | _ :: _, some x => .ok (x, d.advance token.length)
  | _, _ => .error ⟨numberForm, d.offset⟩

def pair (c : Cursor) : Except Mismatch ((Float × Float) × Cursor) := do
  let (_, c) ← symbol '(' c
  let (x, c) ← number c
  let (_, c) ← symbol ',' c
  let (y, c) ← number c
  let (_, c) ← symbol ')' c
  return ((x, y), c)

def morePairs (c : Cursor) : List (Float × Float) × Cursor :=
  match (do let (_, d) ← symbol ',' c; pair d : Except Mismatch ((Float × Float) × Cursor)) with
  | .ok (p, next) =>
    if _h : next.rest.length < c.rest.length then
      let (ps, last) := morePairs next
      (p :: ps, last)
    else ([p], next)
  | .error _ => ([], c)
termination_by c.rest.length

def pairList (c : Cursor) : Except Mismatch ((List (Float × Float)) × Cursor) := do
  let (_, c) ← symbol '[' c
  let (p, c) ← pair c
  let (ps, c) := morePairs c
  let (_, c) ← symbol ']' c
  return (p :: ps, c)

def foundText (source : List Char) (offset : Nat) : String :=
  if source.isEmpty then ""
  else
    match source.drop offset with
    | [] => ", found end of text"
    | c :: _ =>
      let shown := if c == '\\' then String.ofList [apostrophe, c, apostrophe] else quote c.toString
      ", found " ++ shown

def Mismatch.message (source : List Char) (m : Mismatch) : String :=
  let before := source.take m.offset
  let line := before.count '\n' + 1
  let column := (before.reverse.takeWhile (· != '\n')).length + 1
  s!"Expected {m.expected}{foundText source m.offset}  (at char {m.offset}), (line:{line}, col:{column})"

def read (s : String) : Outcome (List (Float × Float)) :=
  let source := expandTabs s
  match pairList (.start source) with
  | .ok (pairs, _) => .ok pairs
  | .error m => .error (.because .badValue (m.message source.toList))

end LabBench.Text.PairList
