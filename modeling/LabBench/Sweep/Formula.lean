import LabBench.Sweep.Table
/-!
# Formulas over the columns of a table

A formula is an arithmetic expression in which the headings of columns stand for the columns. The headings are replaced
one after the other within the text, by references to the columns, and the text is evaluated after that.
-/

namespace LabBench.Sweep.Formula

open Number

/-! ### Headings -/

def tableName : String :=
  "virt_values"

def reference (position : Nat) : List Char :=
  (tableName ++ s!"[:,{position}]").toList

/-- The text with every occurrence of a word replaced, from left to right. The empty word occurs before every character
and at the end. -/
def replaceAll (word replacement : List Char) : List Char → List Char
  | [] => if word.isEmpty then replacement else []
  | c :: rest =>
    if word.isEmpty then replacement ++ c :: replaceAll word replacement rest
    else if word.isPrefixOf (c :: rest) then
      replacement ++ replaceAll word replacement (rest.drop (word.length - 1))
    else c :: replaceAll word replacement rest
termination_by cs => cs.length
decreasing_by all_goals simp only [List.length_cons, List.length_drop]; omega

/-- The text after the headings from a position on have been replaced. -/
def expandFrom (position : Nat) (cs : List Char) : List String → List Char
  | [] => cs
  | heading :: rest => expandFrom (position + 1) (replaceAll heading.toList (reference position) cs) rest

def expand (headings : List String) (text : String) : String :=
  String.ofList (expandFrom 0 text.toList headings)

/-! ### Tokens -/

inductive Token where
  | number (v : Value)
  | name (s : String)
  | symbol (c : Char)
  | power

def isLetter (c : Char) : Bool :=
  c.isAlpha || c == '_' || 0x80 ≤ c.toNat

def isDigitPart (cs : List Char) : Bool :=
  match cs with
  | [] => false
  | c :: rest => c.isDigit && wellFormed rest
where
  wellFormed : List Char → Bool
    | [] => true
    | '_' :: c :: rest => c.isDigit && wellFormed rest
    | c :: rest => c.isDigit && wellFormed rest

def digitRun (cs : List Char) : List Char × List Char :=
  let p := fun c : Char => c.isDigit || c == '_'
  (cs.takeWhile p, cs.dropWhile p)

def exponentRun : List Char → List Char × List Char
  | e :: rest =>
    if e == 'e' || e == 'E' then
      match rest with
      | s :: d :: _ =>
        if (s == '+' || s == '-') && d.isDigit then
          let (ds, after) := digitRun (rest.drop 1)
          (ds, after)
        else if s.isDigit then digitRun rest
        else ([], e :: rest)
      | [d] => if d.isDigit then ([d], []) else ([], e :: rest)
      | [] => ([], e :: rest)
    else ([], e :: rest)
  | [] => ([], [])

/-- The number at the start of a text, which begins with a digit or a point, and what follows. A whole number does not
begin with a zero, unless it is zero, and no letter follows. -/
def numberToken (cs : List Char) : Option (Token × List Char) := do
  let (whole, afterWhole) := digitRun cs
  let (hasPoint, fraction, afterFraction) := match afterWhole with
    | '.' :: rest =>
      let (ds, after) := digitRun rest
      (true, ds, after)
    | rest => (false, [], rest)
  let (exponent, rest) := exponentRun afterFraction
  let parts := [whole, fraction, exponent].filter fun p => !p.isEmpty
  if !(parts.all isDigitPart) then none
  if whole.isEmpty && fraction.isEmpty then none
  if (rest.head?.map isLetter).getD false then none
  let text := String.ofList (cs.take (cs.length - rest.length))
  if hasPoint || !exponent.isEmpty then return (.number (.real (← readFloat? text)), rest)
  let n ← readInt? text
  if whole.head? == some '0' && n != 0 then none
  return (.number (.int n), rest)

def symbols : List Char :=
  ['+', '-', '*', '/', '(', ')', '[', ']', ':', ',']

/-- The parts of a text. Only within brackets may a line end. -/
def tokens (depth : Nat) (cs : List Char) : Option (List Token) :=
  match cs with
  | [] => some []
  | c :: rest =>
    if c == ' ' || c == '\t' || c == '\x0c' then tokens depth rest
    else if c == '\n' || c == '\r' then
      if depth != 0 then tokens depth rest
      else if rest.all fun d => d == ' ' || d == '\t' || d == '\x0c' || d == '\n' || d == '\r' then some []
      else none
    else if isLetter c then
      let p := fun d : Char => isLetter d || d.isDigit
      let tail := rest.dropWhile p
      (tokens depth tail).map (.name (String.ofList (c :: rest.takeWhile p)) :: ·)
    else if c.isDigit || (c == '.' && (rest.head?.map Char.isDigit).getD false) then
      match numberToken (c :: rest) with
      | none => none
      | some (t, after) =>
        if _ : after.length < rest.length + 1 then (tokens depth after).map (t :: ·) else none
    else if c == '*' && rest.head? == some '*' then (tokens depth (rest.drop 1)).map (.power :: ·)
    else if symbols.contains c then
      let depth' := if c == '(' || c == '[' then depth + 1 else if c == ')' || c == ']' then depth - 1 else depth
      (tokens depth' rest).map (.symbol c :: ·)
    else none
termination_by cs.length
decreasing_by
  all_goals simp only [List.length_cons, List.length_drop]
  all_goals have h := Text.length_dropWhile_le (fun d : Char => isLetter d || d.isDigit) rest
  all_goals omega

/-! ### Expressions -/

inductive Expr where
  | number (v : Value)
  | name (s : String)
  | negative (a : Expr)
  | positive (a : Expr)
  | sum (a b : Expr)
  | difference (a b : Expr)
  | product (a b : Expr)
  | quotient (a b : Expr)
  | power (a b : Expr)
  | column (a position : Expr)
  /-- The application of a function to one argument at most. -/
  | application (f : Expr) (argument : Option Expr)

mutual

def parseSum : Nat → List Token → Option (Expr × List Token)
  | 0, _ => none
  | fuel + 1, ts => do
    let (a, rest) ← parseProduct fuel ts
    parseSumRest fuel a rest

def parseSumRest : Nat → Expr → List Token → Option (Expr × List Token)
  | 0, _, _ => none
  | fuel + 1, a, ts =>
    match ts with
    | .symbol '+' :: rest => do
      let (b, rest) ← parseProduct fuel rest
      parseSumRest fuel (.sum a b) rest
    | .symbol '-' :: rest => do
      let (b, rest) ← parseProduct fuel rest
      parseSumRest fuel (.difference a b) rest
    | _ => some (a, ts)

def parseProduct : Nat → List Token → Option (Expr × List Token)
  | 0, _ => none
  | fuel + 1, ts => do
    let (a, rest) ← parseSigned fuel ts
    parseProductRest fuel a rest

def parseProductRest : Nat → Expr → List Token → Option (Expr × List Token)
  | 0, _, _ => none
  | fuel + 1, a, ts =>
    match ts with
    | .symbol '*' :: rest => do
      let (b, rest) ← parseSigned fuel rest
      parseProductRest fuel (.product a b) rest
    | .symbol '/' :: rest => do
      let (b, rest) ← parseSigned fuel rest
      parseProductRest fuel (.quotient a b) rest
    | _ => some (a, ts)

def parseSigned : Nat → List Token → Option (Expr × List Token)
  | 0, _ => none
  | fuel + 1, ts =>
    match ts with
    | .symbol '-' :: rest => do
      let (a, rest) ← parseSigned fuel rest
      return (.negative a, rest)
    | .symbol '+' :: rest => do
      let (a, rest) ← parseSigned fuel rest
      return (.positive a, rest)
    | _ => parsePower fuel ts

def parsePower : Nat → List Token → Option (Expr × List Token)
  | 0, _ => none
  | fuel + 1, ts => do
    let (a, rest) ← parseAtom fuel ts
    let (a, rest) ← parseSuffixes fuel a rest
    match rest with
    | .power :: rest => do
      let (b, rest) ← parseSigned fuel rest
      return (.power a b, rest)
    | _ => return (a, rest)

def parseSuffixes : Nat → Expr → List Token → Option (Expr × List Token)
  | 0, _, _ => none
  | fuel + 1, a, ts =>
    match ts with
    | .symbol '[' :: .symbol ':' :: .symbol ',' :: rest => do
      let (position, rest) ← parseSum fuel rest
      match rest with
      | .symbol ']' :: rest => parseSuffixes fuel (.column a position) rest
      | _ => none
    | .symbol '(' :: .symbol ')' :: rest => parseSuffixes fuel (.application a none) rest
    | .symbol '(' :: rest => do
      let (argument, rest) ← parseSum fuel rest
      match rest with
      | .symbol ')' :: rest => parseSuffixes fuel (.application a (some argument)) rest
      | _ => none
    | _ => some (a, ts)

def parseAtom : Nat → List Token → Option (Expr × List Token)
  | 0, _ => none
  | fuel + 1, ts =>
    match ts with
    | .number v :: rest => some (.number v, rest)
    | .name s :: rest => some (.name s, rest)
    | .symbol '(' :: rest => do
      let (a, rest) ← parseSum fuel rest
      match rest with
      | .symbol ')' :: rest => some (a, rest)
      | _ => none
    | _ => none

end

def parse (text : String) : Option Expr := do
  let ts ← tokens 0 (text.toList.dropWhile fun c => c == '\n' || c == '\r' || c == ' ' || c == '\t')
  let (e, rest) ← parseSum (8 * (ts.length + 1)) ts
  if rest.isEmpty then some e else none

/-! ### Values -/

inductive Result where
  | scalar (v : Value)
  | column (xs : List Float)
  | table

/-- A power of two binary numbers, neither of which is a column. -/
def floatPower (x y : Float) : Outcome Float :=
  let r := x.pow y
  if x == 0.0 && y < 0.0 then .error (.plain .zeroDivision)
  else if r.isNaN && !x.isNaN && !y.isNaN then .error (.plain .badType)
  else if r.isInf && !x.isInf && !y.isInf then .error (.plain .overflow)
  else .ok r

/-- A computation on numbers: whole numbers stay whole as far as `whole` goes. -/
def onScalars (whole : Int → Int → Option (Outcome Value)) (real : Float → Float → Outcome Float) (a b : Value) :
    Outcome Value :=
  let inexact : Outcome Value :=
    match a.asFloat?, b.asFloat? with
    | some x, some y => do return .real (← real (← x) (← y))
    | _, _ => .error (.plain .badType)
  match a.asInt?, b.asInt? with
  | some m, some n => (whole m n).getD inexact
  | _, _ => inexact

def scalarFloat (v : Value) : Outcome Float :=
  match v.asFloat? with
  | some x => x
  | none => .error (.plain .badType)

def onResults (scalars : Value → Value → Outcome Value) (numbers : Float → Float → Float) :
    Result → Result → Outcome Result
  | .scalar a, .scalar b => do return .scalar (← scalars a b)
  | .scalar a, .column ys => do
    let x ← scalarFloat a
    return .column (ys.map (numbers x))
  | .column xs, .scalar b => do
    let y ← scalarFloat b
    return .column (xs.map (numbers · y))
  | .column xs, .column ys => .ok (.column (xs.zipWith numbers ys))
  | _, _ => .error (.plain .badType)

def add : Result → Result → Outcome Result :=
  onResults (onScalars (fun m n => some (.ok (.int (m + n)))) fun x y => .ok (x + y)) (· + ·)

def sub : Result → Result → Outcome Result :=
  onResults (onScalars (fun m n => some (.ok (.int (m - n)))) fun x y => .ok (x - y)) (· - ·)

def mul : Result → Result → Outcome Result :=
  onResults (onScalars (fun m n => some (.ok (.int (m * n)))) fun x y => .ok (x * y)) (· * ·)

/-- The quotient of two results. Only a single number cannot be divided by zero. -/
def div : Result → Result → Outcome Result :=
  onResults (onScalars (fun _ _ => none)
    fun x y => if y == 0.0 then .error (.plain .zeroDivision) else .ok (x / y)) (· / ·)

def pow : Result → Result → Outcome Result :=
  onResults (onScalars (fun m n => if 0 ≤ n then some (.ok (.int (Int.pow m n.toNat))) else none) floatPower) Float.pow

def neg : Result → Outcome Result
  | .scalar (.real x) => .ok (.scalar (.real (-x)))
  | .scalar v =>
    match v.asInt? with
    | some n => .ok (.scalar (.int (-n)))
    | none => .error (.plain .badType)
  | .column xs => .ok (.column (xs.map (-·)))
  | .table => .error (.plain .badType)

def select (t : Table) : Result → Result → Outcome Result
  | .table, .scalar (.int n) =>
    match t.column? n with
    | some xs => .ok (.column xs)
    | none => .error (.plain .outOfBounds)
  | .scalar _, _ => .error (.plain .badType)
  | _, _ => .error (.plain .outOfBounds)

/-- The meaning of a name: the table itself, or the position of the last heading. -/
def lookup (headings : List String) (name : String) : Outcome Result :=
  if name == tableName then .ok .table
  else if name == "i" && !headings.isEmpty then .ok (.scalar (.int (headings.length - 1)))
  else .error (.plain .unknownName)

def eval (headings : List String) (t : Table) : Expr → Outcome Result
  | .number v => .ok (.scalar v)
  | .name s => lookup headings s
  | .negative a => do neg (← eval headings t a)
  | .positive a => eval headings t a
  | .sum a b => do
    let x ← eval headings t a
    add x (← eval headings t b)
  | .difference a b => do
    let x ← eval headings t a
    sub x (← eval headings t b)
  | .product a b => do
    let x ← eval headings t a
    mul x (← eval headings t b)
  | .quotient a b => do
    let x ← eval headings t a
    div x (← eval headings t b)
  | .power a b => do
    let x ← eval headings t a
    pow x (← eval headings t b)
  | .column a position => do
    let x ← eval headings t a
    select t x (← eval headings t position)
  | .application f none => do
    let _ ← eval headings t f
    .error (.plain .badType)
  | .application f (some a) => do
    let _ ← eval headings t f
    let _ ← eval headings t a
    .error (.plain .badType)

/-- The value of a formula. A formula that is just a number stands for a column of that number. -/
def dependent (headings : List String) (t : Table) (text : String) : Outcome Result := do
  let expanded := expand headings text
  match parse expanded with
  | none => .error (.plain .malformed)
  | some e =>
    let r ← eval headings t e
    match readFloat? expanded with
    | some x => return .column (t.rows.map fun _ => x)
    | none => return r

end LabBench.Sweep.Formula
