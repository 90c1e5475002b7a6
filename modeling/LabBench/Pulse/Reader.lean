import LabBench.Pulse.Location
import LabBench.Pulse.Syntax
/-!
# Reading of pulse programs

The alternatives of the grammar are tried in order, and the first one that matches is taken. Between any two tokens
there may be blanks and a comment, which goes from a number sign to the end of the line; line feeds end statements.
-/

namespace LabBench.Pulse

open Number Text

/-- A match, with the cursor after it, or none. A mismatch says where the text does not fit. -/
inductive Step (α : Type) where
  | ok (a : α) (next : Cursor)
  | miss (position : Nat)
  /-- Something else was expected, and no other alternative is possible. -/
  | expected (what : String) (position : Nat)
  | fault (f : Fault)

namespace Step

variable {α β : Type}

def bind (s : Step α) (f : α → Cursor → Step β) : Step β :=
  match s with
  | ok a c => f a c
  | miss p => miss p
  | expected what p => expected what p
  | fault e => fault e

def map (f : α → β) (s : Step α) : Step β :=
  s.bind fun a c => ok (f a) c

/-- The next alternative. Of two mismatches the one that got further is kept. -/
def orElse (s : Step α) (t : Unit → Step α) : Step α :=
  match s with
  | miss p =>
    match t () with
    | miss q => miss (max p q)
    | r => r
  | r => r

/-- No alternative is left: a mismatch becomes an error. -/
def must (what : String) (s : Step α) : Step α :=
  match s with
  | miss p => expected what p
  | r => r

end Step

def isGap (c : Char) : Bool :=
  c == ' ' || c == '\t' || c == '\r'

/-- The cursor at the next token, after blanks and a comment. -/
def skip (c : Cursor) : Cursor :=
  let d := (c.span isGap).2
  match d.rest with
  | '#' :: _ => (d.span (· != '\n')).2
  | _ => d

/-! ### Tokens -/

def symbol (s : Char) (c : Cursor) : Step Unit :=
  let d := skip c
  if d.rest.head? == some s then .ok () (d.advance 1) else .miss d.offset

def isNameStart (c : Char) : Bool :=
  c.isAlpha || c == '_'

def isNameChar (c : Char) : Bool :=
  c.isAlphanum || c == '_'

def identifier (c : Cursor) : Step String :=
  let d := skip c
  match d.rest with
  | first :: rest =>
    if isNameStart first then
      let name := first :: rest.takeWhile isNameChar
      .ok (String.ofList name) (d.advance name.length)
    else .miss d.offset
  | [] => .miss d.offset

/-- A keyword, which ends where no character of a name follows. Keywords are not reserved. -/
def keyword (word : String) (c : Cursor) : Step Unit :=
  let d := skip c
  if word.toList.isPrefixOf d.rest then
    let after := d.advance word.length
    match after.rest with
    | next :: _ => if isNameChar next || next == '$' then .miss d.offset else .ok () after
    | [] => .ok () after
  else .miss d.offset

def wholeToken (c : Cursor) : Step (List Char) :=
  match c.rest with
  | first :: rest =>
    if first == '+' || first == '-' || first.isDigit then
      let token := first :: rest.takeWhile Char.isDigit
      .ok token (c.advance token.length)
    else .miss c.offset
  | [] => .miss c.offset

/-- The value of a sign with digits; a sign alone has none. -/
def wholeValue (token : List Char) (c : Cursor) : Step Int :=
  match readInt? (String.ofList token) with
  | some n => .ok n c
  | none => .fault (.plain .badValue)

def exponent (c : Cursor) : Step Int :=
  match c.rest with
  | e :: _ =>
    if e == 'e' || e == 'E' then (wholeToken (c.advance 1)).bind wholeValue else .miss c.offset
  | [] => .miss c.offset

def fractionPart (c : Cursor) : Step (List Char) :=
  match c.rest with
  | '.' :: rest =>
    match rest.takeWhile Char.isDigit with
    | [] => .miss (c.offset + 1)
    | digits => .ok ('.' :: digits) (c.advance (digits.length + 1))
  | _ => .miss c.offset

/-- What makes a number a decimal one: a fraction, with or without an exponent, or an exponent. -/
def decimalPart (c : Cursor) : Step (List Char) :=
  let exponentText (c : Cursor) : Step (List Char) :=
    (exponent c).map fun n => 'e' :: (toString n).toList
  let withFraction :=
    (fractionPart c).bind fun digits d =>
      ((exponentText d).map (digits ++ ·)).orElse fun _ => .ok digits d
  withFraction.orElse fun _ => exponentText c

def number (c : Cursor) : Step Value :=
  let d := skip c
  (wholeToken d).bind fun whole afterWhole =>
    let decimal :=
      (decimalPart afterWhole).bind fun part next =>
        match readFloat? (String.ofList (whole ++ part)) with
        | some x => .ok (Value.real x) next
        | none => .fault (.plain .badValue)
    decimal.orElse fun _ => (wholeValue whole afterWhole).map Value.int

/-- The symbol of a unit: a letter other than `e`, more letters, and digits. -/
def unitSymbol (c : Cursor) : Step (List Char) :=
  match c.rest with
  | first :: rest =>
    if first.isAlpha && first != 'e' && first != 'E' then
      let letters := first :: rest.takeWhile Char.isAlpha
      let digits := (rest.dropWhile Char.isAlpha).takeWhile Char.isDigit
      .ok (letters ++ digits) (c.advance (letters.length + digits.length))
    else .miss c.offset
  | [] => .miss c.offset

def many {α : Type} (item : Cursor → Step α) (c : Cursor) : Step (List α) :=
  match item c with
  | .ok a next =>
    if _h : next.rest.length < c.rest.length then (many item next).map (a :: ·) else .ok [a] next
  | .miss _ => .ok [] c
  | .expected what p => .expected what p
  | .fault f => .fault f
termination_by c.rest.length

def separated {α : Type} (separator : Cursor → Step Unit) (item : Cursor → Step α) (c : Cursor) : Step (List α) :=
  (item c).bind fun a d =>
    (many (fun e => (separator e).bind fun _ f => item f) d).map (a :: ·)

def adjacent (s : Char) (c : Cursor) : Step Unit :=
  if c.rest.head? == some s then .ok () (c.advance 1) else .miss c.offset

def units (c : Cursor) : Step String :=
  (separated (adjacent '.') unitSymbol (skip c)).map fun symbols => String.ofList (['.'].intercalate symbols)

/-- A quantity. A number with an unknown unit is none. -/
def quantity (c : Cursor) : Step (Quantity Float) :=
  let start := skip c
  (number start).bind fun n d =>
    (units d).bind fun u next =>
      match n.toQuantity (.text u) with
      | .ok q => .ok q next
      | .error f => if f.kind == .badValue then .miss start.offset else .fault f

/-- The characters of a quoted text up to the quote, and their number in the source. A double backslash takes the
following character as it is. -/
def quotedBody (quote : Char) : List Char → Option (List Char × Nat)
  | '\\' :: '\\' :: c :: rest =>
    if c == '\n' then none
    else (quotedBody quote rest).map fun (body, n) => ('\\' :: '\\' :: c :: body, n + 3)
  | c :: rest =>
    if c == quote then some ([], 0)
    else if c == '\n' || c == '\r' || c == '\\' then none
    else (quotedBody quote rest).map fun (body, n) => (c :: body, n + 1)
  | [] => none

def blankEscapes (letter blank : Char) : List Char → List Char
  | '\\' :: c :: rest =>
    if c == letter then blank :: blankEscapes letter blank rest else '\\' :: blankEscapes letter blank (c :: rest)
  | c :: rest => c :: blankEscapes letter blank rest
  | [] => []

/-- A character after a double backslash stands for itself. -/
def plainEscapes : List Char → List Char
  | '\\' :: '\\' :: c :: rest => if c == '\n' then '\\' :: plainEscapes ('\\' :: c :: rest) else c :: plainEscapes rest
  | c :: rest => c :: plainEscapes rest
  | [] => []

def unescape (body : List Char) : List Char :=
  let blanks := [('t', '\t'), ('n', '\n'), ('f', '\x0c'), ('r', '\r')]
  plainEscapes (blanks.foldl (fun cs (letter, blank) => blankEscapes letter blank cs) body)

def quotedText (quote : Char) (c : Cursor) : Step String :=
  let d := skip c
  match d.rest with
  | first :: rest =>
    if first == quote then
      match quotedBody quote rest with
      | some (body, n) => .ok (String.ofList (unescape body)) (d.advance (n + 2))
      | none => .miss d.offset
    else .miss d.offset
  | [] => .miss d.offset

def value (c : Cursor) : Step Value :=
  ((quantity c).map Value.quantity).orElse fun _ =>
    (number c).orElse fun _ =>
      ((quotedText '"' c).orElse fun _ => quotedText apostrophe c).map Value.text

/-! ### Assignments and declarations -/

def entry (c : Cursor) : Step (String × Value) :=
  (identifier c).bind fun key d =>
    (symbol ':' d).bind fun _ e =>
      (value e).map fun v => (key, v)

def dictionary (c : Cursor) : Step (List (String × Value)) :=
  (symbol '\x7b' c).bind fun _ d =>
    ((separated (symbol ',') entry d).orElse fun _ => .ok [] d).bind fun entries e =>
      (symbol '\x7d' e).map fun _ => entries

/-- The assignment of a value or a dictionary to a variable. After the equals sign there is no other alternative. -/
def variableAssignment (c : Cursor) : Step (Target × Content) :=
  (identifier c).bind fun name d =>
    (symbol '=' d).bind fun _ e =>
      let content :=
        ((dictionary e).map Content.dictionary).orElse fun _ => (value e).map Content.value
      (content.must "value").map fun v => (.named name, v)

/-- The assignment of a value to an attribute. After the point, and after the equals sign, there is no other
alternative. -/
def attributeAssignment (c : Cursor) : Step (Target × Content) :=
  let start := skip c
  (identifier start).bind fun owner d =>
    (symbol '.' d).bind fun _ e =>
      ((identifier e).must "identifier").bind fun name f =>
        (symbol '=' f).bind fun _ g =>
          ((value g).must "value").map fun v => (.part start.offset owner name, .value v)

def assignment (c : Cursor) : Step Assignment :=
  ((variableAssignment c).orElse fun _ => attributeAssignment c).map fun (target, content) =>
    ⟨c.offset, target, content⟩

def declared (c : Cursor) : Step Declared :=
  ((assignment c).map Declared.assigned).orElse fun _ =>
    (identifier c).map fun name => .plain (skip c).offset name

def kind (c : Cursor) : List Kind → Step Kind
  | [] => .miss c.offset
  | k :: rest => ((keyword k.name c).map fun _ => k).orElse fun _ => kind c rest

def declaration (c : Cursor) : Step Statement :=
  let start := skip c
  (kind start Kind.declarable).bind fun k d =>
    (separated (symbol ',') declared (skip d)).map fun names => .declare start.offset k names

/-! ### Commands -/

def piece (c : Cursor) : Step Piece :=
  ((identifier c).map Piece.named).orElse fun _ => (quantity c).map Piece.delay

def pieces (c : Cursor) : Step (List Piece) :=
  let several :=
    (symbol '(' c).bind fun _ d =>
      (piece d).bind fun first e =>
        (many piece e).bind fun more f =>
          (symbol ')' f).map fun _ => first :: more
  several.orElse fun _ => (identifier c).map fun name => [.named name]

def train (c : Cursor) : Step Train :=
  let start := skip c
  (pieces start).bind fun ps d =>
    (symbol ':' d).bind fun _ e =>
      (identifier e).map fun output => ⟨start.offset, ps, output⟩

def pulses (c : Cursor) : Step Statement :=
  (train c).bind fun first d =>
    (many train d).map fun more => .pulses (first :: more)

/-- A delay on all outputs. Its place is the cursor itself. -/
def delay (c : Cursor) : Step Statement :=
  (((quantity c).map Length.literal).orElse fun _ => (identifier c).map Length.named).map fun length =>
    .delay c.offset length

def statement (c : Cursor) : Step Statement :=
  ((assignment c).map Statement.assign).orElse fun _ =>
    (declaration c).orElse fun _ =>
      ((keyword "acquire" c).map fun _ => Statement.acquire (skip c).offset).orElse fun _ =>
        (pulses c).orElse fun _ => delay c

/-- The end of a statement: a line feed, a semicolon or the end of the source. -/
inductive Ending where
  | separator
  | sourceEnd

def ending (c : Cursor) : Step Ending :=
  let d := skip c
  match d.rest with
  | [] => .ok .sourceEnd d
  | next :: _ => if next == '\n' || next == ';' then .ok .separator (d.advance 1) else .miss d.offset

def loopHead (c : Cursor) : Step Count :=
  (keyword "times" c).bind fun _ d =>
    let whole : Step Int := (wholeToken (skip d)).bind wholeValue
    let count := ((identifier d).map Count.named).orElse fun _ => whole.map Count.literal
    count.bind fun n e =>
      (symbol '\x7b' e).map fun _ => n

def optional (s : Step Statement) (c : Cursor) : Step (List Statement) :=
  (s.map fun a => [a]).orElse fun _ => .ok [] c

/-- The statements of a block: loops, and statements with their ends. The last statement does not need an end; it is
then read without the blanks in front of it being skipped. -/
def statements (c : Cursor) : Step (List Statement) :=
  let loopBlock : Step (Statement × Cursor) :=
    (loopHead c).bind fun n inner =>
      if _h : inner.rest.length < c.rest.length then
        (statements inner).bind fun body d =>
          (symbol '\x7d' d).bind fun _ next => .ok (.loop (skip c).offset n body, next) next
      else .miss c.offset
  match loopBlock with
  | .ok (loop, next) _ =>
    if _h : next.rest.length < c.rest.length then (statements next).map (loop :: ·) else .miss c.offset
  | .expected what p => .expected what p
  | .fault f => .fault f
  | .miss _ =>
    let ended : Step (List Statement × Ending) :=
      (optional (statement (skip c)) (skip c)).bind fun found d =>
        (ending d).map fun e => (found, e)
    match ended with
    | .ok (found, .sourceEnd) next => .ok found next
    | .ok (found, .separator) next =>
      if _h : next.rest.length < c.rest.length then (statements next).map (found ++ ·) else .miss c.offset
    | .expected what p => .expected what p
    | .fault f => .fault f
    | .miss _ => optional (statement c) c
termination_by c.rest.length

def program (c : Cursor) : Step Block :=
  (statements c).bind fun block d =>
    let last := skip d
    match last.rest with
    | [] => .ok block last
    | _ :: _ => .expected "end of text" last.offset

/-- A text that is not a pulse program, with the place at which something else is expected. -/
def syntaxFault (source : String) (expected : String) (position : Nat) : Fault :=
  match locate source position with
  | .ok (some l) => ⟨.pulseSyntax, none, [report s!"Expected {expected}" (some l)]⟩
  | .ok none => .plain .badType
  | .error f => f

/-- The pulse program of a source whose tabs are expanded. -/
def read (source : String) : Outcome Block :=
  match program (.start source) with
  | .ok block _ => .ok block
  | .miss p => .error (syntaxFault source "end of text" p)
  | .expected what p => .error (syntaxFault source what p)
  | .fault f => .error f

end LabBench.Pulse
