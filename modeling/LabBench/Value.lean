import LabBench.Quantity.Basic
import LabBench.Text.Quoted
/-!
# Values

Settings and readings of instruments, the values of swept variables and the parameters of programs are of many types. A
value is one of them.
-/

namespace LabBench

open Number Text

/-- A value of one of the types that occur at run time. -/
inductive Value where
  | none
  | flag (b : Bool)
  | int (n : Int)
  | real (x : Float)
  | text (s : String)
  | quantity (q : Quantity Float)
  | list (items : List Value)
  | tuple (items : List Value)
  | table (entries : List (Value × Value))

namespace Value

instance : Inhabited Value := ⟨.none⟩

/-- The text of a quantity. One that is too large for its own unit has none. -/
def quantityText (q : Quantity Float) : String :=
  match q.text with
  | .ok t => t
  | .error _ => ""

/-- A value that can be told from other values: texts are in quotes, quantities carry their class. -/
def quoted : Value → String
  | none => "None"
  | flag b => if b then "True" else "False"
  | int n => toString n
  | real x => plain x
  | text s => quote s
  | quantity q => s!"Quantity('{quantityText q}')"
  | list items => "[" ++ ", ".intercalate (quotedAll items) ++ "]"
  | tuple [a] => "(" ++ a.quoted ++ ",)"
  | tuple items => "(" ++ ", ".intercalate (quotedAll items) ++ ")"
  | table entries => "\x7b" ++ ", ".intercalate (quotedEntries entries) ++ "\x7d"
where
  quotedAll : List Value → List String
    | [] => []
    | v :: vs => v.quoted :: quotedAll vs
  quotedEntries : List (Value × Value) → List String
    | [] => []
    | (k, v) :: rest => (k.quoted ++ ": " ++ v.quoted) :: quotedEntries rest

def display : Value → String
  | text s => s
  | quantity q => quantityText q
  | v => v.quoted

/-! ### Conversions -/

/-- Whether a value counts as true: it is not zero, not empty and not missing. -/
def truth : Value → Bool
  | none => false
  | flag b => b
  | int n => n != 0
  | real x => !(x == 0.0)
  | text s => !s.isEmpty
  | quantity _ => true
  | list items => !items.isEmpty
  | tuple items => !items.isEmpty
  | table entries => !entries.isEmpty

def floatOfInt (n : Int) : Outcome Float :=
  match ofInt? n with
  | some x => .ok x
  | .none => .error (.plain .overflow)

def toFloat : Value → Outcome Float
  | flag b => .ok (if b then 1.0 else 0.0)
  | int n => floatOfInt n
  | real x => .ok x
  | text s =>
    match readFloat? s with
    | some x => .ok x
    | .none => .error (.plain .badValue)
  | _ => .error (.plain .badType)

def wholePart (x : Float) : Outcome Int :=
  match truncate? x with
  | some n => .ok n
  | .none => .error (.plain (if x.isNaN then .badValue else .overflow))

/-- The whole number that a value is, is cut to or stands for. -/
def toInt : Value → Outcome Int
  | flag b => .ok (if b then 1 else 0)
  | int n => .ok n
  | real x => wholePart x
  | text s =>
    match readInt? s with
    | some n => .ok n
    | .none => .error (.plain .badValue)
  | _ => .error (.plain .badType)

/-- The whole number that a value is; a switch counts as one. -/
def asInt? : Value → Option Int
  | flag b => some (if b then 1 else 0)
  | int n => some n
  | _ => .none

def asFloat? : Value → Option (Outcome Float)
  | flag b => some (.ok (if b then 1.0 else 0.0))
  | int n => some (floatOfInt n)
  | real x => some (.ok x)
  | _ => .none

def asQuantity : Value → Outcome (Quantity Float)
  | quantity q => .ok q
  | _ => .error (.plain .missingAttribute)

def asQuantityIn (units : String) (v : Value) : Outcome (Quantity Float) := do
  let q ← v.asQuantity
  q.checkUnits units
  return q

/-- The quantity of a value and a unit. A text brings its own unit with it. -/
def toQuantity (value : Value) (units : Value := .none) : Outcome (Quantity Float) := do
  match value with
  | text s => Quantity.parse s
  | v =>
    let x ← v.toFloat
    match units with
    | text u => Quantity.make x u
    | _ => .error (.plain .missingAttribute)

/-! ### Comparison -/

def lacksDimension (v : Value) : Fault :=
  .because .badType s!"Expected dimensions for \"{v.quoted}\""

/-- The order of a whole number and a binary number, which is exact. -/
def compareIntFloat (n : Int) (x : Float) : Option Ordering :=
  match Exact.ofFloat x with
  | .nan => .none
  | .infinite negative => some (if negative then .gt else .lt)
  | .finite negative m e =>
    let r := Ratio.ofBinary m e
    let num : Int := if negative then -r.num else r.num
    some (compare (n * r.den) num)

def compareNumbers? (a b : Value) : Option (Option Ordering) :=
  let order (x y : Float) : Option Ordering :=
    if x < y then some .lt else if y < x then some .gt else if x == y then some .eq else .none
  match a, b with
  | real x, real y => some (order x y)
  | real x, v => v.asInt?.map fun n => (compareIntFloat n x).map Ordering.swap
  | v, real y => v.asInt?.map fun n => compareIntFloat n y
  | v, w =>
    match v.asInt?, w.asInt? with
    | some m, some n => some (some (compare m n))
    | _, _ => .none

mutual

/-- Equality. Numbers of all types are compared by their values; a quantity can be compared only with quantities. -/
def equal : Value → Value → Outcome Bool
  | quantity p, quantity q => p.equal q
  | quantity _, v => .error v.lacksDimension
  | v, quantity _ => .error v.lacksDimension
  | none, none => .ok true
  | text s, text t => .ok (s == t)
  | list xs, list ys => equalAll xs ys
  | tuple xs, tuple ys => equalAll xs ys
  | v, w =>
    match compareNumbers? v w with
    | some o => .ok (o == some .eq)
    | .none => .ok false

def equalAll : List Value → List Value → Outcome Bool
  | [], [] => .ok true
  | x :: xs, y :: ys => do if ← equal x y then equalAll xs ys else return false
  | _, _ => .ok false

end

/-- The order of numbers, texts or quantities. Values of different types have none. -/
def less (a b : Value) : Outcome Bool :=
  match a, b with
  | quantity p, quantity q => p.less q
  | quantity _, v => .error v.lacksDimension
  | v, quantity q => do
    -- the question is turned round: a quantity is asked whether it is greater
    let _ ← equal v (.quantity q)
    return false
  | text s, text t => .ok (s < t)
  | v, w =>
    match compareNumbers? v w with
    | some o => .ok (o == some .lt)
    | .none => .error (.plain .badType)

def greater (a b : Value) : Outcome Bool :=
  match a, b with
  | quantity p, quantity q => p.greater q
  | quantity p, v => do
    let _ ← equal (.quantity p) v
    return false
  | v, quantity _ => .error v.lacksDimension
  | v, w => less w v

def atMost (a b : Value) : Outcome Bool := do
  match a, b with
  | quantity p, quantity q => p.atMost q
  | a, b =>
    if ← less a b then return true
    equal a b

def atLeast (a b : Value) : Outcome Bool := do
  match a, b with
  | quantity p, quantity q => p.atLeast q
  | a, b =>
    if ← greater a b then return true
    equal a b

/-- Whether a value can be a member of a set: collections that can be changed cannot. -/
def isSettled : Value → Bool
  | list _ => false
  | table _ => false
  | tuple items => allSettled items
  | _ => true
where
  allSettled : List Value → Bool
    | [] => true
    | v :: vs => v.isSettled && allSettled vs

/-- Membership in a set. A quantity is never a member, since sets tell quantities apart one by one. -/
def isMember (v : Value) (set : List Value) : Outcome Bool :=
  if !v.isSettled then .error (.plain .badType)
  else
    match v with
    | quantity _ => .ok false
    | _ => .ok (set.any fun w =>
        match w with
        | quantity _ => false
        | w => match equal w v with
          | .ok b => b
          | .error _ => false)

/-- Membership in a list, by comparison with one element after the other. -/
def isListed (v : Value) : List Value → Outcome Bool
  | [] => .ok false
  | w :: rest => do if ← equal w v then return true else isListed v rest

/-! ### Arithmetic -/

def repeated {α : Type} (n : Int) (xs : List α) : List α :=
  (List.replicate n.toNat xs).flatten

/-- A value times a number. Whole numbers stay whole; texts and sequences are repeated by whole numbers. -/
def scaled (v factor : Value) : Outcome Value :=
  match v, factor with
  | quantity q, f =>
    match f.asFloat? with
    | some x => do return .quantity (← q.mul (← x))
    | .none => .error (.plain .badType)
  | f, quantity q =>
    match f.asFloat? with
    | some x => do return .quantity (← q.mul (← x))
    | .none => .error (.plain .badType)
  | text s, f =>
    match f.asInt? with
    | some n => .ok (.text (String.ofList (repeated n s.toList)))
    | .none => .error (.plain .badType)
  | f, text s =>
    match f.asInt? with
    | some n => .ok (.text (String.ofList (repeated n s.toList)))
    | .none => .error (.plain .badType)
  | list items, f =>
    match f.asInt? with
    | some n => .ok (.list (repeated n items))
    | .none => .error (.plain .badType)
  | tuple items, f =>
    match f.asInt? with
    | some n => .ok (.tuple (repeated n items))
    | .none => .error (.plain .badType)
  | a, b =>
    match a.asInt?, b.asInt? with
    | some m, some n => .ok (.int (m * n))
    | _, _ =>
      match a.asFloat?, b.asFloat? with
      | some x, some y => do return .real ((← x) * (← y))
      | _, _ => .error (.plain .badType)

/-- The sum of two numbers, two quantities, two texts or two sequences of one type. -/
def plus (a b : Value) : Outcome Value :=
  match a, b with
  | quantity p, quantity q => do return .quantity (← p.add q)
  | quantity _, v => .error v.lacksDimension
  | text s, text t => .ok (.text (s ++ t))
  | list xs, list ys => .ok (.list (xs ++ ys))
  | tuple xs, tuple ys => .ok (.tuple (xs ++ ys))
  | a, b =>
    match a.asInt?, b.asInt? with
    | some m, some n => .ok (.int (m + n))
    | _, _ =>
      match a.asFloat?, b.asFloat? with
      | some x, some y => do return .real ((← x) + (← y))
      | _, _ => .error (.plain .badType)

/-- The difference of two numbers or two quantities. -/
def minus (a b : Value) : Outcome Value :=
  match a, b with
  | quantity p, quantity q => do return .quantity (← p.sub q)
  | quantity _, v => .error v.lacksDimension
  | a, b =>
    match a.asInt?, b.asInt? with
    | some m, some n => .ok (.int (m - n))
    | _, _ =>
      match a.asFloat?, b.asFloat? with
      | some x, some y => do return .real ((← x) - (← y))
      | _, _ => .error (.plain .badType)

def dividedBy (a b : Value) : Outcome Value :=
  match a with
  | quantity q =>
    match b.asFloat? with
    | some x => do return .quantity (← q.div (← x))
    | .none => .error (.plain .badType)
  | _ => .error (.plain .badType)

/-- The quotient of two numbers. That of two whole numbers is rounded down to a whole number. -/
def quotient (a b : Value) : Outcome Value :=
  match a.asInt?, b.asInt? with
  | some m, some n => if n == 0 then .error (.plain .zeroDivision) else .ok (.int (Int.fdiv m n))
  | _, _ =>
    match a.asFloat?, b.asFloat? with
    | some x, some y => do
      let y ← y
      if y == 0.0 then .error (.plain .zeroDivision)
      return .real ((← x) / y)
    | _, _ => .error (.plain .badType)

def absolute : Value → Outcome Value
  | real x => .ok (.real x.abs)
  | quantity q => do return .quantity (← q.abs)
  | v =>
    match v.asInt? with
    | some n => .ok (.int n.natAbs)
    | .none => .error (.plain .badType)

/-- The largest of several values, and the first one of those that are equally large. -/
def largest : List Value → Outcome Value
  | [] => .error (.plain .badValue)
  | v :: vs => vs.foldlM (fun best w => do return if ← w.greater best then w else best) v

def sequence : Value → Outcome (List Value)
  | list items => .ok items
  | tuple items => .ok items
  | table entries => .ok (entries.map (·.1))
  | text s => .ok (s.toList.map fun c => text c.toString)
  | _ => .error (.plain .badType)

/-! ### Parts -/

/-- A part of a table by its key, or of a sequence by its position, which counts from the end if it is negative. -/
def part (v key : Value) : Outcome Value :=
  let item (items : List Value) : Outcome Value :=
    match key.asInt? with
    | some n =>
      let position := if n < 0 then n + items.length else n
      if position < 0 then .error (.plain .outOfBounds)
      else
        match items[position.toNat]? with
        | some w => .ok w
        | .none => .error (.plain .outOfBounds)
    | .none => .error (.plain .badType)
  match v with
  | table entries =>
    match entries.find? fun e => match equal e.1 key with
        | .ok b => b
        | .error _ => false with
    | some e => .ok e.2
    | .none => .error (.plain .missingKey)
  | list items => item items
  | tuple items => item items
  | _ => .error (.plain .badType)

def inner (v : Value) (path : List Value) : Outcome Value :=
  path.foldlM part v

/-! ### Copies -/

/-- The value with all quantities made again from their texts. -/
def renew : Value → Outcome Value
  | quantity q => do return .quantity (← q.renew)
  | list items => do return .list (← renewAll items)
  | tuple items => do return .tuple (← renewAll items)
  | v => .ok v
where
  renewAll : List Value → Outcome (List Value)
    | [] => .ok []
    | v :: vs => do return (← v.renew) :: (← renewAll vs)

end Value

end LabBench
