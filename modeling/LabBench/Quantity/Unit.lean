import LabBench.Fault
import LabBench.Magnitude
/-!
# Units

A unit is written as a product of symbols divided by points, such as `mN.m.ks-2`. Each symbol is a unit of the
international system with a decade in front of it, a letter for a power of ten, and an exponent behind it.
-/

namespace LabBench.Unit

open Number Text

/-- The base units with the gram for the kilogram, the derived units that are in use, and the gauss. -/
inductive Symbol where
  | ampere | candela | gram | kelvin | metre | mole | second
  | hertz | joule | newton | tesla | volt | gauss
  deriving Repr, DecidableEq

namespace Symbol

def all : List Symbol :=
  [.ampere, .candela, .gram, .kelvin, .metre, .mole, .second, .hertz, .joule, .newton, .tesla, .volt, .gauss]

def text : Symbol → String
  | ampere => "A" | candela => "cd" | gram => "g" | kelvin => "K" | metre => "m" | mole => "mol" | second => "s"
  | hertz => "Hz" | joule => "J" | newton => "N" | tesla => "T" | volt => "V" | gauss => "G"

def ofText? (cs : List Char) : Option Symbol :=
  all.find? fun u => u.text.toList == cs

theorem mem_all (u : Symbol) : u ∈ all := by
  cases u <;> decide

/-- The value of one unit in base units. All but the gram and the gauss are coherent. -/
def factor {K : Type} [Magnitude K] : Symbol → K
  | gram => 0.001
  | gauss => 1e-4
  | _ => 1.0

end Symbol

/-- The letters for powers of ten, in the order in which they are tried; the empty one stands for no decade. -/
def decades : List (String × Int) :=
  [("y", -24), ("z", -21), ("a", -18), ("f", -15), ("p", -12), ("n", -9), ("u", -6), ("m", -3), ("c", -2), ("d", -1),
    ("", 0), ("da", 1), ("h", 2), ("k", 3), ("M", 6), ("G", 9), ("T", 12), ("P", 15), ("E", 18), ("Z", 21), ("Y", 24)]

/-- A decade, a symbol and an exponent, which is not written for the first power. -/
structure Term (K : Type) where
  decade : Int
  symbol : Symbol
  exponent : Option K

/-- Why a text is not a unit. -/
inductive Problem where
  | ambiguous (symbol : String)
  | unrecognized (symbol : String)
  deriving Repr, DecidableEq

def Problem.message : Problem → String
  | ambiguous s => s!"Ambiguous unit symbol: \"{s}\""
  | unrecognized s => s!"Unrecognized unit symbol: \"{s}\""

def Problem.fault (p : Problem) : Fault :=
  .because .badValue p.message

variable {K : Type} [Magnitude K]

/-- A text cut before the first place from which on it is a numeral. -/
def splitExponent : List Char → List Char × Option Numeral
  | [] => ([], none)
  | c :: rest =>
    match Numeral.parse? (c :: rest) with
    | some n => ([], some n)
    | none =>
      let (body, n) := splitExponent rest
      (c :: body, n)

def readWith? (symbol : List Char) (decade : String × Int) : Option (Term K) :=
  if decade.1.toList.isPrefixOf symbol then
    let (body, n) := splitExponent (symbol.drop decade.1.length)
    (Symbol.ofText? body).map fun u => ⟨decade.2, u, n.map Magnitude.ofNumeral⟩
  else none

/-- One symbol with its decade and its exponent. There has to be exactly one reading. -/
def parseTerm (symbol : List Char) : Except Problem (Term K) :=
  match decades.filterMap (readWith? symbol) with
  | [] => .error (.unrecognized (String.ofList symbol))
  | [t] => .ok t
  | _ :: _ :: _ => .error (.ambiguous (String.ofList symbol))

def parse (s : String) : Except Problem (List (Term K)) :=
  (splitAt '.' s.toList).mapM fun symbol => parseTerm (trim isBlank symbol)

def decade (terms : List (Term K)) : Int :=
  (terms.map Term.decade).foldr (· + ·) 0

def Term.render (t : Term Float) : String :=
  t.symbol.text ++ match t.exponent with
    | none => ""
    | some e => "**" ++ plain e

def render (terms : List (Term Float)) : String :=
  "*".intercalate (terms.map Term.render)

def Term.power (t : Term K) : K :=
  t.exponent.getD (Magnitude.ofInt 1)

def addPower (u : Symbol) (e : K) : List (Symbol × K) → List (Symbol × K)
  | [] => [(u, e)]
  | (v, f) :: rest => if v = u then (v, f + e) :: rest else (v, f) :: addPower u e rest

/-- The symbols of a product, each one once, with the sums of their exponents. -/
def collect (terms : List (Term K)) : List (Symbol × K) :=
  terms.foldl (fun powers t => addPower t.symbol t.power powers) []

end LabBench.Unit
