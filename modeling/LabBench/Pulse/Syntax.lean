import LabBench.Value
/-!
# Pulse programs

A pulse program is a list of statements: declarations of variables, assignments, and commands that put delays and pulses
on outputs, one after the other or in loops. Every node knows its place, the position in the source at which it starts.
-/

namespace LabBench.Pulse

open Text

/-- The kinds of variables. The marker of the acquisition is never declared by its kind. -/
inductive Kind where
  | delay
  | int
  | output
  | pulse
  | marker
  deriving Repr, DecidableEq

def Kind.name : Kind → String
  | delay => "delay"
  | int => "int"
  | output => "output"
  | pulse => "pulse"
  | marker => "acq_marker"

/-- The kinds that a declaration may have, in the order in which they are looked for. -/
def Kind.declarable : List Kind :=
  [.delay, .int, .output, .pulse]

/-- The value of a variable, or of an attribute of a variable, is stored under its path: the name of the variable, and
the name of the attribute. -/
abbrev Path := List String

inductive Target where
  | named (name : String)
  | part (place : Nat) (owner name : String)

/-- What is assigned: one value, or a value for each of several attributes. -/
inductive Content where
  | value (v : Value)
  | dictionary (entries : List (String × Value))

structure Assignment where
  place : Nat
  target : Target
  content : Content

/-- A variable in a declaration, with or without an assignment. -/
inductive Declared where
  | plain (place : Nat) (name : String)
  | assigned (a : Assignment)

/-- The length of a delay: the name of a variable, or a quantity. -/
inductive Length where
  | named (name : String)
  | literal (q : Quantity Float)

/-- The number of repetitions of a loop: the name of a variable, or a number. -/
inductive Count where
  | named (name : String)
  | literal (n : Int)

/-- A part of a sequence: the name of a delay or a pulse, or a literal delay. -/
inductive Piece where
  | named (name : String)
  | delay (q : Quantity Float)

structure Train where
  place : Nat
  pieces : List Piece
  output : String

inductive Statement where
  | assign (a : Assignment)
  | declare (place : Nat) (kind : Kind) (names : List Declared)
  | acquire (place : Nat)
  | delay (place : Nat) (length : Length)
  | pulses (trains : List Train)
  | loop (place : Nat) (count : Count) (body : List Statement)

abbrev Block := List Statement

def Target.path : Target → Path
  | named name => [name]
  | part _ owner name => [owner, name]

def Declared.place : Declared → Nat
  | plain place _ => place
  | assigned a => a.place

def Declared.path : Declared → Path
  | plain _ name => [name]
  | assigned a => a.target.path

/-! ### Text on one line -/

def braced (parts : List String) : String :=
  "\x7b" ++ ", ".intercalate parts ++ "\x7d"

def Target.text : Target → String
  | named name => quote name
  | part _ owner name => quote owner ++ "." ++ quote name

def entryText (entry : String × Value) : String :=
  quote entry.1 ++ ": " ++ entry.2.quoted

def Content.text : Content → String
  | value v => v.quoted
  | dictionary entries => braced (entries.map entryText)

def Assignment.text (a : Assignment) : String :=
  a.target.text ++ " = " ++ a.content.text

def Declared.text : Declared → String
  | plain _ name => quote name
  | assigned a => a.text

def Length.toValue : Length → Value
  | named name => .text name
  | literal q => .quantity q

def Count.toValue : Count → Value
  | named name => .text name
  | literal n => .int n

def Piece.toValue : Piece → Value
  | named name => .text name
  | delay q => .quantity q

def Train.text (t : Train) : String :=
  "(" ++ ", ".intercalate (t.pieces.map fun p => p.toValue.quoted) ++ "):" ++ quote t.output

def Statement.text : Statement → String
  | assign a => a.text
  | declare _ kind names => quote kind.name ++ " " ++ ", ".intercalate (names.map Declared.text)
  | acquire _ => "acquire"
  | delay _ length => length.toValue.quoted
  | pulses trains => " ".intercalate (trains.map Train.text)
  | loop _ count body => "times " ++ count.toValue.quoted ++ " " ++ braced (textAll body)
where
  textAll : List Statement → List String
    | [] => []
    | s :: rest => s.text :: textAll rest

def Block.text (b : Block) : String :=
  braced (b.map Statement.text)

/-! ### Indented trees -/

def lineAt (depth : Nat) (s : String) : String :=
  spaces depth ++ s ++ "\n"

def valueAt (depth : Nat) (v : Value) : String :=
  lineAt depth v.display

def Target.outline (depth : Nat) : Target → String
  | named name => lineAt depth name
  | part _ owner name => lineAt depth "Attribute" ++ lineAt (depth + 1) owner ++ lineAt (depth + 1) name

def Content.outline (depth : Nat) : Content → String
  | value v => valueAt depth v
  | dictionary entries =>
    lineAt depth "Dictionary" ++ String.join (entries.map fun e => lineAt (depth + 1) (entryText e))

def Assignment.outline (depth : Nat) (a : Assignment) : String :=
  lineAt depth "Assignment" ++ a.target.outline (depth + 1) ++ a.content.outline (depth + 1)

def Declared.outline (depth : Nat) : Declared → String
  | plain _ name => lineAt depth "Variable" ++ lineAt (depth + 1) name
  | assigned a => a.outline depth

def delayOutline (depth : Nat) (length : Value) : String :=
  lineAt depth "Delay" ++ valueAt (depth + 1) length

def Piece.outline (depth : Nat) : Piece → String
  | named name => lineAt depth name
  | delay q => delayOutline depth (.quantity q)

def Train.outline (depth : Nat) (t : Train) : String :=
  lineAt depth "Pulse" ++ lineAt (depth + 1) "PulseSequence" ++
    String.join (t.pieces.map (Piece.outline (depth + 2))) ++
    lineAt (depth + 1) t.output

/-- The statement as a tree. An acquisition is indented twice as far. -/
def Statement.outline (depth : Nat) : Statement → String
  | assign a => a.outline depth
  | declare _ kind names =>
    lineAt depth "Declaration" ++ lineAt (depth + 1) kind.name ++
      String.join (names.map (Declared.outline (depth + 1)))
  | acquire _ => lineAt (2 * depth) "Acquire"
  | delay _ length => delayOutline depth length.toValue
  | pulses trains => lineAt depth "ParallelPulses" ++ String.join (trains.map (Train.outline (depth + 1)))
  | loop _ count body =>
    lineAt depth "Loop" ++ valueAt (depth + 1) count.toValue ++ lineAt (depth + 1) "Block" ++
      outlineAll (depth + 2) body
where
  outlineAll (depth : Nat) : List Statement → String
    | [] => ""
    | s :: rest => s.outline depth ++ outlineAll depth rest

def Block.outline (b : Block) : String :=
  lineAt 0 "Block" ++ String.join (b.map (Statement.outline 1))

end LabBench.Pulse
