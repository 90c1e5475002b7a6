import LabBench.Value
/-!
# Bulletins

A bulletin is a table whose additions and removals are announced. An entry cannot be overwritten, so that every removal
is announced.
-/

namespace LabBench

/-- The announcement of an addition, with its value, or of a removal. -/
structure Bulletin.Notice where
  topic : String
  /-- How many times the lock is held when the announcement is made. -/
  depth : Nat
  name : Value
  value : Option Value

structure Bulletin where
  topic : String
  entries : List (Value × Value)
  notices : List Bulletin.Notice := []
  depth : Nat := 0

namespace Bulletin

/-- Whether two keys are the same. Quantities are told apart one by one. -/
def sameKey (a b : Value) : Bool :=
  match a.isMember [b] with
  | .ok r => r
  | .error _ => false

def find? (key : Value) : List (Value × Value) → Option Value
  | [] => none
  | (k, v) :: rest => if sameKey k key then some v else find? key rest

def put (key v : Value) : List (Value × Value) → List (Value × Value)
  | [] => [(key, v)]
  | (k, w) :: rest => if sameKey k key then (k, v) :: rest else (k, w) :: put key v rest

def drop (key : Value) : List (Value × Value) → List (Value × Value)
  | [] => []
  | (k, w) :: rest => if sameKey k key then rest else (k, w) :: drop key rest

def locked {α : Type} (act : Act Bulletin α) : Act Bulletin α := do
  modify fun b => { b with depth := b.depth + 1 }
  act.always (modify fun b => { b with depth := b.depth - 1 })

def announce (event : String) (name : Value) (value : Option Value) : Act Bulletin PUnit :=
  modify fun b => { b with notices := b.notices ++ [⟨b.topic ++ "." ++ event, b.depth, name, value⟩] }

def checkKey (key : Value) : Act Bulletin PUnit :=
  if key.isSettled then pure ⟨⟩ else .fail (.plain .badType)

def add (key v : Value) : Act Bulletin PUnit := locked do
  checkKey key
  let b ← get
  if (find? key b.entries).isSome then .refuse .missingKey key.quoted
  match v with
  | .none => .refuse .badValue "No value given."
  | _ =>
    set { b with entries := put key v b.entries }
    announce "added" key (some v)

def remove (key : Value) : Act Bulletin PUnit := locked do
  checkKey key
  let b ← get
  if (find? key b.entries).isNone then .fail (.plain .missingKey)
  set { b with entries := drop key b.entries }
  announce "removed" key none

def look (key : Value) : Act Bulletin Value := do
  checkKey key
  match find? key (← get).entries with
  | some v => return v
  | none => .fail (.plain .missingKey)

def take (key : Value) : Act Bulletin Value := do
  let v ← look key
  modify fun b => { b with entries := drop key b.entries }
  return v

/-- Entries are put in, or overwritten, without an announcement. -/
def merge (entries : List (Value × Value)) : Act Bulletin PUnit :=
  entries.forM fun (k, v) => do
    checkKey k
    modify fun b => { b with entries := put k v b.entries }

end Bulletin

end LabBench
