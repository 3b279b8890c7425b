/-!
Values of configuration documents, and how keys are entered into tables. A table remembers how it
came to be, because that decides what may still be added to it: a table written in braces is
complete, one with a header of its own cannot get a second one, and one that only stands on the way
to others can.
-/
namespace ZoneRouting.Toml

inductive Origin where
  | inline
  | header
  | implied
  | dotted
  deriving DecidableEq, Repr

inductive Value where
  | string (text : String)
  | integer (n : Int)
  -- A number with a fraction or an exponent, or one of the special ones. Which one it is, no reader
  -- of documents asks.
  | float
  | boolean (b : Bool)
  | datetime
  | array (elements : List Value)
  | table (origin : Origin) (entries : List (String × Value))
  | tables (latest : List Value)
  deriving Repr, Inhabited

abbrev Entries := List (String × Value)

namespace Entries

def get? (entries : Entries) (key : String) : Option Value := entries.lookup key

def set (key : String) (v : Value) : Entries → Entries
  | [] => [(key, v)]
  | (k, w) :: rest => if k = key then (k, v) :: rest else (k, w) :: set key v rest

end Entries

def Value.onTable (f : Origin → Entries → Option Entries) : Value → Option Value
  | .table origin entries => (f origin entries).map (.table origin)
  | .tables (.table origin entries :: earlier) =>
    (f origin entries).map fun entries => .tables (.table origin entries :: earlier)
  | _ => none

-- Enters a value under a dotted key. The tables on the way are made as they are needed; those that
-- are there must not have been written in another form.
def assign (v : Value) : (path : List String) → (origin : Origin) → Entries → Option Entries
  | [], _, _ => none
  | [key], _, entries =>
    match entries.get? key with
    | some _ => none
    | none => some (entries.set key v)
  | key :: next :: path, _, entries =>
    let enter (origin : Origin) (inner : Entries) : Option Entries :=
      if path = [] ∧ origin ≠ .dotted then none else assign v (next :: path) origin inner
    match entries.get? key with
    | none => (enter .dotted []).map fun inner => entries.set key (.table .dotted inner)
    | some (.table .implied inner) =>
      (enter .implied inner).map fun inner => entries.set key (.table .implied inner)
    | some (.table .dotted inner) =>
      (enter .dotted inner).map fun inner => entries.set key (.table .dotted inner)
    | some (.tables latest) => (Value.onTable enter (.tables latest)).map (entries.set key)
    | some _ => none

-- Goes down a path of headers and changes the table at its end. Tables that are not there are
-- made.
def descend (f : Entries → Option Entries) : (path : List String) → Entries → Option Entries
  | [], entries => f entries
  | key :: path, entries =>
    match entries.get? key with
    | none => (descend f path []).map fun inner => entries.set key (.table .implied inner)
    | some (.table .inline _) => none
    | some v => (v.onTable fun _ inner => descend f path inner).map (entries.set key)

def openTable (path : List String) (root : Entries) : Option Entries :=
  match path.getLast? with
  | none => none
  | some key =>
    descend (fun entries =>
      match entries.get? key with
      | none => some (entries.set key (.table .header []))
      | some (.table .implied inner) => some (entries.set key (.table .header inner))
      | some _ => none) path.dropLast root

def openElement (path : List String) (root : Entries) : Option Entries :=
  match path.getLast? with
  | none => none
  | some key =>
    descend (fun entries =>
      match entries.get? key with
      | none => some (entries.set key (.tables [.table .header []]))
      | some (.tables latest) => some (entries.set key (.tables (.table .header [] :: latest)))
      | some _ => none) path.dropLast root

end ZoneRouting.Toml
