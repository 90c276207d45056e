import SmallLisp.Value.Sharing

/-! # Table entries

The entries of a table are a list of pairs with pairwise different keys. Writing to a key that is
present changes its value in place; a new key goes to the end.
-/
namespace SmallLisp

abbrev Entries := List (Value × Value)

inductive AccessFault where
  | missing
  | unusable
deriving DecidableEq, Repr

namespace Entries

def keys (entries : Entries) : List Value := entries.map (·.1)

def values (entries : Entries) : List Value := entries.map (·.2)

def find? (key : Value) : Entries → Option Value
  | [] => none
  | (k, v) :: entries => if key.equals k then some v else find? key entries

def insert (key value : Value) : Entries → Entries
  | [] => [(key, value)]
  | (k, v) :: entries =>
    if key.equals k then (k, value) :: entries else (k, v) :: insert key value entries

def erase (key : Value) : Entries → Entries
  | [] => []
  | (k, v) :: entries => if key.equals k then entries else (k, v) :: erase key entries

def eraseAll (keys : List Value) (entries : Entries) : Entries :=
  keys.foldl (fun entries key => if key.isKey then Entries.erase key entries else entries) entries

/-- Writes pairs in order, or returns the first key that cannot be one. -/
def insertAll (entries : Entries) : List (Value × Value) → Except Value Entries
  | [] => .ok entries
  | (key, value) :: pairs =>
    if key.isKey then insertAll (Entries.insert key value entries) pairs else .error key

/-- The value at a key, where a value that cannot be a key is never present. -/
def lookup? (key : Value) (entries : Entries) : Option Value :=
  if key.isKey then Entries.find? key entries else none

def access (key : Value) (entries : Entries) : Except AccessFault Value :=
  if key.isKey then
    match Entries.find? key entries with
    | some value => .ok value
    | none => .error .missing
  else .error .unusable

/-- Takes the entry of a key out. In an empty table nothing is looked up, so any value counts as
a missing key. -/
def take (key : Value) (entries : Entries) : Except AccessFault (Value × Entries) :=
  if entries.isEmpty then .error .missing
  else (access key entries).map fun value => (value, Entries.erase key entries)

def takeOr (key default : Value) (entries : Entries) : Except AccessFault (Value × Entries) :=
  match take key entries with
  | .error .missing => .ok (default, entries)
  | result => result

def pairUp : List Value → List (Value × Value)
  | key :: value :: rest => (key, value) :: pairUp rest
  | _ => []

end Entries

end SmallLisp
