import SmallLisp.Builtin.Argument
import SmallLisp.Table

/-! # Equality, sequences and tables

These builtins look only at their arguments. `nil` stands for an empty sequence where a sequence
is expected, and for an empty table where a table is searched.
-/
namespace SmallLisp

def allSame : List Value → Bool
  | v :: w :: rest => v.equals w && allSame (w :: rest)
  | _ => true

def elementCount? : Value → Option Nat
  | .list items _ _ => some items.length
  | .vector items _ _ => some items.length
  | .table entries _ => some entries.length
  | _ => none

def isVacant : Value → Bool
  | .nil => true
  | .list items _ _ => items.isEmpty
  | .vector items _ _ => items.isEmpty
  | .table entries _ => entries.isEmpty
  | _ => false

def listOrNil (items : List Value) : Value := if items.isEmpty then .nil else .ofList items

def insertFlat (entries : Entries) (flat : List Value) : Except Fault Entries :=
  if flat.length % 2 = 0 then writeEntries entries (Entries.pairUp flat)
  else .error (.count .oddEntries)

def expectTable (function : String) (v : Value) : Except Fault (Entries × Value) :=
  match v with
  | .table entries metadata => .ok (entries, metadata)
  | _ => .error (.kind (.unexpected function .table v))

namespace CollectionOp

/-- Whether the result is a value that an argument holds. Every other list or vector that results
is a new one and gets its identity from the caller. -/
def selects : CollectionOp → Bool
  | nth => true
  | first => true
  | get => true
  | _ => false

def elementAt (items : List Value) (index : Value) : Except Fault Value :=
  match index with
  | .int n =>
    if n < 0 then .error .indexOutOfRange
    else
      match items[n.toNat]? with
      | some v => .ok v
      | none => .error .indexOutOfRange
  | _ => .error (.kind .indexNotNumber)

/-- Adds elements to a collection where this is cheap: in front of a list one after the other,
and behind a vector. -/
def conjoin (collection : Value) (items : List Value) : Except Fault Value :=
  match collection with
  | .vector old metadata _ => .ok (.vector (old ++ items) metadata none)
  | .list old _ _ => .ok (.ofList (items.reverse ++ old))
  | .nil => .ok (.ofList items.reverse)
  | _ => .error (.kind (.unexpected conj.name .sequence collection))

def apply (op : CollectionOp) (arguments : List Value) : Except Fault Value :=
  match op with
  | equal => .ok (.bool (allSame arguments))
  | isEmpty => do
    return .bool (isVacant (← onlyArgument op.name arguments))
  | count => do
    let v ← onlyArgument op.name arguments
    return .int ((elementCount? v).getD 0)
  | list => .ok (.ofList arguments)
  | vector => .ok (.ofVector arguments)
  | vec => do
    let items ← expectElements op.name (← onlyArgument op.name arguments)
    return .ofVector items
  | cons => do
    let (head, tail) ← twoArguments op.name arguments
    return .ofList (head :: (← expectElements op.name tail))
  | concat => do
    let parts ← arguments.mapM (expectElements op.name)
    return .ofList parts.flatten
  | nth => do
    let (sequence, index) ← twoArguments op.name arguments
    elementAt (← expectElements op.name sequence) index
  | first => do
    let items ← expectElements op.name (← onlyArgument op.name arguments)
    return items.headD .nil
  | rest => do
    let items ← expectElements op.name (← onlyArgument op.name arguments)
    return .ofList items.tail
  | conj =>
    match arguments with
    | [] => .error (.count (.atLeastOne op.name))
    | collection :: items => conjoin collection items
  | seq => do
    match ← onlyArgument op.name arguments with
    | .str text => return listOrNil (text.toList.map fun c => .str (String.singleton c))
    | v => return listOrNil (← expectElements op.name v)
  | table => do
    return .ofEntries (← insertFlat [] arguments)
  | assoc =>
    match arguments with
    | [] => .error (.count (.tableMissing op.name))
    | v :: flat => do
      let (entries, metadata) ← expectTable op.name v
      return .table (← insertFlat entries flat) metadata
  | dissoc =>
    match arguments with
    | [] => .error (.count (.tableMissing op.name))
    | v :: unwanted => do
      let (entries, metadata) ← expectTable op.name v
      return .table (Entries.eraseMany unwanted entries) metadata
  | get => do
    let (v, key) ← twoArguments op.name arguments
    if v matches .nil then return .nil
    let (entries, _) ← expectTable op.name v
    return (entries.lookup? key).getD .nil
  | contains => do
    let (v, key) ← twoArguments op.name arguments
    if v matches .nil then return .bool false
    let (entries, _) ← expectTable op.name v
    return .bool (entries.lookup? key).isSome
  | keys => do
    let (entries, _) ← expectTable op.name (← onlyArgument op.name arguments)
    return .ofList entries.keys
  | vals => do
    let (entries, _) ← expectTable op.name (← onlyArgument op.name arguments)
    return .ofList entries.values

end CollectionOp

end SmallLisp
