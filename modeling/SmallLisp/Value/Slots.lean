import SmallLisp.Value.Entries

/-! # How tables are stored

A table is kept in a dictionary that compares loosely, where `true` and 1 would be one key. So truth
values are stored under slots of their own, and every accessor translates between keys and slots.
Slots that agree have the same hash, so that a dictionary finds a slot where it agrees with a stored
one. Only lists, vectors and tables have no hash.
-/
namespace SmallLisp

inductive Slot where
  | marked (b : Bool)
  | plain (key : Value)

def Value.slot : Value → Slot
  | .bool b => .marked b
  | key => .plain key

namespace Slot

def key : Slot → Value
  | .marked b => .bool b
  | .plain key => key

def isHashable : Slot → Bool
  | .marked _ => true
  | .plain key => key.isKey

/-- The comparison of the dictionary, to which a mark is never a value. -/
def agrees : Slot → Slot → Bool
  | .marked a, .marked b => a == b
  | .plain v, .plain w => v.loose w
  | .marked _, .plain _ => false
  | .plain _, .marked _ => false

end Slot

abbrev Dictionary := List (Slot × Value)

namespace Dictionary

def find? (slot : Slot) : Dictionary → Option Value
  | [] => none
  | (stored, value) :: rest => if stored.agrees slot then some value else find? slot rest

def write (slot : Slot) (value : Value) : Dictionary → Dictionary
  | [] => [(slot, value)]
  | (stored, old) :: rest =>
    if stored.agrees slot then (stored, value) :: rest
    else (stored, old) :: write slot value rest

def remove (slot : Slot) : Dictionary → Dictionary
  | [] => []
  | (stored, value) :: rest =>
    if stored.agrees slot then rest else (stored, value) :: remove slot rest

def set (slot : Slot) (value : Value) (d : Dictionary) : Except AccessFault Dictionary :=
  if slot.isHashable then .ok (d.write slot value) else .error .unusable

def contains (slot : Slot) (d : Dictionary) : Except AccessFault Bool :=
  if slot.isHashable then .ok (d.find? slot).isSome else .error .unusable

def get (slot : Slot) (default : Value) (d : Dictionary) : Except AccessFault Value :=
  if slot.isHashable then .ok ((d.find? slot).getD default) else .error .unusable

def item (slot : Slot) (d : Dictionary) : Except AccessFault Value :=
  if slot.isHashable then
    match d.find? slot with
    | some value => .ok value
    | none => .error .missing
  else .error .unusable

def orDefault (d : Dictionary) : Option Value → Except AccessFault (Value × Dictionary)
  | some default => .ok (default, d)
  | none => .error .missing

/-- From an empty dictionary nothing is taken before a hash is asked for. -/
def pop (slot : Slot) (default : Option Value) (d : Dictionary) :
    Except AccessFault (Value × Dictionary) :=
  if d.isEmpty then d.orDefault default
  else if slot.isHashable then
    match d.find? slot with
    | some value => .ok (value, d.remove slot)
    | none => d.orDefault default
  else .error .unusable

def holds (slot : Slot) (value : Value) (d : Dictionary) : Bool :=
  match d.find? slot with
  | some stored => value.loose stored
  | none => false

/-- The comparison of dictionaries, for which the order of what they hold is nothing. -/
def agrees (d e : Dictionary) : Bool :=
  d.length == e.length && d.all fun stored => e.holds stored.1 stored.2

end Dictionary

structure StoredTable where
  dictionary : Dictionary
  metadata : Value

namespace StoredTable

def keys (table : StoredTable) : List Value := table.dictionary.map fun stored => stored.1.key

def items (table : StoredTable) : List (Value × Value) :=
  table.dictionary.map fun stored => (stored.1.key, stored.2)

def item (key : Value) (table : StoredTable) : Except AccessFault Value :=
  table.dictionary.item key.slot

def contains (key : Value) (table : StoredTable) : Bool :=
  match table.dictionary.contains key.slot with
  | .ok found => found
  | .error _ => false

def lookup (key default : Value) (table : StoredTable) : Value :=
  match table.dictionary.get key.slot default with
  | .ok value => value
  | .error _ => default

/-- A key that cannot be one is what the error names. -/
def put (key value : Value) (table : StoredTable) : Except Value StoredTable :=
  match table.dictionary.set key.slot value with
  | .ok dictionary => .ok { table with dictionary }
  | .error _ => .error key

def putAll (table : StoredTable) (pairs : List (Value × Value)) : Except Value StoredTable :=
  pairs.foldlM (fun table pair => table.put pair.1 pair.2) table

def ofPairs (pairs : List (Value × Value)) (metadata : Value) : Except Value StoredTable :=
  putAll ⟨[], metadata⟩ pairs

def pop (key : Value) (default : Option Value) (table : StoredTable) :
    Except AccessFault (Value × StoredTable) :=
  match table.dictionary.pop key.slot default with
  | .ok (value, dictionary) => .ok (value, { table with dictionary })
  | .error fault => .error fault

def drop (table : StoredTable) (key : Value) : StoredTable :=
  match table.pop key (some .nil) with
  | .ok (_, table) => table
  | .error _ => table

def copy (table : StoredTable) (metadata : Value) : Except Value StoredTable :=
  ofPairs table.items metadata

def assoc (pairs : List (Value × Value)) (table : StoredTable) : Except Value StoredTable := do
  let copied ← table.copy table.metadata
  copied.putAll pairs

def dissoc (keys : List Value) (table : StoredTable) : Except Value StoredTable := do
  let copied ← table.copy table.metadata
  return keys.foldl drop copied

end StoredTable

end SmallLisp
