import SmallLisp.Value.Printer
import SmallLisp.Text.Blank

/-! # Representing values in diagnostics

The representation names the kind of every value and quotes every text. A list or vector that is
met again inside itself, which only a cell makes possible, is cut short; lists and vectors are
told apart by identity. Other endless values have no representation.
-/
namespace SmallLisp

def Parameters.text (parameters : Parameters) : String :=
  let names := " ".intercalate parameters.names
  match parameters.rest with
  | none => names
  | some rest => String.ofList (Text.strip (names ++ " & " ++ rest).toList)

/-- What a representation is inside of. -/
structure Surroundings where
  sequences : List Identity
  /-- The cells entered since the innermost of them. -/
  cells : List CellId

namespace Surroundings

def outermost : Surroundings := ⟨[], []⟩

def hold (around : Surroundings) : Option Identity → Bool
  | some identity => around.sequences.contains identity
  | none => false

def within (around : Surroundings) : Option Identity → Surroundings
  | some identity => ⟨identity :: around.sequences, []⟩
  | none => around

def entering (around : Surroundings) (cell : CellId) : Surroundings :=
  { around with cells := cell :: around.cells }

end Surroundings

def labelled (name : String) (argument : List Char) : List Char :=
  name.toList ++ '(' :: argument ++ [')']

def bracketed (parts : List (List Char)) : List Char :=
  '[' :: [',', ' '].intercalate parts ++ [']']

namespace Value

mutual

def represent (cell : Surroundings → CellId → Except Abort (List Char))
    (around : Surroundings) : Value → Except Abort (List Char)
  | .nil => .ok "nil".toList
  | .bool b => .ok (if b then "True" else "False").toList
  | .int n => numeralText n
  | .str text => .ok (Text.quoted text.toList)
  | .symbol name => .ok (labelled "Symbol" (Text.quoted name.toList))
  | .keyword name => .ok (labelled "Keyword" (Text.quoted name.toList))
  | .list items _ identity =>
    if around.hold identity then .ok "List([...])".toList
    else do
      let parts ← representAll cell (around.within identity) items
      return labelled "List" (bracketed parts)
  | .vector items _ identity =>
    if around.hold identity then .ok "Vector([...])".toList
    else do
      let parts ← representAll cell (around.within identity) items
      return labelled "Vector" (bracketed parts)
  | .table entries _ => do
    let parts ← representEntries cell around entries
    return labelled "HashMap" ('\x7b' :: [',', ' '].intercalate parts ++ ['\x7d'])
  | .atom id => do
    let content ← cell around id
    return labelled "Atom" content
  | .native _ op _ _ => .ok ("<native " ++ op.name ++ ">").toList
  | .closure _ parameters _ _ expands _ =>
    .ok ((if expands then "<macro (" else "<fn* (") ++ parameters.text ++ ")>").toList
  | .error message cause => do
    let tail ← representCause cell around cause
    return labelled "Error" (Text.quoted message.toList ++ tail)
termination_by structural x => x

def representAll (cell : Surroundings → CellId → Except Abort (List Char))
    (around : Surroundings) : List Value → Except Abort (List (List Char))
  | [] => .ok []
  | v :: vs => do
    let part ← represent cell around v
    let parts ← representAll cell around vs
    return part :: parts
termination_by structural x => x

def representEntries (cell : Surroundings → CellId → Except Abort (List Char))
    (around : Surroundings) : List (Value × Value) → Except Abort (List (List Char))
  | [] => .ok []
  | (k, v) :: entries => do
    let key ← represent cell around k
    let value ← represent cell around v
    let parts ← representEntries cell around entries
    return (key ++ ':' :: ' ' :: value) :: parts
termination_by structural x => x

def representCause (cell : Surroundings → CellId → Except Abort (List Char))
    (around : Surroundings) : Option Value → Except Abort (List Char)
  | none => .ok []
  | some cause => do
    let text ← represent cell around cause
    return ", cause=".toList ++ text
termination_by structural x => x

end

end Value

def representCell (heap : Heap) : Nat → Surroundings → CellId → Except Abort (List Char)
  | 0, _, _ => .error .endless
  | depth + 1, around, id =>
    if id ∈ around.cells then .error .endless
    else (heap.content id).represent (representCell heap depth) (around.entering id)

/-- A bound on the number of cells that a representation is inside of: between two lists or
vectors on the way in no cell occurs twice, and no list or vector occurs twice at all. -/
def representationDepth (heap : Heap) : Nat := (heap.nextIdentity + 1) * (heap.cells.size + 1)

def representValue (heap : Heap) (v : Value) : Except Abort String :=
  (v.represent (representCell heap (representationDepth heap)) .outermost).map String.ofList

end SmallLisp
