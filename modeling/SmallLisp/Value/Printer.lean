import SmallLisp.Abort
import SmallLisp.Value.Heap

/-! # Printing values

The readable form quotes and escapes text so that the reader can read it back; the plain form
writes text as it is. A cell prints its content. A cell that is met again inside itself has no
text.
-/
namespace SmallLisp

def escapeChar (c : Char) : List Char :=
  if c = '\\' then ['\\', '\\']
  else if c = '"' then ['\\', '"']
  else if c = '\n' then ['\\', 'n']
  else [c]

def escape (text : List Char) : List Char := '"' :: text.flatMap escapeChar ++ ['"']

def numeralText (n : Int) : Except Abort (List Char) :=
  match Text.numeral? n with
  | some text => .ok text.toList
  | none => .error .longNumeral

namespace Value

mutual

/-- The text of a value. `cell` gives the text of the content of a cell. -/
def render (readable : Bool) (cell : CellId → Except Abort (List Char)) :
    Value → Except Abort (List Char)
  | .nil => .ok "nil".toList
  | .bool b => .ok (if b then "true" else "false").toList
  | .int n => numeralText n
  | .str text => .ok (if readable then escape text.toList else text.toList)
  | .symbol name => .ok name.toList
  | .keyword name => .ok (':' :: name.toList)
  | .list items _ _ => do
    let parts ← renderAll readable cell items
    return '(' :: [' '].intercalate parts ++ [')']
  | .vector items _ _ => do
    let parts ← renderAll readable cell items
    return '[' :: [' '].intercalate parts ++ [']']
  | .table entries _ => do
    let parts ← renderEntries readable cell entries
    return '\x7b' :: [',', ' '].intercalate parts ++ ['\x7d']
  | .atom id => do
    let content ← cell id
    return "(atom ".toList ++ content ++ [')']
  | .native .. => .ok "#<function>".toList
  | .closure _ _ _ _ expands _ => .ok (if expands then "#<macro>" else "#<function>").toList
  | .error message cause => renderFailure readable cell message cause
termination_by structural x => x

def renderAll (readable : Bool) (cell : CellId → Except Abort (List Char)) :
    List Value → Except Abort (List (List Char))
  | [] => .ok []
  | v :: vs => do
    let part ← render readable cell v
    let parts ← renderAll readable cell vs
    return part :: parts
termination_by structural x => x

def renderEntries (readable : Bool) (cell : CellId → Except Abort (List Char)) :
    List (Value × Value) → Except Abort (List (List Char))
  | [] => .ok []
  | (k, v) :: entries => do
    let key ← render readable cell k
    let value ← render readable cell v
    let parts ← renderEntries readable cell entries
    return (key ++ ' ' :: value) :: parts
termination_by structural x => x

def renderFailure (readable : Bool) (cell : CellId → Except Abort (List Char))
    (message : String) : Option Value → Except Abort (List Char)
  | none => .ok message.toList
  | some cause => render readable cell cause
termination_by structural x => x

end

end Value

/-- The text of the content of a cell. `around` holds the cells it is printed inside of. -/
def renderCell (readable : Bool) (heap : Heap) :
    Nat → List CellId → CellId → Except Abort (List Char)
  | 0, _, _ => .error .endless
  | depth + 1, around, id =>
    if id ∈ around then .error .endless
    else (heap.content id).render readable (renderCell readable heap depth (id :: around))

/-- How the text of a cell is found: no chain of distinct cells is longer than their number. -/
def cellPrinter (readable : Bool) (heap : Heap) : CellId → Except Abort (List Char) :=
  renderCell readable heap (heap.cells.size + 1) []

def printValue (heap : Heap) (readable : Bool) (v : Value) : Except Abort String :=
  (v.render readable (cellPrinter readable heap)).map String.ofList

def printJoined (heap : Heap) (readable : Bool) (separator : String) (vs : List Value) :
    Except Abort String :=
  (Value.renderAll readable (cellPrinter readable heap) vs).map fun parts =>
    String.ofList (separator.toList.intercalate parts)

end SmallLisp
