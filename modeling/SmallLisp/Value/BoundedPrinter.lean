import SmallLisp.Value.Printer

/-! # Printing within a number of levels

Every value inside another one is printed on a level of its own, and the host has only so many
levels. Cells are not kept track of, so a cell inside itself uses up all of them.
-/
namespace SmallLisp

namespace Value

/-- The text of a value, given how the values in it and the contents of cells are printed. -/
def renderStep (readable : Bool) (cell : CellId → Except Abort (List Char))
    (part : Value → Except Abort (List Char)) : Value → Except Abort (List Char)
  | .nil => .ok "nil".toList
  | .bool b => .ok (if b then "true" else "false").toList
  | .int n => numeralText n
  | .str text => .ok (if readable then escape text.toList else text.toList)
  | .symbol name => .ok name.toList
  | .keyword name => .ok (':' :: name.toList)
  | .list items _ _ => do
    let parts ← items.mapM part
    return '(' :: [' '].intercalate parts ++ [')']
  | .vector items _ _ => do
    let parts ← items.mapM part
    return '[' :: [' '].intercalate parts ++ [']']
  | .table entries _ => do
    let parts ← entries.mapM fun (k, v) => do
      let key ← part k
      let value ← part v
      return key ++ ' ' :: value
    return '\x7b' :: [',', ' '].intercalate parts ++ ['\x7d']
  | .atom id => do
    let content ← cell id
    return "(atom ".toList ++ content ++ [')']
  | .native .. => .ok "#<function>".toList
  | .closure _ _ _ _ expands _ => .ok (if expands then "#<macro>" else "#<function>").toList
  | .error message none => .ok message.toList
  | .error _ (some cause) => part cause

def renderWithin (readable : Bool) (heap : Heap) : Nat → Value → Except Abort (List Char)
  | 0, _ => .error .exhausted
  | levels + 1, v =>
    let part := renderWithin readable heap levels
    v.renderStep readable (fun id => part (heap.content id)) part

end Value

def printWithin (levels : Nat) (heap : Heap) (readable : Bool) (v : Value) : Except Abort String :=
  (v.renderWithin readable heap levels).map String.ofList

end SmallLisp
