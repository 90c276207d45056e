import SmallLisp.Builtin.Argument

/-! # Identifiers and metadata

Identifiers can be made of any text. Metadata is read here; setting it is in `StateOp`, since a
function with other metadata is a new function.
-/
namespace SmallLisp.LabelOp

def apply (op : LabelOp) (arguments : List Value) : Except Fault Value := do
  let v ← onlyArgument op.name arguments
  match op with
  | symbol =>
    match v with
    | .str text => return .symbol text
    | _ => .error (.kind (.nameNotText op.name))
  | keyword =>
    match v with
    | .keyword name => return .keyword name
    | .str text => return .keyword text
    | _ => .error (.kind (.nameNotText op.name))
  | metadata =>
    match v.metadata? with
    | some m => return m
    | none => .error (.kind (.noMetadata op.name v))

end SmallLisp.LabelOp
