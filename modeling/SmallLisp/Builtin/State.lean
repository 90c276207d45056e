import SmallLisp.Builtin.Argument
import SmallLisp.Evaluation.Basic

/-! # Cells, metadata, throwing and the clock

These builtins use the store or leave the evaluation.
-/
namespace SmallLisp.StateOp

/-- A copy of a value with other metadata. A copy of a function, list or vector has an identity of
its own. -/
def withMetadataOf (v metadata : Value) : EvalM Value :=
  match v with
  | .list items _ _ => return .list items metadata (some (← EvalM.newIdentity))
  | .vector items _ _ => return .vector items metadata (some (← EvalM.newIdentity))
  | .table entries _ => return .table entries metadata
  | .native _ op home _ => return .native (← EvalM.newIdentity) op home metadata
  | .closure _ parameters body scope expands _ =>
    return .closure (← EvalM.newIdentity) parameters body scope expands metadata
  | _ => EvalM.fault (.kind (.noMetadata withMetadata.name v))

def apply (op : StateOp) (arguments : List Value) : EvalM Value :=
  match op with
  | atom => do
    EvalM.newCell (← EvalM.ofFault (onlyArgument op.name arguments))
  | deref => do
    let v ← EvalM.ofFault (onlyArgument op.name arguments)
    let cell ← EvalM.ofFault (expectAtom op.name v)
    return (← get).heap.content cell
  | reset => do
    let (v, content) ← EvalM.ofFault (twoArguments op.name arguments)
    let cell ← EvalM.ofFault (expectAtom op.name v)
    modify (·.setCell cell content)
    return content
  | withMetadata => do
    let (v, metadata) ← EvalM.ofFault (twoArguments op.name arguments)
    withMetadataOf v metadata
  | throwValue => do
    let payload ← EvalM.ofFault (onlyArgument op.name arguments)
    let _ ← EvalM.represent payload
    throw (.thrown payload)
  | time =>
    if arguments.isEmpty then return .int (← get).clock
    else EvalM.fault (.count (.noArguments op.name))

end SmallLisp.StateOp
