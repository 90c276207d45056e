import SmallLisp.Builtin.Argument
import SmallLisp.Evaluation.Task

/-! # Builtins that call functions

`map` and `swap!` carry out calls while they run. `eval` hands its argument back to be evaluated
in the global scope of the builtin.
-/
namespace SmallLisp.CallOp

/-- Sets a cell to the value of a function on its content and further arguments. A call that ends
in an error value leaves the cell as the call left it. -/
def swapContent (run : Runner) (cell : CellId) (function : Value) (arguments : List Value) :
    EvalM Value := do
  let v ← run (.call function ((← get).heap.content cell :: arguments))
  if v.isError then return v
  modify (·.setCell cell v)
  return v

def apply (run : Runner) (home : FrameId) (op : CallOp) (arguments : List Value) : EvalM Step :=
  match op with
  | map => do
    let (function, sequence) ← EvalM.ofFault (twoArguments op.name arguments)
    EvalM.ofFault (expectFunction op.name function)
    let items ← EvalM.ofFault (expectElements op.name sequence)
    match ← mapItems run function items with
    | .error e => return .done e
    | .ok vs => return .done (← EvalM.identify (.ofList vs))
  | swap =>
    match arguments with
    | v :: function :: rest => do
      let cell ← EvalM.ofFault (expectAtom op.name v)
      EvalM.ofFault (expectFunction op.name function)
      return .done (← swapContent run cell function rest)
    | _ => EvalM.fault (.count .swapParts)
  | eval => do
    let form ← EvalM.ofFault (onlyArgument op.name arguments)
    return .tail form (.global home)

end SmallLisp.CallOp
