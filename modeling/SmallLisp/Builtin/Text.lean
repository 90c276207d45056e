import SmallLisp.Builtin.Argument
import SmallLisp.Evaluation.Basic
import SmallLisp.Reader.Parser

/-! # Text, console and files

These builtins print values to text or to the console, read forms from text, and read lines and
files.
-/
namespace SmallLisp

def readData (source : String) : EvalM Value :=
  match readForms source with
  | .ok forms => return lastForm forms
  | .error (.fault f) => EvalM.errorOf f
  | .error (.longLiteral digits) => EvalM.abort (.longLiteral digits)

def readFileText (path : Path) : EvalM String := do
  if path.text.toList.contains '\x00' then EvalM.abort .nulInPath
  match (← get).files.bytes path with
  | .ok bytes => EvalM.ofAbort (fileText bytes)
  | .error reason => EvalM.fault (.unreadable path.text reason)

namespace TextOp

def apply (op : TextOp) (arguments : List Value) : EvalM Value :=
  match op with
  | printReadable => return .str (← EvalM.printAll true " " arguments)
  | printPlain => return .str (← EvalM.printAll false "" arguments)
  | printLineReadable => do
    let text ← EvalM.printAll true " " arguments
    EvalM.write (text ++ "\n")
    return .nil
  | printLinePlain => do
    let text ← EvalM.printAll false " " arguments
    EvalM.write (text ++ "\n")
    return .nil
  | readForm => do
    let v ← EvalM.ofFault (onlyArgument op.name arguments)
    readData (← EvalM.ofFault (expectText op.name v))
  | readFile => do
    let v ← EvalM.ofFault (onlyArgument op.name arguments)
    let text ← EvalM.ofFault (expectText op.name v)
    return .str (← readFileText (Path.ofText text))
  | readLine => do
    let v ← EvalM.ofFault (onlyArgument op.name arguments)
    let prompt ← EvalM.ofFault (expectText op.name v)
    EvalM.write prompt
    match ← EvalM.readLine with
    | none => return .nil
    | some line => return .str line

end TextOp

end SmallLisp
