import SmallLisp.Fault

/-! # Arguments

Checks that builtins share.
-/
namespace SmallLisp

def onlyArgument (function : String) : List Value → Except Fault Value
  | [v] => .ok v
  | _ => .error (.count (.exactly function 1))

def twoArguments (function : String) : List Value → Except Fault (Value × Value)
  | [v, w] => .ok (v, w)
  | _ => .error (.count (.exactly function 2))

def expectElements (function : String) (v : Value) : Except Fault (List Value) :=
  match v.elements? with
  | some items => .ok items
  | none => .error (.kind (.unexpected function .sequence v))

def expectText (function : String) (v : Value) : Except Fault String :=
  match v with
  | .str text => .ok text
  | _ => .error (.kind (.unexpected function .text v))

def expectAtom (function : String) (v : Value) : Except Fault CellId :=
  match v with
  | .atom cell => .ok cell
  | _ => .error (.kind (.unexpected function .atom v))

/-- Nothing but the check that the value is a function. -/
def expectFunction (function : String) (v : Value) : Except Fault Unit :=
  if v.isFunction then .ok () else .error (.kind (.unexpected function .function v))

end SmallLisp
