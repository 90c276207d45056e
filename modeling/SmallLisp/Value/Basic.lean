import SmallLisp.Scope
import SmallLisp.Builtin.Basic

/-! # Values

Program text and data are the same values. Lists, vectors, tables and functions carry metadata,
which is `nil` unless it was set. Cells and functions are told apart by number; everything else
is equal when its content is. A list or vector that evaluation makes also has a number: diagnostics
need it to notice that the same list is met again inside itself, by way of a cell.

A text consists of characters. One half of a surrogate pair is none, so no text holds it.
-/
namespace SmallLisp

abbrev CellId := Nat

/-- The number that tells one function, list or vector from another. -/
abbrev Identity := Nat

/-- The parameter list of a function: positional names and the name that takes the remaining
arguments, if any. -/
structure Parameters where
  names : List String
  rest : Option String
deriving DecidableEq, Repr

inductive Value where
  | nil
  | bool (b : Bool)
  | int (n : Int)
  | str (text : String)
  | symbol (name : String)
  /-- An identifier that stands for itself. The name excludes the colon. -/
  | keyword (name : String)
  /-- A list. It has no identity if it was read, since it then holds no cells. -/
  | list (items : List Value) (metadata : Value) (identity : Option Identity)
  | vector (items : List Value) (metadata : Value) (identity : Option Identity)
  | table (entries : List (Value × Value)) (metadata : Value)
  | atom (cell : CellId)
  /-- A builtin function. `home` is the global frame it was made for. -/
  | native (id : Identity) (op : Builtin) (home : FrameId) (metadata : Value)
  /-- A function of the program. One that `expands` turns the forms of its calls into a new form. -/
  | closure (id : Identity) (parameters : Parameters) (body : Value) (scope : Scope)
      (expands : Bool) (metadata : Value)
  | error (message : String) (cause : Option Value)
deriving Inhabited

namespace Value

def ofList (items : List Value) : Value := .list items .nil none

def ofVector (items : List Value) : Value := .vector items .nil none

def ofEntries (entries : List (Value × Value)) : Value := .table entries .nil

def identified (identity : Identity) : Value → Value
  | .list items metadata _ => .list items metadata (some identity)
  | .vector items metadata _ => .vector items metadata (some identity)
  | v => v

/-- Everything but `nil` and `false` counts as true. -/
def isTruthy : Value → Bool
  | .nil => false
  | .bool b => b
  | _ => true

def isSequential : Value → Bool
  | .list .. => true
  | .vector .. => true
  | _ => false

def isList : Value → Bool
  | .list .. => true
  | _ => false

def isNumber : Value → Bool
  | .int _ => true
  | _ => false

def isError : Value → Bool
  | .error .. => true
  | _ => false

def isFunction : Value → Bool
  | .native .. => true
  | .closure .. => true
  | _ => false

def isExpander : Value → Bool
  | .closure _ _ _ _ expands _ => expands
  | _ => false

def isKey : Value → Bool
  | .list .. => false
  | .vector .. => false
  | .table .. => false
  | _ => true

def elements? : Value → Option (List Value)
  | .nil => some []
  | .list items _ _ => some items
  | .vector items _ _ => some items
  | _ => none

def metadata? : Value → Option Value
  | .list _ m _ => some m
  | .vector _ m _ => some m
  | .table _ m => some m
  | .native _ _ _ m => some m
  | .closure _ _ _ _ _ m => some m
  | _ => none

/-- What a handler receives for a failure: the cause if there is one, otherwise the message. -/
def payload (message : String) (cause : Option Value) : Value := cause.getD (.str message)

end Value

end SmallLisp
