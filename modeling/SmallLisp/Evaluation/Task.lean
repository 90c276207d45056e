import SmallLisp.Evaluation.Basic

/-! # Tasks

Evaluation consists of tasks that are carried out to a value. Special forms and builtins that
need the value of a task are given the function that carries it out.
-/
namespace SmallLisp

/-- Something that has a value: a form in a scope, or a call. -/
inductive Task where
  | evaluate (form : Value) (scope : Scope)
  | call (function : Value) (arguments : List Value)

abbrev Runner := Task → EvalM Value

/-- Calls a function on each item in order. The first error value ends this and is the result. -/
def mapItems (run : Runner) (function : Value) : List Value → EvalM (Except Value (List Value))
  | [] => return .ok []
  | item :: items => do
    let v ← run (.call function [item])
    if v.isError then return .error v
    else
      match ← mapItems run function items with
      | .error e => return .error e
      | .ok vs => return .ok (v :: vs)

def evaluateAll (run : Runner) (scope : Scope) : List Value → EvalM (Except Value (List Value))
  | [] => return .ok []
  | form :: forms => do
    let v ← run (.evaluate form scope)
    if v.isError then return .error v
    else
      match ← evaluateAll run scope forms with
      | .error e => return .error e
      | .ok vs => return .ok (v :: vs)

end SmallLisp
