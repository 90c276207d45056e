import SmallLisp.Evaluation.Task

/-! # Expansion

A list whose head is a symbol bound to an expanding function is a call of that function on the
forms after the head. The form it returns takes the place of the call.
-/
namespace SmallLisp

def expansionOf? (store : Store) (scope : Scope) (form : Value) : Option (Value × List Value) :=
  match form with
  | .list (.symbol name :: arguments) _ _ =>
    match store.lookup? scope name with
    | some function => if function.isExpander then some (function, arguments) else none
    | none => none
  | _ => none

/-- Expands a form until it is no such call. An error value ends this and is the result. -/
def expandFully (run : Runner) (scope : Scope) : Nat → Value → EvalM Value
  | 0, _ => EvalM.abort .exhausted
  | steps + 1, form => do
    match expansionOf? (← get) scope form with
    | none => return form
    | some (function, arguments) =>
      let expanded ← run (.call function arguments)
      if expanded.isError then return expanded
      else expandFully run scope steps expanded

end SmallLisp
