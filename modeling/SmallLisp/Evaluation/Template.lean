import SmallLisp.Evaluation.Basic

/-! # Templates

A template is quoted code in which some parts are evaluated: `(unquote e)` stands for the value
of `e`, and an element `(splice-unquote e)` for the elements of the value of `e`. Expansion turns
a template into ordinary code built from `quote`, `cons` and `concat`. All lists of that code are
new.
-/
namespace SmallLisp

def Value.isSymbolNamed (name : String) : Value → Bool
  | .symbol other => other == name
  | _ => false

def Value.tailAfter? (name : String) : Value → Option (List Value)
  | .list (head :: tail) _ _ => if head.isSymbolNamed name then some tail else none
  | .vector (head :: tail) _ _ => if head.isSymbolNamed name then some tail else none
  | _ => none

def quoteForm (form : Value) : EvalM Value := EvalM.newList [.symbol "quote", form]

def onlyForm (name : String) : List Value → Except Fault Value
  | [form] => .ok form
  | _ => .error (.count (.oneForm name))

mutual

def expandTemplate : Value → EvalM Value
  | .list items metadata identity => expandItems true (.list items metadata identity) items
  | .vector items metadata identity => expandItems false (.vector items metadata identity) items
  | form => quoteForm form
termination_by structural x => x

/-- The code that rebuilds a sequence from its elements. What follows an element counts as a
list, also in a vector, so `unquote` may stand there. `empty` is quoted when no element is left. -/
def expandItems (isList : Bool) (empty : Value) : List Value → EvalM Value
  | [] => quoteForm empty
  | head :: tail =>
    if isList && head.isSymbolNamed "unquote" then EvalM.ofFault (onlyForm "unquote" tail)
    else
      match head.tailAfter? "splice-unquote" with
      | some parts => do
        let spliced ← EvalM.ofFault (onlyForm "splice-unquote" parts)
        let others ← expandItems true (.ofList []) tail
        EvalM.newList [.symbol "concat", spliced, others]
      | none => do
        let first ← expandTemplate head
        let others ← expandItems true (.ofList []) tail
        EvalM.newList [.symbol "cons", first, others]
termination_by structural x => x

end

end SmallLisp
