import SmallLisp.Evaluation.Application
import SmallLisp.Evaluation.SpecialForm

/-! # The evaluator

One step of evaluation ends in a value or in a form to be evaluated next. A task is carried out
by steps until there is a value; tasks that a step needs on the way are carried out one level
deeper. So a chain of tail positions stays on one level, whatever its length.
-/
namespace SmallLisp

/-- The first step of a call written as a form that is neither a special form nor expanded: the
head and then the arguments are evaluated, and the first error value is the result. -/
def stepCall (run : Runner) (head : Value) (arguments : List Value) (scope : Scope) :
    EvalM Step := do
  let function ← run (.evaluate head scope)
  if function.isError then return .done function
  match ← evaluateAll run scope arguments with
  | .error e => return .done e
  | .ok vs =>
    if function.isFunction then applyFunction run function vs
    else return .done (.error ((← EvalM.print true function) ++ " is not a function") none)

def specialForm? : Value → Option SpecialForm
  | .symbol name => SpecialForm.ofName? name
  | _ => none

def stepList (steps : Nat) (run : Runner) (form head : Value) (tail : List Value)
    (scope : Scope) : EvalM Step := do
  match specialForm? head with
  | some special => EvalM.settle (special.evaluate steps run tail scope)
  | none =>
    match expansionOf? (← get) scope form with
    | some (function, arguments) =>
      let expanded ← run (.call function arguments)
      if expanded.isError then return .done expanded else return .tail expanded scope
    | none => stepCall run head tail scope

def stepForm (steps : Nat) (run : Runner) (form : Value) (scope : Scope) : EvalM Step :=
  match form with
  | .symbol name => do
    match (← get).lookup? scope name with
    | some v => return .done v
    | none => return .done (← EvalM.errorOf (.unbound name))
  | .list (head :: tail) metadata identity =>
    stepList steps run (.list (head :: tail) metadata identity) head tail scope
  | .vector items _ _ => do
    match ← evaluateAll run scope items with
    | .error e => return .done e
    | .ok vs => return .done (← EvalM.identify (.ofVector vs))
  | .table entries _ => do
    match ← evaluateAll run scope (Entries.values entries) with
    | .error e => return .done e
    | .ok vs =>
      return .done (.ofEntries (← EvalM.ofFault (writeEntries [] ((Entries.keys entries).zip vs))))
  | form => return .done form

def Task.step (steps : Nat) (run : Runner) : Task → EvalM Step
  | .evaluate form scope => stepForm steps run form scope
  | .call function arguments => applyFunction run function arguments

def takeSteps (step : Task → EvalM Step) : Nat → Task → EvalM Value
  | 0, _ => EvalM.abort .exhausted
  | steps + 1, task => do
    match ← step task with
    | .done v => return v
    | .tail form scope => takeSteps step steps (.evaluate form scope)

/-- Carries out a task. `steps` bounds the steps on every level, and the last argument the number
of levels. -/
def runTask (steps : Nat) : Nat → Runner
  | 0, _ => EvalM.abort .exhausted
  | depth + 1, task => takeSteps (Task.step steps (runTask steps depth)) steps task

end SmallLisp
