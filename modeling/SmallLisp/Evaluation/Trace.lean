import SmallLisp.Evaluation.Evaluator

/-! # Traces

A trace follows an evaluation step by step and keeps the text of every form and the text of its
scope as they are just before the step.
-/
namespace SmallLisp

/-- The text of a scope in a trace: a scope of one frame is only named. -/
def scopeLabel (store : Store) (scope : Scope) : Except Abort String :=
  if scope.isGlobal then .ok "<root>" else scopeText store scope

structure TracePoint where
  form : String
  scope : String

def TracePoint.of (store : Store) (form : Value) (scope : Scope) : Except Abort TracePoint := do
  return ⟨← printValue store.heap true form, ← scopeLabel store scope⟩

inductive TraceEnd where
  | value (value : Value)
  /-- The trace is as long as it may be, and this form is next. -/
  | pending (form : Value) (scope : Scope)
  | failed (failure : Failure)

/-- Follows the evaluation of a form for at most the given number of steps. `points` holds the
trace so far in reverse. -/
def traceFrom (step : Task → EvalM Step) (points : List TracePoint) :
    Nat → Value → Scope → Store → Except Abort (List TracePoint × TraceEnd × Store)
  | 0, form, scope, store => .ok (points.reverse, .pending form scope, store)
  | steps + 1, form, scope, store => do
    let points := (← TracePoint.of store form scope) :: points
    match step (.evaluate form scope) store with
    | .ok (.done v) store => return (points.reverse, .value v, store)
    | .ok (.tail form scope) store => traceFrom step points steps form scope store
    | .error failure store => return (points.reverse, .failed failure, store)

end SmallLisp
