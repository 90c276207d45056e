import SmallLisp.Evaluation.Expansion
import SmallLisp.Evaluation.Template
import SmallLisp.Parameters

/-! # Special forms

A special form receives its parts unevaluated and decides what to evaluate. Forms in tail
position are handed back as the next step.
-/
namespace SmallLisp

inductive SpecialForm where
  | define | defineExpander | letIn | sequence | branch | function
  | quote | quasiquote | quasiquoteExpand | expand | attempt
deriving DecidableEq, Repr

namespace SpecialForm

def name : SpecialForm → String
  | define => "def!"
  | defineExpander => "defmacro!"
  | letIn => "let*"
  | sequence => "do"
  | branch => "if"
  | function => "fn*"
  | quote => "quote"
  | quasiquote => "quasiquote"
  | quasiquoteExpand => "quasiquoteexpand"
  | expand => "macroexpand"
  | attempt => "try*"

def all : List SpecialForm :=
  [define, defineExpander, letIn, sequence, branch, function, quote, quasiquote,
   quasiquoteExpand, expand, attempt]

def ofName? (symbol : String) : Option SpecialForm := all.find? fun form => form.name = symbol

/-- Several body forms as one: none is `nil`, and more than one are a sequence. -/
def bodyOf : List Value → Value
  | [] => .nil
  | [form] => form
  | forms => .ofList (.symbol "do" :: forms)

def definition (run : Runner) (form : SpecialForm) (parts : List Value) (scope : Scope) :
    EvalM (String × Value) :=
  match parts with
  | [.symbol defined, expression] => return (defined, ← run (.evaluate expression scope))
  | [_, _] => EvalM.fault (.kind (.definedNotSymbol form.name))
  | _ => EvalM.fault (.count (.exactly form.name 2))

/-- Binds names to the values of their expressions in order, each seeing the ones before. The
first error value ends this and is the result. -/
def bindInOrder (run : Runner) (scope : Scope) : List Value → EvalM (Option Value)
  | name :: expression :: rest =>
    match name with
    | .symbol bound => do
      let v ← run (.evaluate expression scope)
      if v.isError then return some v
      EvalM.define scope bound v
      bindInOrder run scope rest
    | _ => EvalM.fault (.kind (.boundNotSymbol name))
  | _ => return none

/-- Evaluates all forms but the last for their effects. The first error value ends this and is
the result; otherwise the last form is next. -/
def evaluateSequence (run : Runner) (scope : Scope) : List Value → EvalM Step
  | [] => return .done .nil
  | [form] => return .tail form scope
  | form :: forms => do
    let v ← run (.evaluate form scope)
    if v.isError then return .done v else evaluateSequence run scope forms

def catchClause (clause : Value) : Except Fault (String × Value) :=
  match clause with
  | .list [.symbol keyword, caught, handler] _ _ =>
    if keyword = "catch*" then
      match caught with
      | .symbol name => .ok (name, handler)
      | _ => .error (.kind .caughtNotSymbol)
    else .error (.kind .notCatchClause)
  | _ => .error (.kind .notCatchClause)

/-- Evaluates a form and, if it throws or ends in an error value, continues with the handler. -/
def evaluateGuarded (run : Runner) (form : Value) (caught : String) (handler : Value)
    (scope : Scope) : EvalM Step := do
  match ← EvalM.catchThrown (run (.evaluate form scope)) with
  | .ok (.error message cause) =>
    return .tail handler (← EvalM.openScope scope [(caught, Value.payload message cause)])
  | .ok v => return .done v
  | .error payload => return .tail handler (← EvalM.openScope scope [(caught, payload)])

/-- The first step of a special form. `steps` bounds the expansions of a form that is expanded
fully. -/
def evaluate (steps : Nat) (run : Runner) (form : SpecialForm) (parts : List Value)
    (scope : Scope) : EvalM Step :=
  match form with
  | define => do
    let (defined, v) ← definition run form parts scope
    if v.isError then return .done v
    EvalM.define scope defined v
    return .done v
  | defineExpander => do
    let (defined, v) ← definition run form parts scope
    match v with
    | .error .. => return .done v
    | .closure _ parameters body closureScope _ metadata =>
      let v := .closure (← EvalM.newIdentity) parameters body closureScope true metadata
      EvalM.define scope defined v
      return .done v
    | _ => EvalM.fault (.kind .expanderNotClosure)
  | letIn =>
    match parts with
    | [] => EvalM.fault (.count .noBindings)
    | .list bindings _ _ :: body | .vector bindings _ _ :: body =>
      if bindings.length % 2 = 0 then do
        let inner ← EvalM.openScope scope []
        match ← bindInOrder run inner bindings with
        | some e => return .done e
        | none => return .tail (bodyOf body) inner
      else EvalM.fault (.count .oddBindings)
    | _ => EvalM.fault (.kind .bindingsNotSequence)
  | sequence => evaluateSequence run scope parts
  | branch =>
    let choose (condition consequence : Value) (alternative : Option Value) : EvalM Step := do
      let v ← run (.evaluate condition scope)
      if v.isError then return .done v
      else if v.isTruthy then return .tail consequence scope
      else
        match alternative with
        | some form => return .tail form scope
        | none => return .done .nil
    match parts with
    | [condition, consequence] => choose condition consequence none
    | [condition, consequence, alternative] => choose condition consequence (some alternative)
    | _ => EvalM.fault (.count .ifParts)
  | function =>
    match parts with
    | [] => EvalM.fault (.count .noParameterList)
    | declared :: body => do
      let parameters ← EvalM.ofFault ((Parameters.ofValue declared).mapError .kind)
      return .done (.closure (← EvalM.newIdentity) parameters (bodyOf body) scope false .nil)
  | quote => do
    return .done (← EvalM.ofFault (onlyForm form.name parts))
  | quasiquote => do
    let template ← EvalM.ofFault (onlyForm form.name parts)
    return .tail (← expandTemplate template) scope
  | quasiquoteExpand => do
    let template ← EvalM.ofFault (onlyForm form.name parts)
    return .done (← expandTemplate template)
  | expand => do
    let call ← EvalM.ofFault (onlyForm form.name parts)
    return .done (← expandFully run scope steps call)
  | attempt =>
    match parts with
    | [form] => return .tail form scope
    | [form, clause] => do
      let (caught, handler) ← EvalM.ofFault (catchClause clause)
      evaluateGuarded run form caught handler scope
    | _ => EvalM.fault (.count .tryParts)

end SpecialForm

end SmallLisp
