import SmallLisp.Store

/-! # Evaluations

An evaluation changes the store and ends with a result or a failure. What it did to the store
before a failure stays.
-/
namespace SmallLisp

abbrev EvalM (α : Type) := EStateM Failure Store α

inductive Step where
  | done (value : Value)
  | tail (form : Value) (scope : Scope)

namespace EvalM

def fault {α : Type} (f : Fault) : EvalM α := throw (.fault f)

def abort {α : Type} (reason : Abort) : EvalM α := throw (.abort reason)

def ofFault {α : Type} : Except Fault α → EvalM α
  | .ok a => pure a
  | .error f => fault f

def ofAbort {α : Type} : Except Abort α → EvalM α
  | .ok a => pure a
  | .error reason => abort reason

def print (readable : Bool) (v : Value) : EvalM String := do
  ofAbort (printValue (← get).heap readable v)

def represent (v : Value) : EvalM String := do
  ofAbort (representValue (← get).heap v)

def printAll (readable : Bool) (separator : String) (vs : List Value) : EvalM String := do
  ofAbort (printJoined (← get).heap readable separator vs)

def write (text : String) : EvalM Unit := do
  let console := (← get).console
  match console.refusal? console.output text with
  | some fault => abort (.console fault)
  | none => modify (·.write text)

def readLine : EvalM (Option String) := do
  let reply := (← get).console.reply
  modify Store.skipReply
  match reply with
  | .line text => return some text
  | .ended => return none
  | .failed fault => abort (.console fault)

def errorOf (f : Fault) : EvalM Value := do
  return .error (← ofAbort (f.message (← get).heap)) none

/-- Turns a fault of a step into an error value. Other failures pass. -/
def settle (step : EvalM Step) : EvalM Step := fun store =>
  match step store with
  | .error (.fault f) store => Step.done <$> errorOf f |>.run store
  | result => result

def catchThrown (evaluation : EvalM Value) : EvalM (Except Value Value) := fun store =>
  match evaluation store with
  | .ok v store => .ok (.ok v) store
  | .error (.thrown payload) store => .ok (.error payload) store
  | .error failure store => .error failure store

def openScope (outer : Scope) (bindings : List (String × Value)) : EvalM Scope := do
  let id := (← get).nextFrame
  modify (·.addFrame (Frame.bindAll [] bindings))
  return outer.nest id

def define (scope : Scope) (name : String) (value : Value) : EvalM Unit :=
  modify (·.define scope.here name value)

def newCell (content : Value) : EvalM Value := do
  let id := (← get).heap.nextCell
  modify (·.addCell content)
  return .atom id

def newIdentity : EvalM Identity := do
  let identity := (← get).heap.nextIdentity
  modify Store.skipIdentity
  return identity

def identify (v : Value) : EvalM Value :=
  if v.isSequential then return v.identified (← newIdentity) else return v

def newList (items : List Value) : EvalM Value := return .list items .nil (some (← newIdentity))

end EvalM

end SmallLisp
