import SmallLisp.Evaluation.Evaluator
import SmallLisp.Prelude
import SmallLisp.Reader.Depth
import SmallLisp.Settings
import SmallLisp.Value.BoundedPrinter

/-! # Sessions

A session keeps one global frame, in which the forms of every text it is given are evaluated. A
new session binds the builtins and evaluates the prelude.
-/
namespace SmallLisp

structure Limits where
  steps : Nat
  depth : Nat

/-- The limits of a session: enough levels for any program that does not nest without end, and
more steps than can ever be taken. -/
def Limits.standard : Limits := ⟨Nat.pow 2 62, 6000⟩

/-- How many forms of a text may be open at once, and how far down a value may be printed. Every
level counts the same, whatever is on it. -/
structure Levels where
  reading : Nat
  printing : Nat

def Levels.standard : Levels := ⟨6000, 6000⟩

def Limits.runner (limits : Limits) : Runner := runTask limits.steps limits.depth

/-- Evaluates forms in order. The first error value ends this and is the result; otherwise the
result is the last value, or `nil` if there are no forms. -/
def evaluateForms (run : Runner) (scope : Scope) : List Value → EvalM Value
  | [] => return .nil
  | [form] => run (.evaluate form scope)
  | form :: forms => do
    let v ← run (.evaluate form scope)
    if v.isError then return v else evaluateForms run scope forms

def evaluateText (run : Runner) (scope : Scope) (source : String) : EvalM Value :=
  match readForms source with
  | .ok forms => evaluateForms run scope forms
  | .error (.fault f) => EvalM.errorOf f
  | .error (.longLiteral digits) => EvalM.abort (.longLiteral digits)

def failureHeading : String := "Error: "

def answerText (v : Value) : EvalM String := do
  let text ← EvalM.print true v
  return if v.isError then failureHeading ++ text else text

/-- Turns a thrown value, exhaustion and a text without end into error values. -/
def catchUncaught (evaluation : EvalM Value) : EvalM Value := fun store =>
  match evaluation store with
  | .error (.thrown payload) store => .ok (.error "uncaught exception" (some payload)) store
  | .error (.abort .exhausted) store => .ok (.error Abort.exhausted.message none) store
  | .error (.abort .endless) store => .ok (.error Abort.endless.message none) store
  | result => result

/-- Reads a text, evaluates its forms and prints the last value. A text without forms has an empty
answer. -/
def answer (run : Runner) (scope : Scope) (source : String) : EvalM String :=
  match readForms source with
  | .error (.fault f) => do answerText (← EvalM.errorOf f)
  | .error (.longLiteral digits) => EvalM.abort (.longLiteral digits)
  | .ok [] => return ""
  | .ok forms => do answerText (← catchUncaught (evaluateForms run scope forms))

def answerTextWithin (levels : Nat) (v : Value) : EvalM String := do
  let text ← EvalM.ofAbort (printWithin (levels + 1) (← get).heap true v)
  return if v.isError then failureHeading ++ text else text

/-- The answer to a text if reading it and printing the last value stay within the levels. Unlike
the evaluation, neither is guarded against going further. What an evaluation reads, prints or
compares on its way has no levels of its own: running out of them there would be caught. -/
def answerWithin (levels : Levels) (run : Runner) (scope : Scope) (source : String) :
    EvalM String :=
  if isTooDeep levels.reading source then EvalM.abort .exhausted
  else
    match readForms source with
    | .error (.fault f) => do answerTextWithin levels.printing (← EvalM.errorOf f)
    | .error (.longLiteral digits) => EvalM.abort (.longLiteral digits)
    | .ok [] => return ""
    | .ok forms => do
      answerTextWithin levels.printing (← catchUncaught (evaluateForms run scope forms))

/-- The text that loads a file is read on one level. How far down its failure can be printed is not
bounded here. -/
def answerFile (run : Runner) (scope : Scope) (path : String) : EvalM String :=
  answer run scope ("(load-file " ++ String.ofList (escape path.toList) ++ ")")

def builtinBindings (home : FrameId) : List Builtin → EvalM Frame
  | [] => return []
  | op :: ops => do
    let id ← EvalM.newIdentity
    let others ← builtinBindings home ops
    return (op.name, .native id op home .nil) :: others

def openGlobal (arguments : List String) : EvalM Scope := do
  let home := (← get).nextFrame
  let builtins ← builtinBindings home Builtin.all
  modify (·.addFrame (builtins ++
    [("*host-language*", .str "python"), ("*ARGV*", .ofList (arguments.map .str))]))
  return .global home

inductive StartFault where
  | setting (fault : SettingFault)
  | limitTooLarge
  | preludeUnreadable (path : Path) (reason : FileFault)
  | preludeFailed (path : String) (message : String)
  | failure (failure : Failure)

def bundledPreludeName : String := "<bundled>/core.mal"

abbrev StartM (α : Type) := EStateM StartFault Store α

namespace StartM

def ofEval {α : Type} (evaluation : EvalM α) : StartM α := fun store =>
  match evaluation store with
  | .ok a store => .ok a store
  | .error failure store => .error (.failure failure) store

def ofSetting {α : Type} : Except SettingFault α → StartM α
  | .ok a => pure a
  | .error fault => throw (.setting fault)

end StartM

def preludeSource (vars : Variables) : StartM (String × String) := do
  let files := (← get).files
  match ← StartM.ofSetting (Settings.preludeFile vars files) with
  | none => return (bundledPreludeName, bundledPrelude)
  | some path =>
    match files.bytes path with
    | .error reason => throw (.preludeUnreadable path reason)
    | .ok bytes => return (path.text, ← StartM.ofEval (EvalM.ofAbort (fileText bytes)))

def loadPrelude (run : Runner) (vars : Variables) (scope : Scope) : StartM Unit := do
  let (name, source) ← preludeSource vars
  match ← StartM.ofEval (evaluateText run scope source) with
  | .error message _ => throw (.preludeFailed name message)
  | _ => return ()

def buildGlobal (run : Runner) (vars : Variables) (arguments : List String)
    (withPrelude : Bool) : StartM Scope := do
  let scope ← StartM.ofEval (openGlobal arguments)
  if withPrelude then loadPrelude run vars scope
  return scope

def greatestRecursionLimit : Nat := Nat.pow 2 31 - 1

structure Session where
  run : Runner
  scope : Scope
  predefined : List String

namespace Session

def start (run : Runner) (vars : Variables) (arguments : List String)
    (withPrelude : Bool) : StartM Session := do
  let limit ← StartM.ofSetting (Settings.recursionLimit vars)
  if greatestRecursionLimit < limit then throw .limitTooLarge
  let scope ← buildGlobal run vars arguments withPrelude
  return ⟨run, scope, ((← get).frame scope.here).names⟩

def answer (session : Session) (source : String) : EvalM String :=
  SmallLisp.answer session.run session.scope source

def answerWithin (session : Session) (levels : Levels) (source : String) : EvalM String :=
  SmallLisp.answerWithin levels session.run session.scope source

def evaluate (session : Session) (source : String) : EvalM Value :=
  evaluateText session.run session.scope source

def defined (session : Session) (store : Store) : List String :=
  let names := (store.frame session.scope.here).names.filter (· ∉ session.predefined)
  names.mergeSort fun a b => a ≤ b

end Session

end SmallLisp
