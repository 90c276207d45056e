import SmallLisp.CommandLine
import SmallLisp.Session

/-! # Running scripts and the line loop

A program run either evaluates a script or answers line by line until the input ends. It writes
to the console, reports on a second channel, and ends with a status.
-/
namespace SmallLisp

inductive Crash where
  | start (fault : StartFault)
  | setting (fault : SettingFault)
  | failure (failure : Failure)

def Failure.report (heap : Heap) : Failure → String
  | .fault f =>
    match f.message heap with
    | .ok message => message
    | .error reason => reason.message
  | .thrown payload =>
    match printValue heap true payload with
    | .ok text => text
    | .error reason => reason.message
  | .abort reason => reason.message

def StartFault.report (heap : Heap) : StartFault → String
  | .setting f => f.message
  | .limitTooLarge => "the recursion limit is too large"
  | .preludeUnreadable path reason => "cannot read " ++ path.text ++ ": " ++ reason.words
  | .preludeFailed path message => "prelude " ++ path ++ " failed: " ++ message
  | .failure f => f.report heap

def Crash.report (heap : Heap) : Crash → String
  | .start f => f.report heap
  | .setting f => f.message
  | .failure f => f.report heap

inductive Outcome where
  | finished (status : Nat)
  | usage (status : Nat)
  | crashed (crash : Crash)

structure Run where
  outcome : Outcome
  store : Store
  report : String

def Run.output (run : Run) : String := run.store.console.output

def banner : String := "(println (str \"Mallet [\" *host-language* \"]\"))"

def isBlankLine (line : String) : Bool := line.toList.all Text.isBlank

def answerLine (session : Session) (line : String) : EvalM Unit := do
  if isBlankLine line then return ()
  let text ← session.answerWithin .standard line
  if !text.isEmpty then EvalM.write (text ++ "\n")

/-- Answers lines until the input ends. The bound is reached only if the input never ends. -/
def answerLines (session : Session) (prompt : String) : Nat → EvalM Unit
  | 0 => return ()
  | lines + 1 => do
    EvalM.write prompt
    match ← EvalM.readLine with
    | none => EvalM.write "\n"
    | some line =>
      answerLine session line
      answerLines session prompt lines

def lineLoop (session : Session) (vars : Variables) : EStateM Crash Store Nat := fun store =>
  match session.answerWithin .standard banner store with
  | .error failure store => .error (.failure failure) store
  | .ok _ store =>
    match Settings.historyFile vars with
    | .error fault => .error (.setting fault) store
    | .ok _ =>
      let lines := store.console.replies.length + 1
      match answerLines session (Settings.prompt vars) lines store with
      | .error failure store => .error (.failure failure) store
      | .ok _ store => .ok 0 store

def runScript (session : Session) (script : String) : EvalM (Nat × String) := do
  let text ← answerFile session.run session.scope script
  return if failureHeading.toList.isPrefixOf text.toList then (1, text ++ "\n") else (0, "")

def runInvocation (run : Runner) (vars : Variables) (script : Option String)
    (arguments : List String) (store : Store) : Run :=
  match Session.start run vars arguments true store with
  | .error fault store => ⟨.crashed (.start fault), store, ""⟩
  | .ok session store =>
    match script.filter (· ≠ "") with
    | some script =>
      match runScript session script store with
      | .ok (status, report) store => ⟨.finished status, store, report⟩
      | .error failure store => ⟨.crashed (.failure failure), store, ""⟩
    | none =>
      match lineLoop session vars store with
      | .ok status store => ⟨.finished status, store, ""⟩
      | .error crash store => ⟨.crashed crash, store, ""⟩

def runProgram (run : Runner) (vars : Variables) (arguments : List String)
    (store : Store) : Run :=
  match invocation arguments with
  | .help => ⟨.usage 0, store.write helpText, ""⟩
  | .refused message => ⟨.usage 2, store, refusalText message⟩
  | .run script arguments => runInvocation run vars script arguments store

end SmallLisp
