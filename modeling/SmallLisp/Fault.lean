import SmallLisp.Reader.Bracket
import SmallLisp.Value.Representation

/-! # Faults and failures

A fault is a mistake that a special form or a function finds in what it was given. It keeps the
value it complains about, and its wording is chosen here alone. Where a special form or an
application ends in a fault, the program sees an error value with that wording.
-/
namespace SmallLisp

inductive ReadingFault where
  | inputEnded
  | unclosed (bracket : Bracket)
  | strayClosing (bracket : Bracket)
  | unclosedString
deriving DecidableEq, Repr

inductive CountFault where
  | exactly (function : String) (count : Nat)
  | atLeastOne (function : String)
  | noArguments (function : String)
  | tableMissing (function : String)
  | applyParts
  | swapParts
  | tooFew
  | tooMany
  | oddEntries
  | bindingCount (names values : Nat)
  | oneForm (form : String)
  | noParameterList
  | noBindings
  | oddBindings
  | ifParts
  | tryParts
deriving DecidableEq, Repr

inductive Expectation where
  | sequence | function | atom | table | text
deriving DecidableEq, Repr

inductive KindFault where
  | parametersNotSequence
  | parameterNotSymbol
  /-- The rest marker is not followed by exactly one name. -/
  | restMarker
  | unusableKey (key : Value)
  | definedNotSymbol (form : String)
  | expanderNotClosure
  | bindingsNotSequence
  | boundNotSymbol (got : Value)
  | notCatchClause
  | caughtNotSymbol
  | notApplicable (got : Value)
  | notNumbers (function : String)
  | unexpected (function : String) (expected : Expectation) (got : Value)
  | indexNotNumber
  | noMetadata (function : String) (got : Value)
  | nameNotText (function : String)

inductive FileFault where
  | notFound | isDirectory | notDirectory
deriving DecidableEq, Repr

/-- A mistake found by a special form, a function or the reader. -/
inductive Fault where
  | reading (fault : ReadingFault)
  | count (fault : CountFault)
  | kind (fault : KindFault)
  | unbound (name : String)
  | indexOutOfRange
  | divisionByZero
  | unreadable (path : String) (reason : FileFault)

/-- How an evaluation ends without a value. -/
inductive Failure where
  /-- A mistake that becomes an error value at the nearest special form or application. -/
  | fault (fault : Fault)
  | thrown (payload : Value)
  | abort (reason : Abort)

def ReadingFault.message : ReadingFault → String
  | inputEnded => "unexpected end of input"
  | unclosed bracket =>
    "unterminated form: expected '" ++ String.singleton bracket.closing ++ "', got EOF"
  | strayClosing bracket => "unexpected '" ++ String.singleton bracket.closing ++ "'"
  | unclosedString => "unterminated string: expected '\"', got EOF"

def CountFault.message : CountFault → String
  | exactly function count =>
    function ++ " requires exactly " ++ count.repr
      ++ (if count = 1 then " argument" else " arguments")
  | atLeastOne function => function ++ " requires at least 1 argument"
  | noArguments function => function ++ " takes no arguments"
  | tableMissing function => function ++ " requires a hash-map"
  | applyParts => "apply requires at least 2 arguments: func and list of args"
  | swapParts => "swap! requires an atom and a function"
  | tooFew => "too few arguments given"
  | tooMany => "too many arguments given"
  | oddEntries => "hash-map requires an even number of elements"
  | bindingCount names values =>
    "Cannot bind " ++ names.repr ++ " names to " ++ values.repr ++ " values"
  | oneForm form => form ++ " expects exactly 1 argument"
  | noParameterList => "fn* requires at least a parameter list"
  | noBindings => "let* requires a binding list"
  | oddBindings => "let* requires an even number of binding forms"
  | ifParts => "if requires a condition, a then-expression and an optional else-expression"
  | tryParts => "try* requires an expression and an optional catch* clause"

def Expectation.words : Expectation → String
  | sequence => "a list or vector"
  | function => "a function"
  | atom => "an atom"
  | table => "a hash-map"
  | text => "a string"

/-- The wording of a wrong kind. A value that is shown may have no representation. -/
def KindFault.message (heap : Heap) : KindFault → Except Abort String
  | parametersNotSequence => .ok "fn* parameters must be a list or vector"
  | parameterNotSymbol => .ok "fn* parameters must be symbols"
  | restMarker => .ok "'&' must be followed by exactly one parameter name"
  | unusableKey key => do
    return "Cannot use " ++ (← representValue heap key) ++ " as a hash-map key"
  | definedNotSymbol form => .ok ("First argument to " ++ form ++ " must be a symbol")
  | expanderNotClosure => .ok "defmacro! requires a function defined with fn*"
  | bindingsNotSequence => .ok "let* bindings must be a list or vector"
  | boundNotSymbol got => do
    return "let* binding name must be a symbol, got " ++ (← representValue heap got)
  | notCatchClause => .ok "try* expects a (catch* name handler) clause"
  | caughtNotSymbol => .ok "catch* binding must be a symbol"
  | notApplicable got => do return "Cannot apply non-function " ++ (← representValue heap got)
  | notNumbers function => .ok ("All arguments to " ++ function ++ " must be numbers")
  | unexpected function expected got => do
    return function ++ " expects " ++ expected.words ++ ", got " ++ (← representValue heap got)
  | indexNotNumber => .ok "nth index must be a number"
  | noMetadata function got => do
    return function ++ " not supported on " ++ (← representValue heap got)
  | nameNotText function => .ok (function ++ " expects a string")

def FileFault.words : FileFault → String
  | notFound => "No such file or directory"
  | isDirectory => "Is a directory"
  | notDirectory => "Not a directory"

def Fault.message (heap : Heap) : Fault → Except Abort String
  | reading fault => .ok fault.message
  | count fault => .ok fault.message
  | kind fault => fault.message heap
  | unbound name => .ok ("'" ++ name ++ "' not found")
  | indexOutOfRange => .ok "nth: index out of range"
  | divisionByZero => .ok "Division by zero"
  | unreadable path reason => .ok ("slurp: cannot read " ++ path ++ ": " ++ reason.words)

end SmallLisp
