import SmallLisp.Files
import SmallLisp.Text.Blank

/-! # Settings

Settings are given by environment variables. A variable that is absent, and for paths also one
that is empty, leaves the default in force.
-/
namespace SmallLisp

abbrev Variables := List (String × String)

inductive SettingFault where
  | noPath
  /-- A limit consists of digits that are not all decimal. -/
  | notDecimal (text : String)
  | longLiteral (digits : Nat)
deriving DecidableEq, Repr

/-- The message of a setting fault. The text of a limit is shown up to 200 characters. -/
def SettingFault.message : SettingFault → String
  | noPath => "list index out of range"
  | notDecimal text =>
    "invalid literal for int() with base 10: "
      ++ String.ofList ((Text.quoted text.toList).take 200)
  | longLiteral digits => (Abort.longLiteral digits).message

namespace Settings

def variableNames : List String :=
  ["MALLET_PROMPT", "MALLET_LOG_LEVEL", "MALLET_RECURSION_LIMIT", "MALLET_HISTORY_FILE",
   "MALLET_PRELUDE_PATH"]

def prompt (vars : Variables) : String := (vars.lookup "MALLET_PROMPT").getD "user> "

/-- A letter as a capital, for the letters whose capital is an ASCII letter. -/
def capital (c : Char) : Char :=
  if c = 'ı' then 'I' else if c = 'ſ' then 'S' else c.toUpper

def logLevels : List (String × Nat) :=
  [("CRITICAL", 50), ("FATAL", 50), ("ERROR", 40), ("WARN", 30), ("WARNING", 30), ("INFO", 20),
   ("DEBUG", 10), ("NOTSET", 0)]

def logLevel (vars : Variables) : Nat :=
  let name := (vars.lookup "MALLET_LOG_LEVEL").getD "WARNING"
  (logLevels.lookup (String.ofList ((Text.strip name.toList).map capital))).getD 30

def defaultRecursionLimit : Nat := 20000

/-- The number that a text of digits denotes. Digit signs that are not decimal have a digit value
but denote no number. -/
def readLimit (digits : List Char) : Except SettingFault Nat :=
  let decimals := (digits.takeWhile Text.isDecimal).length
  if Text.digitLimit < decimals then .error (.longLiteral decimals)
  else if digits.all Text.isDecimal then .ok (Text.decimalNumber digits)
  else .error (.notDecimal (String.ofList digits))

/-- The recursion limit. A text that does not consist of digits leaves the default in force. -/
def recursionLimit (vars : Variables) : Except SettingFault Nat :=
  let text := Text.strip ((vars.lookup "MALLET_RECURSION_LIMIT").getD "").toList
  if !text.isEmpty && text.all Text.isDigitLike then readLimit text else .ok defaultRecursionLimit

def firstPath (vars : Variables) (name : String) : Except SettingFault (Option Path) :=
  let text := (vars.lookup name).getD ""
  if text.isEmpty then .ok none
  else
    match ((Text.pieces ':' text.toList).map Text.strip).filter fun piece => !piece.isEmpty with
    | [] => .error .noPath
    | piece :: _ => .ok (some (Path.ofText (String.ofList piece)))

def historyFile (vars : Variables) : Except SettingFault (Option Path) :=
  firstPath vars "MALLET_HISTORY_FILE"

/-- The file of the prelude, or `none` for the bundled one. A directory stands for the file
`core.mal` in it. That the path can be asked about is the condition on file trees. -/
def preludeFile (vars : Variables) (files : FileTree) : Except SettingFault (Option Path) := do
  match ← firstPath vars "MALLET_PRELUDE_PATH" with
  | none => return none
  | some path => return some (if files.isDirectory path then path.child "core.mal" else path)

end Settings

end SmallLisp
