import SmallLisp.Text.Digit
import SmallLisp.Text.Quoted

/-! # Command lines

The first argument that is no option names a script; everything after it belongs to the script.
The only option is the request for help, which may be abbreviated. A `--` directly before or
after the name of the script is dropped.
-/
namespace SmallLisp

inductive OptionKind where
  | help
  | helpWith (value : String)
  | unknown
deriving DecidableEq, Repr

/-- What the text after `-h` asks for. It may repeat the letter; anything else is a value. -/
def shortHelp : List Char → OptionKind
  | [] => .help
  | c :: rest => if c = 'h' then shortHelp rest else .helpWith (String.ofList (c :: rest))

/-- What an argument that starts with two hyphens asks for: any beginning of `--help` is help. -/
def longOption (argument : List Char) : OptionKind :=
  let name := argument.takeWhile (· ≠ '=')
  if name.isPrefixOf "--help".toList then
    match argument.dropWhile (· ≠ '=') with
    | [] => .help
    | _ :: value => .helpWith (String.ofList value)
  else .unknown

/-- Whether a text is a minus sign followed by a decimal number. A final line feed is allowed. -/
def isNegativeNumber (argument : List Char) : Bool :=
  let argument := if argument.getLast? = some '\n' then argument.dropLast else argument
  match argument with
  | '-' :: number =>
    match number.dropWhile Text.isDecimal with
    | [] => !number.isEmpty
    | '.' :: decimals => !decimals.isEmpty && decimals.all Text.isDecimal
    | _ => false
  | _ => false

/-- What an argument asks for, if it is an option. Unknown options do not look like a negative
number and hold no space. -/
def optionKind? (argument : String) : Option OptionKind :=
  let unknown? :=
    if isNegativeNumber argument.toList || argument.toList.contains ' ' then none
    else some .unknown
  match argument.toList with
  | ['-', '-'] => none
  | '-' :: '-' :: _ =>
    match longOption argument.toList with
    | .unknown => unknown?
    | kind => some kind
  | ['-', 'h', '='] => some (.helpWith "")
  | '-' :: 'h' :: '=' :: letters => some (shortHelp letters)
  | '-' :: 'h' :: letters => some (shortHelp letters)
  | '-' :: _ :: _ => unknown?
  | _ => none

inductive Invocation where
  | run (script : Option String) (arguments : List String)
  | help
  | refused (message : String)
deriving DecidableEq, Repr

def scriptOf (arguments : List String) : Invocation :=
  match arguments with
  | [] => .run none []
  | "--" :: [] => .run none []
  | "--" :: script :: rest => .run (some script) rest
  | script :: "--" :: rest => .run (some script) rest
  | script :: rest => .run (some script) rest

def invocationFrom (strange : List String) : List String → Invocation
  | [] => if strange.isEmpty then .run none [] else refuse
  | argument :: rest =>
    match optionKind? argument with
    | some .help => .help
    | some (.helpWith value) =>
      .refused ("argument -h/--help: ignored explicit argument " ++ Text.quotedString value)
    | some .unknown => invocationFrom (argument :: strange) rest
    | none => if strange.isEmpty then scriptOf (argument :: rest) else refuse
where
  refuse : Invocation :=
    .refused ("unrecognized arguments: " ++ " ".intercalate strange.reverse)

def invocation (arguments : List String) : Invocation := invocationFrom [] arguments

def usageLine : String := "usage: mallet [-h] [file] ...\n"

def helpText : String :=
  usageLine ++ "\nMallet Lisp interpreter\n\npositional arguments:\n"
    ++ "  file        script to run instead of starting a REPL\n"
    ++ "  args        arguments bound to *ARGV*\n\noptions:\n"
    ++ "  -h, --help  show this help message and exit\n"

def refusalText (message : String) : String := usageLine ++ "mallet: error: " ++ message ++ "\n"

end SmallLisp
