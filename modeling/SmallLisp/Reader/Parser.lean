import SmallLisp.Reader.Lexer
import SmallLisp.Table

/-! # From tokens to forms

The parser keeps the forms that are still open, innermost first, and takes one token at a time.
A finished form is handed to the innermost open one, or counts as read if none is open.
-/
namespace SmallLisp

inductive ReadingError where
  | fault (fault : Fault)
  /-- A numeral with too many digits, which is no ordinary reading fault. -/
  | longLiteral (digits : Nat)

def ReadingError.failure : ReadingError → Failure
  | fault f => .fault f
  | longLiteral digits => .abort (.longLiteral digits)

/-- Reads the escapes of a string literal. A pair that is no escape stands for itself. -/
def unescape : List Char → List Char
  | '\\' :: c :: rest =>
    if c = 'n' then '\n' :: unescape rest
    else if c = '\\' || c = '"' then c :: unescape rest
    else '\\' :: c :: unescape rest
  | c :: rest => c :: unescape rest
  | [] => []

def literalBody? : List Char → Option (List Char)
  | [] => none
  | ['"'] => some []
  | '\\' :: c :: rest => (literalBody? rest).map fun body => '\\' :: c :: body
  | c :: rest =>
    if c = '"' || c = '\\' then none else (literalBody? rest).map fun body => c :: body

inductive OpenForm where
  | collection (bracket : Bracket) (items : List Value)
  /-- A call of the function with this name on the next form. -/
  | call (name : String)
  /-- A metadata mark that waits for the metadata and then for the form it belongs to. -/
  | metadata
  | target (metadata : Value)

structure Parser where
  /-- The forms read so far, latest first. -/
  finished : List Value
  /-- The open forms, innermost first. -/
  pending : List OpenForm

namespace Parser

def initial : Parser := ⟨[], []⟩

def deliver (finished : List Value) (form : Value) : List OpenForm → Parser
  | [] => ⟨form :: finished, []⟩
  | .collection bracket items :: pending =>
    ⟨finished, .collection bracket (form :: items) :: pending⟩
  | .call name :: pending => deliver finished (.ofList [.symbol name, form]) pending
  | .metadata :: pending => ⟨finished, .target form :: pending⟩
  | .target metadata :: pending =>
    deliver finished (.ofList [.symbol "with-meta", form, metadata]) pending

/-- The function that a mark calls on the form after it; the metadata mark takes two forms. -/
def ofMark : Mark → OpenForm
  | .quote => .call "quote"
  | .quasiquote => .call "quasiquote"
  | .unquote => .call "unquote"
  | .spliceUnquote => .call "splice-unquote"
  | .deref => .call "deref"
  | .metadata => .metadata

def wordValue (text : String) : Except ReadingError Value :=
  match wordClass text with
  | .nil => .ok .nil
  | .true => .ok (.bool true)
  | .false => .ok (.bool false)
  | .number =>
    let digits := Text.numeralLength text.toList
    if digits ≤ Text.digitLimit then .ok (.int (Text.numeralValue text.toList))
    else .error (.longLiteral digits)
  | .name =>
    match text.toList with
    | ':' :: name => .ok (.keyword (String.ofList name))
    | _ => .ok (.symbol text)

def literalValue (text : String) : Except ReadingError Value :=
  match literalBody? (text.toList.drop 1) with
  | some body => .ok (.str (String.ofList (unescape body)))
  | none => .error (.fault (.reading .unclosedString))

def tableOfItems (items : List Value) : Except Fault Value :=
  if items.length % 2 = 0 then (writeEntries [] (Entries.pairUp items)).map .ofEntries
  else .error (.count .oddEntries)

def collect (bracket : Bracket) (items : List Value) : Except ReadingError Value :=
  match bracket with
  | .round => .ok (.ofList items)
  | .square => .ok (.ofVector items)
  | .curly => (tableOfItems items).mapError .fault

def accept (parser : Parser) : Token → Except ReadingError Parser
  | .opening bracket => .ok ⟨parser.finished, .collection bracket [] :: parser.pending⟩
  | .mark mark => .ok ⟨parser.finished, ofMark mark :: parser.pending⟩
  | .closing bracket =>
    match parser.pending with
    | .collection bracket' items :: pending =>
      if bracket = bracket' then
        (collect bracket items.reverse).map fun form => deliver parser.finished form pending
      else .error (.fault (.reading (.strayClosing bracket)))
    | _ => .error (.fault (.reading (.strayClosing bracket)))
  | .literal text => (literalValue text).map fun form => deliver parser.finished form parser.pending
  | .word text => (wordValue text).map fun form => deliver parser.finished form parser.pending

def inputEnded (parser : Parser) : ReadingFault :=
  match parser.pending with
  | .collection bracket _ :: _ => .unclosed bracket
  | _ => .inputEnded

end Parser

structure Reading (α : Type) where
  outcome : Except ReadingError α
  remaining : List Token

def readFormFrom (parser : Parser) : List Token → Reading Value
  | [] => ⟨.error (.fault (.reading parser.inputEnded)), []⟩
  | token :: tokens =>
    match parser.accept token with
    | .error e => ⟨.error e, tokens⟩
    | .ok parser =>
      match parser.finished with
      | form :: _ => ⟨.ok form, tokens⟩
      | [] => readFormFrom parser tokens

def readForm (tokens : List Token) : Reading Value := readFormFrom .initial tokens

def readAllFrom (parser : Parser) : List Token → Reading (List Value)
  | [] =>
    match parser.pending with
    | [] => ⟨.ok parser.finished.reverse, []⟩
    | _ => ⟨.error (.fault (.reading parser.inputEnded)), []⟩
  | token :: tokens =>
    match parser.accept token with
    | .error e => ⟨.error e, tokens⟩
    | .ok parser => readAllFrom parser tokens

def readAll (tokens : List Token) : Reading (List Value) := readAllFrom .initial tokens

def readForms (source : String) : Except ReadingError (List Value) :=
  (readAll (tokenize source)).outcome

/-- What a text denotes as data: its last form, or `nil` if it holds none. -/
def lastForm (forms : List Value) : Value := forms.getLastD .nil

end SmallLisp
