import SmallLisp.Reader.Token
import SmallLisp.Text.Blank

/-! # From text to tokens

The lexer is a machine that looks at one character at a time. Blanks, commas and comments
separate tokens and are dropped.
-/
namespace SmallLisp

def endsWord (c : Char) : Bool :=
  Text.isBlank c ||
    c ∈ [',', '(', ')', '[', ']', '\x7b', '\x7d', '\'', '"', '\x60', ';']

/-- What the lexer is inside of. Texts are kept in reverse. -/
inductive LexerState where
  | gap
  | comment
  | tilde
  | word (read : List Char)
  | literal (read : List Char)
  | escape (read : List Char)
deriving DecidableEq, Repr

def textOfReversed (read : List Char) : String := String.ofList read.reverse

def soloToken? (c : Char) : Option Token :=
  match c with
  | '(' => some (.opening .round)
  | ')' => some (.closing .round)
  | '[' => some (.opening .square)
  | ']' => some (.closing .square)
  | '\x7b' => some (.opening .curly)
  | '\x7d' => some (.closing .curly)
  | '\'' => some (.mark .quote)
  | '\x60' => some (.mark .quasiquote)
  | '@' => some (.mark .deref)
  | '^' => some (.mark .metadata)
  | _ => none

namespace LexerState

def start (c : Char) : List Token × LexerState :=
  if Text.isBlank c || c = ',' then ([], gap)
  else if c = '~' then ([], tilde)
  else if c = '"' then ([], literal ['"'])
  else if c = ';' then ([], comment)
  else
    match soloToken? c with
    | some token => ([token], gap)
    | none => ([], word [c])

def next (state : LexerState) (c : Char) : List Token × LexerState :=
  match state with
  | gap => start c
  | comment => ([], if c = '\n' then gap else comment)
  | tilde =>
    if c = '@' then ([.mark .spliceUnquote], gap)
    else
      let (tokens, state) := start c
      (.mark .unquote :: tokens, state)
  | word read =>
    if endsWord c then
      let (tokens, state) := start c
      (.word (textOfReversed read) :: tokens, state)
    else ([], word (c :: read))
  | literal read =>
    if c = '"' then ([.literal (textOfReversed (c :: read))], gap)
    else if c = '\\' then ([], escape read)
    else ([], literal (c :: read))
  | escape read => ([], literal (c :: '\\' :: read))

/-- The tokens completed by the end of the text. A backslash that the end leaves unpaired in a
literal is a word of its own. -/
def finish : LexerState → List Token
  | gap => []
  | comment => []
  | tilde => [.mark .unquote]
  | word read => [.word (textOfReversed read)]
  | literal read => [.literal (textOfReversed read)]
  | escape read => [.literal (textOfReversed read), .word "\\"]

end LexerState

structure Lexer where
  emitted : List Token
  state : LexerState

namespace Lexer

def initial : Lexer := ⟨[], .gap⟩

def advance (lexer : Lexer) (c : Char) : Lexer :=
  let (tokens, state) := lexer.state.next c
  ⟨tokens.reverse ++ lexer.emitted, state⟩

def tokens (lexer : Lexer) : List Token := lexer.emitted.reverse ++ lexer.state.finish

end Lexer

def tokenize (source : String) : List Token :=
  (source.toList.foldl Lexer.advance Lexer.initial).tokens

end SmallLisp
