import SmallLisp.Reader.Bracket
import SmallLisp.Text.Numeral

/-! # Tokens

Brackets and marks are tokens by themselves. A string literal keeps its quotes and escapes, and
may lack its closing quote. Everything else is a word: a numeral, one of three reserved words, or
the name of a symbol or keyword.
-/
namespace SmallLisp

inductive Mark where
  | quote | quasiquote | unquote | spliceUnquote | deref | metadata
deriving DecidableEq, Repr

def Mark.text : Mark → String
  | quote => "'"
  | quasiquote => "`"
  | unquote => "~"
  | spliceUnquote => "~@"
  | deref => "@"
  | metadata => "^"

inductive Token where
  | opening (bracket : Bracket)
  | closing (bracket : Bracket)
  | mark (mark : Mark)
  /-- A string literal as written, from its opening quote on. -/
  | literal (text : String)
  | word (text : String)
deriving DecidableEq, Repr

def Token.text : Token → String
  | opening bracket => String.singleton bracket.opening
  | closing bracket => String.singleton bracket.closing
  | mark m => m.text
  | literal text => text
  | word text => text

inductive WordClass where
  | nil | true | false | number | name
deriving DecidableEq, Repr

def wordClass (text : String) : WordClass :=
  if text = "nil" then .nil
  else if text = "true" then .true
  else if text = "false" then .false
  else if Text.isNumeral text.toList then .number
  else .name

end SmallLisp
