import SmallLisp.Text.Printable

/-! # Quoted representation of text

A text is shown between quote marks. Apostrophes are the marks unless the text holds an
apostrophe and no double quote. The mark in use and the backslash are escaped by a backslash,
line feed, carriage return and tab by a letter, and any other unprintable character by the
shortest of the three hexadecimal forms that fits its code point.
-/
namespace SmallLisp.Text

def hexDigit (n : Nat) : Char :=
  if n < 10 then Char.ofNat (48 + n) else Char.ofNat (87 + n)

def hexDigits : Nat → Nat → List Char
  | 0, _ => []
  | width + 1, n => hexDigits width (n / 16) ++ [hexDigit (n % 16)]

def hexEscape (c : Char) : List Char :=
  if c.toNat < 0x100 then '\\' :: 'x' :: hexDigits 2 c.toNat
  else if c.toNat < 0x10000 then '\\' :: 'u' :: hexDigits 4 c.toNat
  else '\\' :: 'U' :: hexDigits 8 c.toNat

def quotedChar (mark c : Char) : List Char :=
  if c = mark || c = '\\' then ['\\', c]
  else if c = '\n' then ['\\', 'n']
  else if c = '\r' then ['\\', 'r']
  else if c = '\t' then ['\\', 't']
  else if isPrintable c then [c]
  else hexEscape c

def quoteMark (text : List Char) : Char :=
  if '\'' ∈ text && '"' ∉ text then '"' else '\''

/-- A text between quote marks, with every character that needs it escaped. -/
def quoted (text : List Char) : List Char :=
  let mark := quoteMark text
  mark :: text.flatMap (quotedChar mark) ++ [mark]

def quotedString (text : String) : String := String.ofList (quoted text.toList)

end SmallLisp.Text
