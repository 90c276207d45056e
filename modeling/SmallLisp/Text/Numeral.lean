import SmallLisp.Text.Digit

/-! # Numerals

An integer is written in decimal, with a minus sign if it is negative. A numeral has at most
4300 digits, sign not counted; arithmetic itself has no bound.
-/
namespace SmallLisp.Text

def digitLimit : Nat := 4300

def numeralBound : Nat := Nat.pow 10 digitLimit

def numeral? (n : Int) : Option String :=
  if n.natAbs < numeralBound then
    some (if n < 0 then "-" ++ n.natAbs.repr else n.natAbs.repr)
  else none

def splitSign : List Char → Bool × List Char
  | '-' :: digits => (true, digits)
  | '+' :: digits => (false, digits)
  | digits => (false, digits)

/-- Whether a text is an optional sign followed by at least one decimal digit and nothing else. -/
def isNumeral (text : List Char) : Bool :=
  let digits := (splitSign text).2
  !digits.isEmpty && digits.all isDecimal

def numeralValue (text : List Char) : Int :=
  let (negative, digits) := splitSign text
  if negative then -(decimalNumber digits : Int) else decimalNumber digits

/-- How many digits a numeral has, leading zeros included and the sign not. -/
def numeralLength (text : List Char) : Nat := (splitSign text).2.length

end SmallLisp.Text
