import SmallLisp.Console
import SmallLisp.Text.Numeral
import SmallLisp.Text.Quoted
import SmallLisp.Text.Utf8

/-! # Conditions that no program can catch

An abort ends the whole evaluation: it may go no further, a text has no end, a numeral is beyond
the digit limit, a file has a path or content that cannot be handled, or the console fails.
-/
namespace SmallLisp

inductive Abort where
  | exhausted
  /-- A value whose text was wanted lies inside itself. -/
  | endless
  | longLiteral (digits : Nat)
  | longNumeral
  | nulInPath
  | undecodable (failure : Text.DecodingError)
  | console (fault : ConsoleFault)
deriving DecidableEq, Repr

def Text.DecodingReason.words : Text.DecodingReason → String
  | .invalidStart => "invalid start byte"
  | .invalidContinuation => "invalid continuation byte"
  | .unexpectedEnd => "unexpected end of data"

/-- The message of a decoding failure. One byte is shown, several are located. -/
def Text.DecodingError.message (failure : Text.DecodingError) : String :=
  let place :=
    if failure.length = 1 then
      "byte 0x" ++ String.ofList (Text.hexDigits 2 failure.lead.toNat) ++ " in position "
        ++ failure.start.repr
    else
      "bytes in position " ++ failure.start.repr ++ "-"
        ++ (failure.start + failure.length - 1).repr
  "'utf-8' codec can't decode " ++ place ++ ": " ++ failure.reason.words

def Abort.message : Abort → String
  | .exhausted => "maximum recursion depth exceeded"
  | .endless => "maximum recursion depth exceeded"
  | .longLiteral digits =>
    "Exceeds the limit (4300 digits) for integer string conversion: value has " ++ digits.repr
      ++ " digits; use sys.set_int_max_str_digits() to increase the limit"
  | .longNumeral =>
    "Exceeds the limit (4300 digits) for integer string conversion; "
      ++ "use sys.set_int_max_str_digits() to increase the limit"
  | .nulInPath => "embedded null byte"
  | .undecodable failure => failure.message
  | .console fault => fault.message

end SmallLisp
