import SmallLisp.Reader.Parser

/-! # Texts that are nested too deep

A form inside another one is read on a level of its own, and the host has only so many levels.
-/
namespace SmallLisp

/-- Whether more than so many forms are ever open at once, up to the first mistake. -/
def Parser.goesBeyond (levels : Nat) (parser : Parser) : List Token → Bool
  | [] => levels < parser.pending.length
  | token :: tokens =>
    levels < parser.pending.length ||
      match parser.accept token with
      | .ok parser => parser.goesBeyond levels tokens
      | .error _ => false

def isTooDeep (levels : Nat) (source : String) : Bool :=
  Parser.initial.goesBeyond levels (tokenize source)

end SmallLisp
