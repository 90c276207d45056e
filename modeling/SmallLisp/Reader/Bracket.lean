/-! # Brackets

Round brackets hold lists, square brackets vectors and curly brackets tables.
-/
namespace SmallLisp

inductive Bracket where
  | round | square | curly
deriving DecidableEq, Repr

namespace Bracket

def opening : Bracket → Char
  | round => '('
  | square => '['
  | curly => '\x7b'

def closing : Bracket → Char
  | round => ')'
  | square => ']'
  | curly => '\x7d'

end Bracket

end SmallLisp
