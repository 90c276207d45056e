/-! # Ranges of code points

Character classes of a standard are given as closed ranges of code points.
-/
namespace SmallLisp.Text

abbrev CodeRange := Nat × Nat

def inRanges (ranges : List CodeRange) (code : Nat) : Bool :=
  ranges.any fun range => range.1 ≤ code && code ≤ range.2

end SmallLisp.Text
