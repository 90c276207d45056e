/-! # Pieces of a text

A separator divides a text into pieces: one more than it occurs, some of which may be empty.
-/
namespace SmallLisp.Text

/-- The pieces of a text between the occurrences of a separator. -/
def pieces (separator : Char) : List Char → List (List Char)
  | [] => [[]]
  | c :: text =>
    match pieces separator text with
    | [] => [[c]]
    | piece :: others =>
      if c = separator then [] :: piece :: others else (c :: piece) :: others

end SmallLisp.Text
