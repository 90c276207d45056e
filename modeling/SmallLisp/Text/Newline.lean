/-! # Line ends

Text from files may end its lines with a carriage return, a line feed or both in this order.
-/
namespace SmallLisp.Text

def unifyNewlines : List Char → List Char
  | '\r' :: '\n' :: rest => '\n' :: unifyNewlines rest
  | '\r' :: rest => '\n' :: unifyNewlines rest
  | c :: rest => c :: unifyNewlines rest
  | [] => []

end SmallLisp.Text
