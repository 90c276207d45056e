import SmallLisp.Value.Basic

/-! # Equality of values

`Value.same` is the equality of the language. Lists and vectors are the same when their elements
are, tables when their entries are the same in order, truth values are never integers, and cells
and functions are the same only when they have the same number. Neither metadata nor the identity of
lists and vectors matters.

Failures are the same when their messages agree and their causes agree loosely. The loose
comparison of causes counts `true` as 1 and `false` as 0 and does not look at the order of table
entries; the keys of a table are always compared by `same`.
-/
namespace SmallLisp.Value

def looseInt? : Value → Option Int
  | .int n => some n
  | .bool b => some (if b then 1 else 0)
  | _ => none

mutual

def same : Value → Value → Bool
  | .nil, .nil => true
  | .bool a, .bool b => a == b
  | .int m, .int n => m == n
  | .str s, .str t => s == t
  | .symbol a, .symbol b => a == b
  | .keyword a, .keyword b => a == b
  | .list xs _ _, .list ys _ _ => sameAll xs ys
  | .list xs _ _, .vector ys _ _ => sameAll xs ys
  | .vector xs _ _, .list ys _ _ => sameAll xs ys
  | .vector xs _ _, .vector ys _ _ => sameAll xs ys
  | .table xs _, .table ys _ => sameEntries xs ys
  | .atom a, .atom b => a == b
  | .native a _ _ _, .native b _ _ _ => a == b
  | .closure a _ _ _ _ _, .closure b _ _ _ _ _ => a == b
  | .error s c, .error t d => s == t && looseCause c d
  | _, _ => false
termination_by structural x => x

def sameAll : List Value → List Value → Bool
  | [], [] => true
  | x :: xs, y :: ys => same x y && sameAll xs ys
  | _, _ => false
termination_by structural x => x

/-- Equality of two tables, entry by entry in order. -/
def sameEntries : List (Value × Value) → List (Value × Value) → Bool
  | [], [] => true
  | (j, x) :: xs, (k, y) :: ys => same j k && same x y && sameEntries xs ys
  | _, _ => false
termination_by structural x => x

def loose : Value → Value → Bool
  | .nil, .nil => true
  | .bool a, b => looseInt? b == some (if a then 1 else 0)
  | .int m, b => looseInt? b == some m
  | .str s, .str t => s == t
  | .symbol a, .symbol b => a == b
  | .keyword a, .keyword b => a == b
  | .list xs _ _, .list ys _ _ => looseAll xs ys
  | .list xs _ _, .vector ys _ _ => looseAll xs ys
  | .vector xs _ _, .list ys _ _ => looseAll xs ys
  | .vector xs _ _, .vector ys _ _ => looseAll xs ys
  | .table xs _, .table ys _ => xs.length == ys.length && looseWithin xs ys
  | .atom a, .atom b => a == b
  | .native a _ _ _, .native b _ _ _ => a == b
  | .closure a _ _ _ _ _, .closure b _ _ _ _ _ => a == b
  | .error s c, .error t d => s == t && looseCause c d
  | _, _ => false
termination_by structural x => x

def looseAll : List Value → List Value → Bool
  | [], [] => true
  | x :: xs, y :: ys => loose x y && looseAll xs ys
  | _, _ => false
termination_by structural x => x

/-- Whether every entry of the first table agrees with one of the second: the keys are the same
and the values agree loosely. -/
def looseWithin : List (Value × Value) → List (Value × Value) → Bool
  | [], _ => true
  | (k, x) :: xs, ys =>
    (ys.any fun entry => same k entry.1 && loose x entry.2) && looseWithin xs ys
termination_by structural x => x

def looseCause : Option Value → Option Value → Bool
  | none, none => true
  | some x, some y => loose x y
  | _, _ => false
termination_by structural x => x

end

example : same (ofList [.int 1, .bool true]) (ofVector [.int 1, .bool true]) = true := rfl

example : same (.bool true) (.int 1) = false := rfl

example : same (.error "e" (some (.bool true))) (.error "e" (some (.int 1))) = true := rfl

end SmallLisp.Value
