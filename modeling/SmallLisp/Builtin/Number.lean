import SmallLisp.Fault

/-! # Arithmetic and comparison

Integers have no bound. Division rounds toward zero. Comparisons take any number of arguments and
hold when they hold between all neighbours.
-/
namespace SmallLisp

def integers? : List Value → Option (List Int)
  | [] => some []
  | .int n :: vs => (integers? vs).map (n :: ·)
  | _ => none

/-- The quotient of the absolute values, negated if just one of the two numbers is negative. -/
def signedQuotient (n d : Int) : Int :=
  let q : Int := ↑(n.natAbs / d.natAbs)
  if n < 0 ↔ d < 0 then q else -q

def quotient (n d : Int) : Except Fault Int :=
  if d = 0 then .error .divisionByZero else .ok (signedQuotient n d)

def divideAll (n : Int) (divisors : List Int) : Except Fault Int := divisors.foldlM quotient n

def chained (related : Int → Int → Bool) : List Int → Bool
  | m :: n :: rest => related m n && chained related (n :: rest)
  | _ => true

namespace NumberOp

def needsArgument : NumberOp → Bool
  | subtract => true
  | divide => true
  | _ => false

def onIntegers (op : NumberOp) (ns : List Int) : Except Fault Value :=
  match op with
  | add => .ok (.int (ns.foldl (· + ·) 0))
  | subtract =>
    match ns with
    | [] => .error (.count (.atLeastOne op.name))
    | [n] => .ok (.int (-n))
    | n :: rest => .ok (.int (rest.foldl (· - ·) n))
  | multiply => .ok (.int (ns.foldl (· * ·) 1))
  | divide =>
    match ns with
    | [] => .error (.count (.atLeastOne op.name))
    | [n] => (quotient 1 n).map .int
    | n :: rest => (divideAll n rest).map .int
  | less => .ok (.bool (chained (fun m n => m < n) ns))
  | lessEqual => .ok (.bool (chained (fun m n => m ≤ n) ns))
  | greater => .ok (.bool (chained (fun m n => m > n) ns))
  | greaterEqual => .ok (.bool (chained (fun m n => m ≥ n) ns))

def apply (op : NumberOp) (arguments : List Value) : Except Fault Value :=
  if op.needsArgument && arguments.isEmpty then .error (.count (.atLeastOne op.name))
  else
    match integers? arguments with
    | some ns => op.onIntegers ns
    | none => .error (.kind (.notNumbers op.name))

end NumberOp

end SmallLisp
