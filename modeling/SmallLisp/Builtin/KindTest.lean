import SmallLisp.Builtin.Argument

/-! # Tests of kind

Each test takes one value and answers with a truth value.
-/
namespace SmallLisp.KindTest

def holds : KindTest → Value → Bool
  | isNil, .nil => true
  | isTrue, .bool b => b
  | isFalse, .bool b => !b
  | isSymbol, .symbol _ => true
  | isKeyword, .keyword _ => true
  | isString, .str _ => true
  | isNumber, v => v.isNumber
  | isFunction, v => v.isFunction && !v.isExpander
  | isExpander, v => v.isExpander
  | isList, .list .. => true
  | isVector, .vector .. => true
  | isSequential, v => v.isSequential
  | isTable, .table .. => true
  | isAtom, .atom _ => true
  | _, _ => false

def apply (test : KindTest) (arguments : List Value) : Except Fault Value := do
  let v ← onlyArgument test.name arguments
  return .bool (test.holds v)

end SmallLisp.KindTest
