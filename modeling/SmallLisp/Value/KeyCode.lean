import SmallLisp.Value.Sharing

/-! # Codes of keys

The code of a key can be hashed and says all that tells it from other keys. Failures have no code,
since what they are compared by has no bound.
-/
namespace SmallLisp

/-- What tells a key from other keys. -/
inductive KeyCode where
  | nil
  | bool (b : Bool)
  | int (n : Int)
  | str (text : String)
  | symbol (name : String)
  | keyword (name : String)
  | atom (cell : CellId)
  | native (id : Identity)
  | closure (id : Identity)
deriving DecidableEq, Hashable

namespace Value

def keyCode? : Value → Option KeyCode
  | .nil => some .nil
  | .bool b => some (.bool b)
  | .int n => some (.int n)
  | .str text => some (.str text)
  | .symbol name => some (.symbol name)
  | .keyword name => some (.keyword name)
  | .atom cell => some (.atom cell)
  | .native id _ _ _ => some (.native id)
  | .closure id _ _ _ _ _ => some (.closure id)
  | _ => none

theorem same_iff_keyCode?_eq {v w : Value} {c d : KeyCode} (hv : v.keyCode? = some c)
    (hw : w.keyCode? = some d) : same v w = true ↔ c = d := by
  cases v <;> simp only [keyCode?, Option.some.injEq, reduceCtorEq] at hv <;> subst hv <;>
    cases w <;> simp only [keyCode?, Option.some.injEq, reduceCtorEq] at hw <;> subst hw <;>
    simp [same]

theorem same_eq_false_of_keyCode?_eq_none {v w : Value} {d : KeyCode} (hv : v.keyCode? = none)
    (hw : w.keyCode? = some d) : same v w = false := by
  cases v <;> simp only [keyCode?, reduceCtorEq] at hv <;>
    cases w <;> simp only [keyCode?, reduceCtorEq] at hw <;> rfl

theorem isKey_of_keyCode? {v : Value} {c : KeyCode} (h : v.keyCode? = some c) :
    v.isKey = true := by
  cases v <;> simp only [keyCode?, reduceCtorEq] at h <;> rfl

end Value

end SmallLisp
