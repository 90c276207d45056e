import SmallLisp.Builtin.Call
import SmallLisp.Builtin.Collection
import SmallLisp.Builtin.KindTest
import SmallLisp.Builtin.Label
import SmallLisp.Builtin.Number
import SmallLisp.Builtin.State
import SmallLisp.Builtin.Text
import SmallLisp.Parameters

/-! # Applying functions

A call of `apply` stands for a call of another function, which may be `apply` again; the lists
that are spread get smaller, so this comes to an end. A call of a function of the program opens a
scope and continues with the body.
-/
namespace SmallLisp

/-- A function whose calls do not stand for other calls. -/
inductive Callee where
  | builtin (op : PlainBuiltin) (home : FrameId)
  | body (parameters : Parameters) (form : Value) (scope : Scope)

def Value.isApply : Value → Bool
  | .native _ .apply _ _ => true
  | _ => false

def Value.callee (function : Value) : Except Fault Callee :=
  match function with
  | .native _ (.plain op) home _ => .ok (.builtin op home)
  | .closure _ parameters body scope _ _ => .ok (.body parameters body scope)
  | _ => .error (.kind (.notApplicable function))

/-- The call that a call of `apply` stands for: its first argument, called on the arguments in
between and the elements of the last. -/
def spread (arguments : List Value) : Except Fault (Value × List Value) :=
  match arguments with
  | function :: first :: others => do
    let between := (first :: others).dropLast
    let last := (first :: others).getLast (List.cons_ne_nil _ _)
    expectFunction "apply" function
    let items ← expectElements "apply" last
    return (function, between ++ items)
  | _ => .error (.count .applyParts)

theorem sizeOf_append_values (vs ws : List Value) :
    sizeOf (vs ++ ws) + 1 = sizeOf vs + sizeOf ws := by
  induction vs with
  | nil => simp; omega
  | cons v vs ih => simp; omega

theorem sizeOf_elements {v : Value} {items : List Value} (h : v.elements? = some items) :
    sizeOf items ≤ sizeOf v := by
  cases v <;> simp [Value.elements?] at h <;> subst h <;> simp <;> omega

theorem sizeOf_dropLast_getLast : ∀ (vs : List Value) (h : vs ≠ []),
    sizeOf vs.dropLast + sizeOf (vs.getLast h) < sizeOf vs
  | [v], _ => by simp
  | v :: w :: vs, _ => by
    have := sizeOf_dropLast_getLast (w :: vs) (List.cons_ne_nil _ _)
    simp at this ⊢
    omega

/-- The call that `apply` stands for has smaller arguments. -/
theorem sizeOf_spread {arguments arguments' : List Value} {function : Value}
    (h : spread arguments = .ok (function, arguments')) : sizeOf arguments' < sizeOf arguments := by
  unfold spread at h
  split at h
  · rename_i f first others
    simp only [bind, Except.bind, expectFunction, expectElements, pure, Except.pure] at h
    split at h <;> try contradiction
    split at h <;> try contradiction
    rename_i items hitems
    split at hitems <;> simp at hitems
    rename_i items' h'
    subst hitems
    simp only [Except.ok.injEq, Prod.mk.injEq] at h
    obtain ⟨rfl, rfl⟩ := h
    have hs := sizeOf_dropLast_getLast (first :: others) (List.cons_ne_nil _ _)
    have he := sizeOf_elements h'
    have ha := sizeOf_append_values (first :: others).dropLast items'
    simp only [List.cons.sizeOf_spec] at *
    omega
  · contradiction

def Callee.ofSpread (arguments : List Value) : Except Fault (Callee × List Value) :=
  match _h : spread arguments with
  | .error fault => .error fault
  | .ok (function, arguments') =>
    if function.isApply then ofSpread arguments'
    else do return (← function.callee, arguments')
termination_by sizeOf arguments
decreasing_by exact sizeOf_spread _h

def Callee.ofCall (function : Value) (arguments : List Value) :
    Except Fault (Callee × List Value) :=
  if function.isApply then ofSpread arguments else do return (← function.callee, arguments)

def PlainBuiltin.apply (run : Runner) (home : FrameId) (op : PlainBuiltin)
    (arguments : List Value) : EvalM Step :=
  match op with
  | .number op => return .done (← EvalM.ofFault (op.apply arguments))
  | .test op => return .done (← EvalM.ofFault (op.apply arguments))
  | .collection op => do
    let v ← EvalM.ofFault (op.apply arguments)
    return .done (← if op.selects then pure v else EvalM.identify v)
  | .label op => return .done (← EvalM.ofFault (op.apply arguments))
  | .text op => return .done (← op.apply arguments)
  | .state op => return .done (← op.apply arguments)
  | .call op => op.apply run home arguments

def Callee.enter (run : Runner) (arguments : List Value) : Callee → EvalM Step
  | .builtin op home => op.apply run home arguments
  | .body parameters form scope => do
    let identity ← EvalM.newIdentity
    let bindings ← EvalM.ofFault ((parameters.bind identity arguments).mapError .count)
    return .tail form (← EvalM.openScope scope bindings)

/-- The first step of a call. Every fault becomes an error value. -/
def applyFunction (run : Runner) (function : Value) (arguments : List Value) : EvalM Step :=
  EvalM.settle do
    let (callee, arguments) ← EvalM.ofFault (Callee.ofCall function arguments)
    callee.enter run arguments

def invokeFunction (run : Runner) (function : Value) (arguments : List Value) : EvalM Step :=
  if function.isApply then do
    let (function, arguments) ← EvalM.ofFault (spread arguments)
    applyFunction run function arguments
  else do
    let callee ← EvalM.ofFault function.callee
    callee.enter run arguments

end SmallLisp
