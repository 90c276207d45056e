import SmallLisp.Proofs.Endings
import SmallLisp.Proofs.Printing

/-! # Rules of evaluation

How the evaluation of a form ends follows from how its parts end. An error value, and a failure
that is no fault, is the end of every list of parts it occurs in.
-/
namespace SmallLisp

variable {α β : Type} {scope : Scope} {store store' store'' : Store}
  {head part form v metadata : Value} {identity : Option Identity}
  {result : EStateM.Result Failure Store Value}

inductive Evaluated (scope : Scope) : List Value → Store → List Value → Store → Prop where
  | nil (store : Store) : Evaluated scope [] store [] store
  | cons {form v : Value} {forms vs : List Value} {store store' store'' : Store}
      (hform : (Task.evaluate form scope).Ends store (.ok v store')) (hv : v.isError = false)
      (hforms : Evaluated scope forms store' vs store'') :
      Evaluated scope (form :: forms) store (v :: vs) store''

inductive BoundInOrder (scope : Scope) : List (String × Value) → Store → Store → Prop where
  | nil (store : Store) : BoundInOrder scope [] store store
  | cons {name : String} {expression v : Value} {bindings : List (String × Value)}
      {store store' store'' : Store}
      (hexpression : (Task.evaluate expression scope).Ends store (.ok v store'))
      (hv : v.isError = false)
      (hbindings : BoundInOrder scope bindings (store'.define scope.here name v) store'') :
      BoundInOrder scope ((name, expression) :: bindings) store store''

def flatBindings (bindings : List (String × Value)) : List Value :=
  bindings.flatMap fun binding => [.symbol binding.1, binding.2]

/-- An end that nothing but a handler or the session takes up. -/
def Stops : EStateM.Result Failure Store Value → Prop
  | .ok v _ => v.isError = true
  | .error (.fault _) _ => False
  | .error _ _ => True

theorem Stops.no_fault (h : Stops result) (f : Value → Step) (fault : Fault) (store' : Store) :
    mapEnd f result ≠ .error (.fault fault) store' := by
  cases result with
  | ok v store'' => nofun
  | error failure store'' =>
    cases failure with
    | fault _ => exact h.elim
    | thrown _ => nofun
    | abort _ => nofun

theorem Stops.isError (h : Stops result) :
    ∀ v store', result = .ok v store' → v.isError = true := by
  rintro v store' rfl
  exact h

section Continuations

variable {x : Limits → EvalM Value} {f : Limits → Value → EvalM β} {g : Value → β}
  {final : EStateM.Result Failure Store β}

theorem Ends.continues (hx : Ends x store (.ok v store')) (hv : v.isError = false)
    (hf : Ends (fun limits => f limits v) store' final) :
    Ends (fun limits => x limits >>= fun v => if v.isError then pure (g v) else f limits v) store
      final := by
  refine hx.bind ?_
  simp only [hv, Bool.false_eq_true, if_false]
  exact hf

theorem Ends.stops (hx : Ends x store result)
    (herror : ∀ v store', result = .ok v store' → v.isError = true) :
    Ends (fun limits => x limits >>= fun v => if v.isError then pure (g v) else f limits v) store
      (mapEnd g result) := by
  refine hx.bind_pure fun v store' hv limits => ?_
  exact if_pos (herror v store' hv)

end Continuations

theorem evaluateAll_cons {run : Runner} {forms vs : List Value}
    (hform : run (.evaluate form scope) store = .ok v store') (hv : v.isError = false)
    (hforms : evaluateAll run scope forms store' = .ok (.ok vs) store'') :
    evaluateAll run scope (form :: forms) store = .ok (.ok (v :: vs)) store'' := by
  simp only [evaluateAll, Bind.bind, EStateM.bind, hform, hv, Bool.false_eq_true, if_false, hforms]
  rfl

theorem Evaluated.all {forms vs : List Value} (h : Evaluated scope forms store vs store') :
    Ends (fun limits => evaluateAll limits.runner scope forms) store (.ok (.ok vs) store') := by
  induction h with
  | nil store => exact ends_pure _
  | cons hform hv _ ih => exact hform.continues hv (ih.bind (ends_pure _))

theorem Evaluated.all_stops {before vs : List Value}
    (h : Evaluated scope before store vs store')
    (hpart : (Task.evaluate part scope).Ends store' result) (hstops : Stops result)
    (after : List Value) :
    Ends (fun limits => evaluateAll limits.runner scope (before ++ part :: after)) store
      (mapEnd .error result) := by
  induction h with
  | nil store => exact hpart.stops hstops.isError
  | cons hform hv _ ih => exact hform.continues hv ((ih hpart).bind_map fun _ _ _ _ => rfl)

theorem evaluateSequence_cons {forms : List Value} (h : forms ≠ []) (run : Runner) :
    SpecialForm.evaluateSequence run scope (form :: forms) =
      run (.evaluate form scope) >>= fun v =>
        if v.isError then pure (.done v) else SpecialForm.evaluateSequence run scope forms := by
  rw [SpecialForm.evaluateSequence]
  intro h'
  exact h h'

theorem Evaluated.sequence_last {before vs : List Value}
    (h : Evaluated scope before store vs store') (part : Value) :
    Ends (fun limits => SpecialForm.evaluateSequence limits.runner scope (before ++ [part])) store
      (.ok (.tail part scope) store') := by
  induction h with
  | nil store => exact ends_pure _
  | @cons _ _ forms _ _ _ _ hform hv _ ih =>
    have hne := List.append_ne_nil_of_right_ne_nil forms (List.cons_ne_nil part [])
    simp only [List.cons_append, evaluateSequence_cons hne]
    exact hform.continues hv ih

theorem Evaluated.sequence_stops {before vs : List Value}
    (h : Evaluated scope before store vs store')
    (hpart : (Task.evaluate part scope).Ends store' result) (hstops : Stops result)
    {after : List Value} (hafter : after ≠ []) :
    Ends (fun limits => SpecialForm.evaluateSequence limits.runner scope
      (before ++ part :: after)) store (mapEnd Step.done result) := by
  induction h with
  | nil store =>
    simp only [List.nil_append, evaluateSequence_cons hafter]
    exact hpart.stops hstops.isError
  | @cons _ _ forms _ _ _ _ hform hv _ ih =>
    have hne := List.append_ne_nil_of_right_ne_nil forms (List.cons_ne_nil part after)
    simp only [List.cons_append, evaluateSequence_cons hne]
    exact hform.continues hv (ih hpart)

theorem BoundInOrder.all {bindings : List (String × Value)}
    (h : BoundInOrder scope bindings store store') :
    Ends (fun limits => SpecialForm.bindInOrder limits.runner scope (flatBindings bindings)) store
      (.ok none store') := by
  induction h with
  | nil store => exact ends_pure _
  | cons hexpression hv _ ih =>
    exact hexpression.continues hv (Ends.bind (ends_of_eq id fun _ => rfl) ih)

theorem BoundInOrder.stops {before : List (String × Value)}
    (h : BoundInOrder scope before store store')
    (hpart : (Task.evaluate part scope).Ends store' result) (hstops : Stops result)
    (name : String) (after : List Value) :
    Ends (fun limits => SpecialForm.bindInOrder limits.runner scope
      (flatBindings before ++ .symbol name :: part :: after)) store (mapEnd some result) := by
  induction h with
  | nil store => exact hpart.stops hstops.isError
  | cons hexpression hv _ ih =>
    exact hexpression.continues hv (Ends.bind (ends_of_eq id fun _ => rfl) (ih hpart))

theorem ends_symbol {name : String} (h : store.lookup? scope name = some v) :
    (Task.evaluate (.symbol name) scope).Ends store (.ok v store) := by
  have hstep : (Task.evaluate (.symbol name) scope).StepEnds store (.ok (.done v) store) := by
    refine ends_of_eq id fun limits => ?_
    rw [Task.step, stepForm, EvalM.get_bind, h]
    rfl
  exact Task.StepEnds.last hstep

theorem Task.step_special {special : SpecialForm} (hhead : specialForm? head = some special)
    (steps : Nat) (run : Runner) (tail : List Value) :
    (Task.evaluate (.list (head :: tail) metadata identity) scope).step steps run =
      EvalM.settle (special.evaluate steps run tail scope) := by
  rw [Task.step, stepForm, stepList, hhead]

theorem Task.stepEnds_special {special : SpecialForm} {tail : List Value}
    {step : EStateM.Result Failure Store Step} (hhead : specialForm? head = some special)
    (h : SmallLisp.Ends (fun limits => special.evaluate limits.steps limits.runner tail scope)
      store step)
    (hfault : ∀ fault store', step ≠ .error (.fault fault) store') :
    (Task.evaluate (.list (head :: tail) metadata identity) scope).StepEnds store step :=
  (h.settle hfault).congr fun _ => by rw [Task.step_special hhead]

theorem Task.stepEnds_call {tail : List Value} {step : EStateM.Result Failure Store Step}
    (hhead : specialForm? head = none)
    (hexpansion : expansionOf? store scope (.list (head :: tail) metadata identity) = none)
    (h : SmallLisp.Ends (fun limits => stepCall limits.runner head tail scope) store step) :
    (Task.evaluate (.list (head :: tail) metadata identity) scope).StepEnds store step := by
  refine h.congr fun limits => ?_
  rw [Task.step, stepForm, stepList, hhead]
  dsimp only
  rw [EvalM.get_bind, hexpansion]

theorem isError_of_isFunction {function : Value} (h : function.isFunction = true) :
    function.isError = false := by
  cases function with
  | error => cases h
  | _ => rfl

theorem applyFunction_eq_ok {function : Value} {arguments vs : List Value} {callee : Callee}
    {run : Runner} {step : Step} (hcallee : Callee.ofCall function arguments = .ok (callee, vs))
    (henter : callee.enter run vs store = .ok step store') :
    applyFunction run function arguments store = .ok step store' := by
  simp only [applyFunction, hcallee, EvalM.ofFault, pure_bind]
  rw [EvalM.settle_of_ne_fault, henter]
  rw [henter]
  nofun

/-- A call of a function of the program goes on with its body, in a scope of its own. -/
theorem Callee.enter_body {parameters : Parameters} {vs : List Value}
    {bindings : List (String × Value)}
    (h : parameters.bind store.heap.nextIdentity vs = .ok bindings) (run : Runner) :
    (Callee.body parameters form scope).enter run vs store =
      .ok (.tail form (scope.nest store.nextFrame))
        (store.skipIdentity.addFrame (Frame.bindAll [] bindings)) := by
  simp only [Callee.enter, EvalM.newIdentity, bind_assoc, EvalM.get_bind, pure_bind, h]
  rfl

theorem applyFunction_plain {op : PlainBuiltin} {home : FrameId} {vs : List Value} {run : Runner}
    {step : Step} (h : op.apply run home vs store = .ok step store') (id : Identity)
    (metadata : Value) :
    applyFunction run (.native id (.plain op) home metadata) vs store = .ok step store' :=
  applyFunction_eq_ok rfl h

end SmallLisp
