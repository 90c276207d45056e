import SmallLisp.Proofs.ErrorContainment
import SmallLisp.Proofs.ExpansionAgreement
import SmallLisp.Proofs.Nesting

/-! # Tail positions are not nested

A form in tail position is handed on by the step that comes to it. So the whole is as deep as the
deepest of what was evaluated before, one level further in, or as deep as the form that is handed
on. A loop whose repetition stands in tail position has a depth that does not grow.
-/
namespace SmallLisp

/-- The forms are evaluated in order, each to a value that is no error value. These are the
evaluations. -/
inductive InTurn (scope : Scope) :
    List Value → Store → List Pending → List Value → Store → Prop where
  | nil (store : Store) : InTurn scope [] store [] [] store
  | cons {form v : Value} {forms vs : List Value} {parts : List Pending}
      {store store' store'' : Store}
      (hform : (Task.evaluate form scope).Ends store (.ok v store')) (hv : v.isError = false)
      (hforms : InTurn scope forms store' parts vs store'') :
      InTurn scope (form :: forms) store (⟨form, scope, store⟩ :: parts) (v :: vs) store''

inductive BoundInTurn (scope : Scope) :
    List (String × Value) → Store → List Pending → Store → Prop where
  | nil (store : Store) : BoundInTurn scope [] store [] store
  | cons {name : String} {expression v : Value} {bindings : List (String × Value)}
      {parts : List Pending} {store store' store'' : Store}
      (hexpression : (Task.evaluate expression scope).Ends store (.ok v store'))
      (hv : v.isError = false)
      (hbindings : BoundInTurn scope bindings (store'.define scope.here name v) parts store'') :
      BoundInTurn scope ((name, expression) :: bindings) store
        (⟨expression, scope, store⟩ :: parts) store''

/-- A call goes on with this form: the body of a function of the program, or what `eval` is given.
The function may be called by way of `apply`. -/
inductive GoesOn (function : Value) (arguments : List Value) (store : Store) :
    Pending → Prop where
  | body {parameters : Parameters} {form : Value} {scope : Scope} {vs : List Value}
      {bindings : List (String × Value)}
      (hcallee : Callee.ofCall function arguments = .ok (.body parameters form scope, vs))
      (hbind : parameters.bind store.heap.nextIdentity vs = .ok bindings) :
      GoesOn function arguments store ⟨form, scope.nest store.nextFrame,
        store.skipIdentity.addFrame (Frame.bindAll [] bindings)⟩
  | eval {form : Value} {home : FrameId}
      (hcallee : Callee.ofCall function arguments = .ok (.builtin (.call .eval) home, [form])) :
      GoesOn function arguments store ⟨form, .global home, store⟩

def IsGiven (v : Value) (store : Store) : EStateM.Result Failure Store Value → Prop
  | .ok (.error message cause) store' => Value.payload message cause = v ∧ store' = store
  | .error (.thrown payload) store' => payload = v ∧ store' = store
  | _ => False

/-- The evaluation of the first form comes to the last one, which stands in tail position, after
it has carried out the evaluations in between. -/
inductive HandsOn : Pending → List Pending → Pending → Prop where
  | branch {condition consequence next v metadata : Value} {alternative : Option Value}
      {identity : Option Identity} {scope : Scope} {store store' : Store}
      (hcondition : (Task.evaluate condition scope).Ends store (.ok v store'))
      (hv : v.isError = false)
      (hselected : (if v.isTruthy then some consequence else alternative) = some next) :
      HandsOn ⟨.list (.symbol "if" :: condition :: consequence :: alternative.toList) metadata
        identity, scope, store⟩ [⟨condition, scope, store⟩] ⟨next, scope, store'⟩
  | sequence {next metadata : Value} {before vs : List Value} {parts : List Pending}
      {identity : Option Identity} {scope : Scope} {store store' : Store}
      (hbefore : InTurn scope before store parts vs store') :
      HandsOn ⟨.list (.symbol "do" :: (before ++ [next])) metadata identity, scope, store⟩ parts
        ⟨next, scope, store'⟩
  | letIn {bindings metadata : Value} {bound : List (String × Value)} {body : List Value}
      {parts : List Pending} {identity : Option Identity} {scope : Scope} {store store' : Store}
      (hsequential : bindings.isSequential = true)
      (hbindings : bindings.elements? = some (flatBindings bound))
      (hbound : BoundInTurn (scope.nest store.nextFrame) bound (store.addFrame []) parts store') :
      HandsOn ⟨.list (.symbol "let*" :: bindings :: body) metadata identity, scope, store⟩ parts
        ⟨SpecialForm.bodyOf body, scope.nest store.nextFrame, store'⟩
  | call {head function metadata : Value} {arguments vs : List Value} {parts : List Pending}
      {identity : Option Identity} {scope : Scope} {store store' : Store} {next : Pending}
      (hordinary : Ordinary store scope head)
      (hall : InTurn scope (head :: arguments) store parts (function :: vs) store')
      (hnext : GoesOn function vs store' next) :
      HandsOn ⟨.list (head :: arguments) metadata identity, scope, store⟩ parts next
  | handler {form clause handler v metadata : Value} {caught : String}
      {identity : Option Identity} {scope : Scope} {store store' : Store}
      {result : EStateM.Result Failure Store Value}
      (hclause : SpecialForm.catchClause clause = .ok (caught, handler))
      (hform : (Task.evaluate form scope).Ends store result) (hgiven : IsGiven v store' result) :
      HandsOn ⟨.list [.symbol "try*", form, clause] metadata identity, scope, store⟩
        [⟨form, scope, store⟩]
        ⟨handler, scope.nest store'.nextFrame, store'.addFrame [(caught, v)]⟩
  | unguarded {next metadata : Value} {identity : Option Identity} {scope : Scope}
      {store : Store} :
      HandsOn ⟨.list [.symbol "try*", next] metadata identity, scope, store⟩ []
        ⟨next, scope, store⟩
  | expansion {form function expanded : Value} {arguments : List Value} {scope : Scope}
      {store store' : Store} {body : Pending}
      (hexpansion : expansionOf? store scope form = some (function, arguments))
      (hclash : ¬ Clashes store scope form) (hbody : GoesOn function arguments store body)
      (hexpanded : body.Ends (.ok expanded store')) (hvalue : expanded.isError = false) :
      HandsOn ⟨form, scope, store⟩ [body] ⟨expanded, scope, store'⟩
  | template {template code metadata : Value} {identity : Option Identity} {scope : Scope}
      {store store' : Store} (hcode : expandTemplate template store = .ok code store') :
      HandsOn ⟨.list [.symbol "quasiquote", template] metadata identity, scope, store⟩ []
        ⟨code, scope, store'⟩

variable {scope : Scope} {store store' : Store} {head metadata v : Value}
  {identity : Option Identity} {parts : List Pending} {p next : Pending}
  {final : EStateM.Result Failure Store Value}

theorem InTurn.needs_all {forms vs : List Value} (h : InTurn scope forms store parts vs store') :
    Needs (fun nesting limits => evaluateAll (limits.runnerWithin nesting) scope forms) store parts
      (.ok (.ok vs) store') := by
  induction h with
  | nil store => exact needs_pure _
  | cons hform hv _ ih =>
    refine (needs_evaluate hform).continues hv ?_
    exact ih.bind_last id fun _ _ => rfl

theorem InTurn.needs_sequence {before vs : List Value}
    (h : InTurn scope before store parts vs store') (form : Value) :
    Needs (fun nesting limits => SpecialForm.evaluateSequence (limits.runnerWithin nesting) scope
      (before ++ [form])) store parts (.ok (.tail form scope) store') := by
  induction h with
  | nil store => exact needs_pure _
  | @cons _ _ forms _ _ _ _ _ hform hv _ ih =>
    have hne := List.append_ne_nil_of_right_ne_nil forms (List.cons_ne_nil form [])
    simp only [List.cons_append, evaluateSequence_cons hne]
    exact (needs_evaluate hform).continues hv ih

theorem BoundInTurn.needs_all {bindings : List (String × Value)}
    (h : BoundInTurn scope bindings store parts store') :
    Needs (fun nesting limits => SpecialForm.bindInOrder (limits.runnerWithin nesting) scope
      (flatBindings bindings)) store parts (.ok none store') := by
  induction h with
  | nil store => exact needs_pure _
  | cons hexpression hv _ ih =>
    refine (needs_evaluate hexpression).continues hv ?_
    exact (needs_of_eq id fun _ _ => rfl : Needs _ _ [] _).bind ih

theorem Task.stepNeeds_special {special : SpecialForm} {tail : List Value}
    {step : EStateM.Result Failure Store Step} (hhead : specialForm? head = some special)
    (h : Needs (fun nesting limits => special.evaluate limits.steps (limits.runnerWithin nesting)
      tail scope) store parts step)
    (hfault : ∀ fault store', step ≠ .error (.fault fault) store') :
    (Task.evaluate (.list (head :: tail) metadata identity) scope).StepNeeds store parts step := by
  refine (h.settle hfault).congr fun nesting limits => ?_
  rw [Task.step, stepForm, stepList, hhead]

theorem Task.stepNeeds_call {function : Value} {arguments vs : List Value}
    {step : EStateM.Result Failure Store Step} (hordinary : Ordinary store scope head)
    (hall : InTurn scope (head :: arguments) store parts (function :: vs) store')
    (hfunction : function.isFunction = true) (hfinal : ¬ Exhausted step)
    (hstep : ∀ run, applyFunction run function vs store' = step) :
    (Task.evaluate (.list (head :: arguments) metadata identity) scope).StepNeeds store parts
      step := by
  cases hall with
  | @cons _ _ _ _ parts' _ store'' _ hhead hv harguments =>
    have hcall : Needs (fun nesting limits => stepCall (limits.runnerWithin nesting) head arguments
        scope) store (⟨head, scope, store⟩ :: parts') step := by
      refine (needs_evaluate hhead).continues hv ?_
      refine harguments.needs_all.bind_last hfinal fun nesting limits => ?_
      dsimp only
      rw [if_pos hfunction]
      exact hstep _
    refine hcall.congr fun nesting limits => ?_
    rw [Task.step, stepForm, stepList, hordinary.specialForm_eq]
    dsimp only
    rw [EvalM.get_bind, hordinary.expansionOf_eq]

theorem isFunction_of_ofCall {function : Value} {arguments vs : List Value} {callee : Callee}
    (h : Callee.ofCall function arguments = .ok (callee, vs)) : function.isFunction = true := by
  unfold Callee.ofCall at h
  cases function with
  | native => rfl
  | closure => rfl
  | _ => cases h

theorem GoesOn.isFunction {function : Value} {arguments : List Value}
    (h : GoesOn function arguments store next) : function.isFunction = true := by
  cases h with
  | body hcallee _ => exact isFunction_of_ofCall hcallee
  | eval hcallee => exact isFunction_of_ofCall hcallee

theorem GoesOn.applyFunction_eq {function : Value} {arguments : List Value}
    (h : GoesOn function arguments store next) (run : Runner) :
    applyFunction run function arguments store =
      .ok (.tail next.form next.scope) next.store := by
  cases h with
  | body hcallee hbind => exact applyFunction_eq_ok hcallee (Callee.enter_body hbind run)
  | eval hcallee => exact applyFunction_eq_ok hcallee rfl

/-- A guarded form is evaluated inside the guard, and its handler is not. -/
theorem needs_guarded {form handler : Value} {caught : String}
    (hform : (Task.evaluate form scope).Ends store final) (hgiven : IsGiven v store' final) :
    Needs (fun nesting limits => SpecialForm.evaluateGuarded (limits.runnerWithin nesting) form
      caught handler scope) store [⟨form, scope, store⟩]
      (.ok (.tail handler (scope.nest store'.nextFrame))
        (store'.addFrame [(caught, v)])) := by
  cases final with
  | ok u store'' =>
    cases u with
    | error message cause =>
      obtain ⟨rfl, rfl⟩ := hgiven
      exact (needs_evaluate hform).catchThrown.bind_last id fun _ _ => rfl
    | _ => exact hgiven.elim
  | error failure store'' =>
    cases failure with
    | thrown payload =>
      obtain ⟨rfl, rfl⟩ := hgiven
      exact (needs_evaluate hform).catchThrown.bind_last id fun _ _ => rfl
    | _ => exact hgiven.elim

theorem HandsOn.stepNeeds (h : HandsOn p parts next) :
    (Task.evaluate p.form p.scope).StepNeeds p.store parts
      (.ok (.tail next.form next.scope) next.store) := by
  cases h with
  | branch hcondition hv hselected =>
    have hif : specialForm? (.symbol "if") = some .branch := by decide
    refine Task.stepNeeds_special hif ?_ nofun
    simp only [evaluate_branch]
    refine (needs_evaluate hcondition).continues hv (needs_of_eq id fun _ _ => ?_)
    exact branch_eq_tail hselected
  | sequence hbefore =>
    have hdo : specialForm? (.symbol "do") = some .sequence := by decide
    exact Task.stepNeeds_special hdo (hbefore.needs_sequence _) nofun
  | letIn hsequential hbindings hbound =>
    have hlet : specialForm? (.symbol "let*") = some .letIn := by decide
    refine Task.stepNeeds_special hlet ?_ nofun
    simp only [evaluate_letIn hsequential hbindings (length_flatBindings _)]
    refine (needs_of_eq id fun _ _ => rfl : Needs _ _ [] _).bind ?_
    exact hbound.needs_all.bind_last id fun _ _ => rfl
  | call hordinary hall hnext =>
    exact Task.stepNeeds_call hordinary hall hnext.isFunction id hnext.applyFunction_eq
  | handler hclause hform hgiven =>
    refine ((needs_guarded hform hgiven).settle nofun).congr fun nesting limits => ?_
    exact step_attempt hclause
  | unguarded =>
    have htry : specialForm? (.symbol "try*") = some .attempt := by decide
    exact Task.stepNeeds_special htry (needs_pure _) nofun
  | expansion hexpansion hclash hbody hexpanded hvalue =>
    have hcall : (Task.call _ _).StepNeeds _ [] _ := needs_of_eq id fun _ _ =>
      hbody.applyFunction_eq _
    refine Needs.congr ?_ fun nesting limits => step_expansion hexpansion hclash _ _
    exact (needs_call hcall hexpanded).continues hvalue (needs_of_eq id fun _ _ => rfl)
  | template hcode =>
    have hquasiquote : specialForm? (.symbol "quasiquote") = some .quasiquote := by decide
    refine Task.stepNeeds_special hquasiquote (needs_of_eq id fun nesting limits => ?_) nofun
    simp only [SpecialForm.evaluate, onlyForm, EvalM.ofFault, pure_bind]
    simp only [Bind.bind, EStateM.bind, hcode]
    rfl

theorem HandsOn.ends_within {bound : Nat} (h : HandsOn p parts next)
    (hparts : ∀ q ∈ parts, q.depth ≤ bound) (hnext : next.Ends final)
    (hdepth : next.depth ≤ bound + 1) : p.Ends final ∧ p.depth ≤ bound + 1 := by
  refine ⟨h.stepNeeds.stepEnds.next hnext, ?_⟩
  rw [h.stepNeeds.depth_tail hnext, nestedDepth_le_iff]
  exact ⟨hdepth, fun q hq => by have := hparts q hq; omega⟩

end SmallLisp
