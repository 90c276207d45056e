import Mathlib.Logic.Relation
import SmallLisp.Proofs.EvaluationRules

/-! # Failures leave every form around them

An error value that a part of a form results in, and a value that it throws, is what the whole
form results in or throws, in the store in which the part left it. This holds for each place where
a part is evaluated, a guarded form apart, and so for places inside places at every depth.
-/
namespace SmallLisp

structure Pending where
  form : Value
  scope : Scope
  store : Store

def Pending.Ends (p : Pending) (result : EStateM.Result Failure Store Value) : Prop :=
  (Task.evaluate p.form p.scope).Ends p.store result

def Ordinary (store : Store) (scope : Scope) (head : Value) : Prop :=
  ∀ name, head = .symbol name → SpecialForm.ofName? name = none ∧
    ∀ function, store.lookup? scope name = some function → function.isExpander = false

/-- The evaluation of the first form comes to the evaluation of the second one, which is a part
of it. What is evaluated before that part ends in values that are no error values. -/
inductive Surrounds : Pending → Pending → Prop where
  | head {head metadata : Value} {arguments : List Value} {identity : Option Identity}
      {scope : Scope} {store : Store} (hordinary : Ordinary store scope head) :
      Surrounds ⟨.list (head :: arguments) metadata identity, scope, store⟩ ⟨head, scope, store⟩
  | argument {head part metadata function : Value} {before after vs : List Value}
      {identity : Option Identity} {scope : Scope} {store store' store'' : Store}
      (hordinary : Ordinary store scope head)
      (hhead : (Task.evaluate head scope).Ends store (.ok function store'))
      (hfunction : function.isError = false) (hbefore : Evaluated scope before store' vs store'') :
      Surrounds ⟨.list (head :: (before ++ part :: after)) metadata identity, scope, store⟩
        ⟨part, scope, store''⟩
  | element {part metadata : Value} {before after vs : List Value} {identity : Option Identity}
      {scope : Scope} {store store' : Store} (hbefore : Evaluated scope before store vs store') :
      Surrounds ⟨.vector (before ++ part :: after) metadata identity, scope, store⟩
        ⟨part, scope, store'⟩
  | tableValue {key part metadata : Value} {before after : Entries} {vs : List Value}
      {scope : Scope} {store store' : Store}
      (hbefore : Evaluated scope before.values store vs store') :
      Surrounds ⟨.table (before ++ (key, part) :: after) metadata, scope, store⟩
        ⟨part, scope, store'⟩
  | sequenceForm {part metadata : Value} {before after vs : List Value}
      {identity : Option Identity} {scope : Scope} {store store' : Store}
      (hbefore : Evaluated scope before store vs store') :
      Surrounds ⟨.list (.symbol "do" :: (before ++ part :: after)) metadata identity, scope, store⟩
        ⟨part, scope, store'⟩
  | condition {part consequence metadata : Value} {alternative : Option Value}
      {identity : Option Identity} {scope : Scope} {store : Store} :
      Surrounds ⟨.list (.symbol "if" :: part :: consequence :: alternative.toList) metadata
        identity, scope, store⟩ ⟨part, scope, store⟩
  | consequence {condition part v metadata : Value} {alternative : Option Value}
      {identity : Option Identity} {scope : Scope} {store store' : Store}
      (hcondition : (Task.evaluate condition scope).Ends store (.ok v store'))
      (hv : v.isError = false) (htrue : v.isTruthy = true) :
      Surrounds ⟨.list (.symbol "if" :: condition :: part :: alternative.toList) metadata identity,
        scope, store⟩ ⟨part, scope, store'⟩
  | alternative {condition consequence part v metadata : Value} {identity : Option Identity}
      {scope : Scope} {store store' : Store}
      (hcondition : (Task.evaluate condition scope).Ends store (.ok v store'))
      (hv : v.isError = false) (hfalse : v.isTruthy = false) :
      Surrounds ⟨.list [.symbol "if", condition, consequence, part] metadata identity, scope,
        store⟩ ⟨part, scope, store'⟩
  | binding {bindings part metadata : Value} {before : List (String × Value)} {name : String}
      {after body : List Value} {identity : Option Identity} {scope : Scope}
      {store store' : Store} (hsequential : bindings.isSequential = true)
      (hbindings : bindings.elements? =
        some (flatBindings before ++ .symbol name :: part :: after))
      (heven : after.length % 2 = 0)
      (hbefore : BoundInOrder (scope.nest store.nextFrame) before (store.addFrame []) store') :
      Surrounds ⟨.list (.symbol "let*" :: bindings :: body) metadata identity, scope, store⟩
        ⟨part, scope.nest store.nextFrame, store'⟩
  | body {bindings part metadata : Value} {bound : List (String × Value)}
      {before after vs : List Value} {identity : Option Identity} {scope : Scope}
      {store store' store'' : Store} (hsequential : bindings.isSequential = true)
      (hbindings : bindings.elements? = some (flatBindings bound))
      (hbound : BoundInOrder (scope.nest store.nextFrame) bound (store.addFrame []) store')
      (hbefore : Evaluated (scope.nest store.nextFrame) before store' vs store'') :
      Surrounds ⟨.list (.symbol "let*" :: bindings :: (before ++ part :: after)) metadata identity,
        scope, store⟩ ⟨part, scope.nest store.nextFrame, store''⟩
  | defined {keyword name : String} {part metadata : Value} {identity : Option Identity}
      {scope : Scope} {store : Store} (hkeyword : keyword = "def!" ∨ keyword = "defmacro!") :
      Surrounds ⟨.list [.symbol keyword, .symbol name, part] metadata identity, scope, store⟩
        ⟨part, scope, store⟩
  | attempted {part metadata : Value} {identity : Option Identity} {scope : Scope}
      {store : Store} :
      Surrounds ⟨.list [.symbol "try*", part] metadata identity, scope, store⟩
        ⟨part, scope, store⟩

variable {scope : Scope} {store store' : Store} {head part v metadata : Value}
  {identity : Option Identity} {result : EStateM.Result Failure Store Value}

theorem Ordinary.specialForm_eq (h : Ordinary store scope head) : specialForm? head = none := by
  cases head with
  | symbol name => exact (h name rfl).1
  | _ => rfl

theorem Ordinary.expansionOf_eq (h : Ordinary store scope head) (tail : List Value) :
    expansionOf? store scope (.list (head :: tail) metadata identity) = none := by
  cases head with
  | symbol name =>
    unfold expansionOf?
    dsimp only
    cases hlookup : store.lookup? scope name with
    | none => rfl
    | some function =>
      have hplain := (h name rfl).2 function hlookup
      simp only [hplain, Bool.false_eq_true, if_false]
  | _ => rfl

theorem ordinary_symbol {name : String} {function : Value}
    (hname : SpecialForm.ofName? name = none)
    (hbound : store.lookup? scope name = some function) (hplain : function.isExpander = false) :
    Ordinary store scope (.symbol name) := by
  rintro _ ⟨⟩
  refine ⟨hname, fun function' h => ?_⟩
  cases hbound.symm.trans h
  exact hplain

theorem stops_head (hordinary : Ordinary store scope head)
    (h : (Task.evaluate head scope).Ends store result) (hstops : Stops result)
    (arguments : List Value) :
    (Task.evaluate (.list (head :: arguments) metadata identity) scope).Ends store result := by
  refine Task.StepEnds.last (Task.stepEnds_call hordinary.specialForm_eq
    (hordinary.expansionOf_eq arguments) ?_)
  exact h.stops hstops.isError

theorem stops_argument {function : Value} {before after vs : List Value} {store'' : Store}
    (hordinary : Ordinary store scope head)
    (hhead : (Task.evaluate head scope).Ends store (.ok function store'))
    (hfunction : function.isError = false) (hbefore : Evaluated scope before store' vs store'')
    (h : (Task.evaluate part scope).Ends store'' result) (hstops : Stops result) :
    (Task.evaluate (.list (head :: (before ++ part :: after)) metadata identity) scope).Ends store
      result := by
  refine Task.StepEnds.last (Task.stepEnds_call hordinary.specialForm_eq
    (hordinary.expansionOf_eq _) ?_)
  exact hhead.continues hfunction
    ((hbefore.all_stops h hstops after).bind_map fun _ _ _ _ => rfl)

theorem stops_sequenceForm {before vs : List Value} (hbefore : Evaluated scope before store vs store')
    (h : (Task.evaluate part scope).Ends store' result) (hstops : Stops result)
    (after : List Value) :
    (Task.evaluate (.list (.symbol "do" :: (before ++ part :: after)) metadata identity)
      scope).Ends store result := by
  have hdo : specialForm? (.symbol "do") = some .sequence := by decide
  cases after with
  | nil =>
    refine Task.StepEnds.next ?_ h
    exact Task.stepEnds_special hdo (hbefore.sequence_last part) nofun
  | cons form after =>
    refine Task.StepEnds.last (Task.stepEnds_special hdo ?_ (hstops.no_fault _))
    exact hbefore.sequence_stops h hstops (List.cons_ne_nil form after)

theorem evaluate_branch (steps : Nat) (run : Runner) (condition consequence : Value)
    (alternative : Option Value) (scope : Scope) :
    SpecialForm.branch.evaluate steps run (condition :: consequence :: alternative.toList) scope =
      run (.evaluate condition scope) >>= fun v =>
        if v.isError then pure (.done v)
        else if v.isTruthy then pure (.tail consequence scope)
        else alternative.elim (pure (.done .nil)) fun form => pure (.tail form scope) := by
  cases alternative with
  | none => rfl
  | some form => rfl

theorem stops_condition (h : (Task.evaluate part scope).Ends store result)
    (hstops : Stops result) (consequence : Value) (alternative : Option Value) :
    (Task.evaluate (.list (.symbol "if" :: part :: consequence :: alternative.toList) metadata
      identity) scope).Ends store result := by
  have hif : specialForm? (.symbol "if") = some .branch := by decide
  refine Task.StepEnds.last (Task.stepEnds_special hif ?_ (hstops.no_fault _))
  simp only [evaluate_branch]
  exact h.stops hstops.isError

theorem branch_eq_tail {consequence next : Value} {alternative : Option Value}
    (hselected : (if v.isTruthy then some consequence else alternative) = some next) :
    (if v.isTruthy then pure (.tail consequence scope)
      else alternative.elim (pure (.done .nil)) fun form => pure (.tail form scope) : EvalM Step)
      store = .ok (.tail next scope) store := by
  by_cases htrue : v.isTruthy = true
  · simp only [if_pos htrue] at hselected ⊢
    cases hselected
    rfl
  · simp only [if_neg htrue] at hselected ⊢
    cases hselected
    rfl

theorem ends_branch {condition consequence next : Value} {alternative : Option Value}
    (hcondition : (Task.evaluate condition scope).Ends store (.ok v store'))
    (hv : v.isError = false)
    (hselected : (if v.isTruthy then some consequence else alternative) = some next)
    (h : (Task.evaluate next scope).Ends store' result) :
    (Task.evaluate (.list (.symbol "if" :: condition :: consequence :: alternative.toList) metadata
      identity) scope).Ends store result := by
  have hif : specialForm? (.symbol "if") = some .branch := by decide
  refine Task.StepEnds.next (Task.stepEnds_special hif ?_ nofun) h
  simp only [evaluate_branch]
  exact hcondition.continues hv (ends_of_eq id fun _ => branch_eq_tail hselected)

theorem evaluate_letIn {bindings : Value} {flat : List Value}
    (hsequential : bindings.isSequential = true) (hflat : bindings.elements? = some flat)
    (heven : flat.length % 2 = 0) (steps : Nat) (run : Runner) (body : List Value)
    (scope : Scope) :
    SpecialForm.letIn.evaluate steps run (bindings :: body) scope =
      EvalM.openScope scope [] >>= fun inner =>
        SpecialForm.bindInOrder run inner flat >>= fun r => match r with
          | some e => pure (.done e)
          | none => pure (.tail (SpecialForm.bodyOf body) inner) := by
  cases bindings with
  | list items m i =>
    cases hflat
    exact if_pos heven
  | vector items m i =>
    cases hflat
    exact if_pos heven
  | _ => cases hsequential

theorem ends_letIn {bindings : Value} {flat body : List Value}
    {step : EStateM.Result Failure Store Step}
    (hsequential : bindings.isSequential = true) (hflat : bindings.elements? = some flat)
    (heven : flat.length % 2 = 0)
    (h : Ends (fun limits => SpecialForm.bindInOrder limits.runner (scope.nest store.nextFrame) flat
      >>= fun r => match r with
        | some e => pure (.done e)
        | none => pure (.tail (SpecialForm.bodyOf body) (scope.nest store.nextFrame)))
      (store.addFrame []) step) :
    Ends (fun limits => SpecialForm.letIn.evaluate limits.steps limits.runner (bindings :: body)
      scope) store step := by
  have hopen : Ends (fun _ => EvalM.openScope scope []) store
      (.ok (scope.nest store.nextFrame) (store.addFrame [])) := ends_of_eq id fun _ => rfl
  simp only [evaluate_letIn hsequential hflat heven]
  exact hopen.bind h

theorem length_flatBindings (bindings : List (String × Value)) :
    (flatBindings bindings).length % 2 = 0 := by
  induction bindings with
  | nil => rfl
  | cons binding bindings ih =>
    rw [flatBindings, List.flatMap_cons, List.length_append, ← flatBindings]
    have hpair : [Value.symbol binding.1, binding.2].length = 2 := rfl
    omega

theorem stops_binding {bindings : Value} {before : List (String × Value)} {name : String}
    {after : List Value} (hsequential : bindings.isSequential = true)
    (hbindings : bindings.elements? =
      some (flatBindings before ++ .symbol name :: part :: after))
    (heven : after.length % 2 = 0)
    (hbefore : BoundInOrder (scope.nest store.nextFrame) before (store.addFrame []) store')
    (h : (Task.evaluate part (scope.nest store.nextFrame)).Ends store' result)
    (hstops : Stops result) (body : List Value) :
    (Task.evaluate (.list (.symbol "let*" :: bindings :: body) metadata identity) scope).Ends store
      result := by
  have hlet : specialForm? (.symbol "let*") = some .letIn := by decide
  have hlength : (flatBindings before ++ Value.symbol name :: part :: after).length % 2 = 0 := by
    have hflat := length_flatBindings before
    rw [List.length_append, List.length_cons, List.length_cons]
    omega
  refine Task.StepEnds.last (Task.stepEnds_special hlet ?_ (hstops.no_fault _))
  refine ends_letIn hsequential hbindings hlength ?_
  exact (hbefore.stops h hstops name after).bind_map fun _ _ _ _ => rfl

theorem stops_body {bindings : Value} {bound : List (String × Value)} {before after vs : List Value}
    {store'' : Store} (hsequential : bindings.isSequential = true)
    (hbindings : bindings.elements? = some (flatBindings bound))
    (hbound : BoundInOrder (scope.nest store.nextFrame) bound (store.addFrame []) store')
    (hbefore : Evaluated (scope.nest store.nextFrame) before store' vs store'')
    (h : (Task.evaluate part (scope.nest store.nextFrame)).Ends store'' result)
    (hstops : Stops result) :
    (Task.evaluate (.list (.symbol "let*" :: bindings :: (before ++ part :: after)) metadata
      identity) scope).Ends store result := by
  have hlet : specialForm? (.symbol "let*") = some .letIn := by decide
  have hnext : (Task.evaluate (SpecialForm.bodyOf (before ++ part :: after))
      (scope.nest store.nextFrame)).Ends store' result := by
    by_cases hsingle : before = [] ∧ after = []
    · obtain ⟨rfl, rfl⟩ := hsingle
      cases hbefore
      exact h
    · have hbody : SpecialForm.bodyOf (before ++ part :: after) =
          .ofList (.symbol "do" :: (before ++ part :: after)) := by
        match before, after with
        | [], [] => exact absurd ⟨rfl, rfl⟩ hsingle
        | [], _ :: _ => rfl
        | [_], _ => rfl
        | _ :: _ :: _, _ => rfl
      rw [hbody]
      exact stops_sequenceForm hbefore h hstops after
  refine Task.StepEnds.next (Task.stepEnds_special hlet ?_ nofun) hnext
  refine ends_letIn hsequential hbindings (length_flatBindings bound) ?_
  exact hbound.all.bind (ends_pure _)

theorem stops_defined {keyword name : String} (hkeyword : keyword = "def!" ∨ keyword = "defmacro!")
    (h : (Task.evaluate part scope).Ends store result) (hstops : Stops result) :
    (Task.evaluate (.list [.symbol keyword, .symbol name, part] metadata identity) scope).Ends store
      result := by
  have hdefinition : ∀ form : SpecialForm, Ends (fun limits =>
      SpecialForm.definition limits.runner form [.symbol name, part] scope) store
      (mapEnd (name, ·) result) := fun _ => h.bind_pure fun _ _ _ _ => rfl
  rcases hkeyword with rfl | rfl
  · have hdef : specialForm? (.symbol "def!") = some .define := by decide
    refine Task.StepEnds.last (Task.stepEnds_special hdef ?_ (hstops.no_fault _))
    refine (hdefinition .define).bind_map fun v store' hv limits => ?_
    subst hv
    exact if_pos hstops
  · have hdef : specialForm? (.symbol "defmacro!") = some .defineExpander := by decide
    refine Task.StepEnds.last (Task.stepEnds_special hdef ?_ (hstops.no_fault _))
    refine (hdefinition .defineExpander).bind_map fun v store' hv limits => ?_
    subst hv
    cases v with
    | error message cause => rfl
    | _ => cases hstops

/-- What stops the evaluation of a part stops that of the form around it. -/
theorem Surrounds.stops {outer inner : Pending} (h : Surrounds outer inner)
    (hinner : inner.Ends result) (hstops : Stops result) : outer.Ends result := by
  cases h with
  | head hordinary => exact stops_head hordinary hinner hstops _
  | argument hordinary hhead hfunction hbefore =>
    exact stops_argument hordinary hhead hfunction hbefore hinner hstops
  | element hbefore =>
    exact Task.StepEnds.last ((hbefore.all_stops hinner hstops _).bind_map fun _ _ _ _ => rfl)
  | @tableValue key part metadata before after vs scope store store' hbefore =>
    have hvalues : Entries.values (before ++ (key, part) :: after) =
        before.values ++ part :: Entries.values after := by
      rw [Entries.values, List.map_append, List.map_cons]
      rfl
    have hall := hbefore.all_stops hinner hstops (Entries.values after)
    rw [← hvalues] at hall
    exact Task.StepEnds.last (hall.bind_map fun _ _ _ _ => rfl)
  | sequenceForm hbefore => exact stops_sequenceForm hbefore hinner hstops _
  | condition => exact stops_condition hinner hstops _ _
  | consequence hcondition hv htrue =>
    exact ends_branch hcondition hv (if_pos htrue) hinner
  | @alternative condition consequence part _ _ _ _ _ _ hcondition hv hfalse =>
    have hselected : (if Value.isTruthy _ then some consequence else some part) = some part :=
      if_neg (Bool.eq_false_iff.mp hfalse)
    exact ends_branch hcondition hv hselected hinner
  | binding hsequential hbindings heven hbefore =>
    exact stops_binding hsequential hbindings heven hbefore hinner hstops _
  | body hsequential hbindings hbound hbefore =>
    exact stops_body hsequential hbindings hbound hbefore hinner hstops
  | defined hkeyword => exact stops_defined hkeyword hinner hstops
  | attempted =>
    have htry : specialForm? (.symbol "try*") = some .attempt := by decide
    exact Task.StepEnds.next (Task.stepEnds_special htry (ends_pure _) nofun) hinner

theorem stops_of_surrounds {outer inner : Pending} (h : Relation.ReflTransGen Surrounds outer inner)
    (hinner : inner.Ends result) (hstops : Stops result) : outer.Ends result := by
  induction h with
  | refl => exact hinner
  | tail _ hstep ih => exact ih (hstep.stops hinner hstops)

/-- Error values and thrown values leave every form around the place where they arise, and leave
the store as it is there. -/
theorem Pending.failure_propagates {outer inner : Pending}
    (h : Relation.ReflTransGen Surrounds outer inner) (store : Store) :
    (∀ message cause, inner.Ends (.ok (.error message cause) store) →
      outer.Ends (.ok (.error message cause) store)) ∧
    ∀ payload, inner.Ends (.error (.thrown payload) store) →
      outer.Ends (.error (.thrown payload) store) :=
  ⟨fun _ _ herror => stops_of_surrounds h herror rfl,
    fun _ hthrown => stops_of_surrounds h hthrown trivial⟩

/-- A value is thrown from an element of a vector whose value would be bound. -/
theorem Pending.failure_propagates_thrown :
    let thrower := Value.native 0 (.plain (.state .throwValue)) 0 .nil
    let store := (Store.initial .empty "" 0).addFrame [("throw", thrower)]
    let part := Value.ofList [.symbol "throw", .bool true]
    let binding := Value.ofList [.symbol "let*",
      .ofList [.symbol "a", .ofVector [.int 2, part]], .symbol "a"]
    let form := Value.ofList [.symbol "do", .int 1, binding]
    let outer : Pending := ⟨form, .global 0, store⟩
    let inner : Pending := ⟨part, (Scope.global 0).nest 1, store.addFrame []⟩
    Relation.ReflTransGen Surrounds outer inner ∧
      inner.Ends (.error (.thrown (.bool true)) (store.addFrame [])) ∧
      outer.Ends (.error (.thrown (.bool true)) (store.addFrame [])) := by
  intro thrower store part binding form outer inner
  have hone : Evaluated (.global 0) [.int 1] store [.int 1] store :=
    .cons (Task.ends_of_run (rfl : runTask 1 1 _ store = _) id) rfl (.nil store)
  have htwo : Evaluated inner.scope [.int 2] inner.store [.int 2] inner.store :=
    .cons (Task.ends_of_run (rfl : runTask 1 1 _ inner.store = _) id) rfl (.nil inner.store)
  have hform : Surrounds outer ⟨binding, .global 0, store⟩ := .sequenceForm hone
  have hbinding : Surrounds ⟨binding, .global 0, store⟩
      ⟨.ofVector [.int 2, part], inner.scope, inner.store⟩ :=
    .binding rfl rfl rfl (.nil inner.store)
  have hvector : Surrounds ⟨.ofVector [.int 2, part], inner.scope, inner.store⟩ inner :=
    .element htwo
  have hchain := ((Relation.ReflTransGen.single hform).tail hbinding).tail hvector
  have hthrown : inner.Ends (.error (.thrown (.bool true)) inner.store) :=
    Task.ends_of_run (rfl : runTask 3 3 _ inner.store = _) id
  exact ⟨hchain, hthrown, (Pending.failure_propagates hchain inner.store).2 _ hthrown⟩

end SmallLisp
