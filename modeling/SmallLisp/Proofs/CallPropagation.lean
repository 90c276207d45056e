import SmallLisp.Proofs.TailPositions

/-! # Failures leave every call around them

An error value or a thrown value that arises while a function runs is what the call of the function
results in or throws. This holds for functions of the program, for those that are called by `apply`,
`map` and `swap!`, and for the expanders of forms, at every depth.
-/
namespace SmallLisp

def Pending.running (p : Pending) : Running := ⟨.evaluate p.form p.scope, p.store⟩

inductive Called (function : Value) : List Value → Store → List Value → Store → Prop where
  | nil (store : Store) : Called function [] store [] store
  | cons {item v : Value} {items vs : List Value} {store store' store'' : Store}
      (hitem : (Task.call function [item]).Ends store (.ok v store')) (hv : v.isError = false)
      (hitems : Called function items store' vs store'') :
      Called function (item :: items) store (v :: vs) store''

/-- The first task comes to the second one, and does not guard it. -/
inductive Enters : Running → Running → Prop where
  | part {outer inner : Pending} (h : Surrounds outer inner) :
      Enters outer.running inner.running
  | next {outer inner : Pending} {parts : List Pending} (h : HandsOn outer parts inner) :
      Enters outer.running inner.running
  | application {head function metadata : Value} {arguments vs : List Value}
      {identity : Option Identity} {scope : Scope} {store store' : Store}
      (hordinary : Ordinary store scope head)
      (hall : Evaluated scope (head :: arguments) store (function :: vs) store')
      (hfunction : function.isFunction = true) :
      Enters ⟨.evaluate (.list (head :: arguments) metadata identity) scope, store⟩
        ⟨.call function vs, store'⟩
  | body {function : Value} {vs : List Value} {store : Store} {inner : Pending}
      (h : GoesOn function vs store inner) : Enters ⟨.call function vs, store⟩ inner.running
  | mapped {function mapping sequence item : Value} {before after vs results : List Value}
      {home : FrameId} {store store' : Store}
      (hcallee : Callee.ofCall function vs = .ok (.builtin (.call .map) home, [mapping, sequence]))
      (hmapping : mapping.isFunction = true)
      (hitems : sequence.elements? = some (before ++ item :: after))
      (hbefore : Called mapping before store results store') :
      Enters ⟨.call function vs, store⟩ ⟨.call mapping [item], store'⟩
  | swapped {function change : Value} {vs rest : List Value} {cell : CellId} {home : FrameId}
      {store : Store}
      (hcallee : Callee.ofCall function vs =
        .ok (.builtin (.call .swap) home, .atom cell :: change :: rest))
      (hchange : change.isFunction = true) :
      Enters ⟨.call function vs, store⟩ ⟨.call change (store.heap.content cell :: rest), store⟩
  | expander {form function : Value} {arguments : List Value} {scope : Scope} {store : Store}
      (hexpansion : expansionOf? store scope form = some (function, arguments))
      (hclash : ¬ Clashes store scope form) :
      Enters ⟨.evaluate form scope, store⟩ ⟨.call function arguments, store⟩
  | expandedForm {form form' function metadata : Value} {arguments : List Value}
      {identity : Option Identity} {scope : Scope} {store store' : Store}
      (hmet : Met scope form store form' store')
      (hexpansion : expansionOf? store' scope form' = some (function, arguments)) :
      Enters ⟨.evaluate (.list [.symbol "macroexpand", form] metadata identity) scope, store⟩
        ⟨.call function arguments, store'⟩

variable {scope : Scope} {store store' : Store} {function : Value} {vs : List Value}
  {task task' : Task} {result : EStateM.Result Failure Store Value}

theorem Task.Ends.exists_step (h : task.Ends store result) : ∃ step, task.StepEnds store step := by
  obtain ⟨hfinal, enough, heq⟩ := h
  have hrun := heq enough.next enough.le_next
  have hstep : ¬ Exhausted (task.step (enough.steps + 1) (runTask (enough.steps + 1) enough.depth)
      store) := by
    intro hexhausted
    rw [← hrun] at hfinal
    exact hfinal (hexhausted.bind _)
  refine ⟨_, hstep, enough.next, fun limits hle => ?_⟩
  have hdepth : enough.depth ≤ limits.depth := Nat.le_of_succ_le hle.2
  exact task.approximates_step (runTask_approximates hle.1 hdepth) hle.1 store hstep

theorem Task.Ends.of_same_steps (h : task.Ends store result)
    (hsame : ∀ step, task.StepEnds store step → task'.StepEnds store' step) :
    task'.Ends store' result := by
  obtain ⟨step, hstep⟩ := h.exists_step
  cases step with
  | ok step final =>
    cases step with
    | done v =>
      have hdone : task.StepEnds store (mapEnd .done (.ok v final)) := hstep
      rw [h.unique hdone.last]
      exact Task.StepEnds.last (hsame _ hdone)
    | tail form inner => exact (hsame _ hstep).next (hstep.next_iff.mp h)
  | error failure final =>
    have herror : task.StepEnds store (mapEnd .done (.error failure final)) := hstep
    rw [h.unique herror.last]
    exact Task.StepEnds.last (hsame _ herror)

theorem Task.ends_iff_of_same_steps
    (hsame : ∀ step, task.StepEnds store step ↔ task'.StepEnds store' step) :
    task.Ends store result ↔ task'.Ends store' result :=
  ⟨fun h => h.of_same_steps fun step => (hsame step).mp,
    fun h => h.of_same_steps fun step => (hsame step).mpr⟩

section Application

variable {head metadata : Value} {arguments : List Value} {identity : Option Identity}

/-- Once its parts have their values, the first step of a call that is written as a form is that
of the call itself. -/
theorem stepEnds_application {step : EStateM.Result Failure Store Step}
    (hordinary : Ordinary store scope head)
    (hall : Evaluated scope (head :: arguments) store (function :: vs) store')
    (hfunction : function.isFunction = true) :
    (Task.evaluate (.list (head :: arguments) metadata identity) scope).StepEnds store step ↔
      (Task.call function vs).StepEnds store' step := by
  have hcall : (Task.evaluate (.list (head :: arguments) metadata identity) scope).StepEnds store
      step ↔ SmallLisp.Ends (fun limits => stepCall limits.runner head arguments scope) store
        step := by
    refine ends_congr fun limits => ?_
    rw [Task.step, stepForm, stepList, hordinary.specialForm_eq]
    dsimp only
    rw [EvalM.get_bind, hordinary.expansionOf_eq]
  cases hall with
  | cons hhead hv harguments =>
    refine (hcall.trans hhead.bind_iff).trans ?_
    simp only [hv, Bool.false_eq_true, if_false]
    refine harguments.all.bind_iff.trans ?_
    simp only [hfunction, if_true]
    exact Iff.rfl

theorem ends_application_iff (hordinary : Ordinary store scope head)
    (hall : Evaluated scope (head :: arguments) store (function :: vs) store')
    (hfunction : function.isFunction = true) :
    (Task.evaluate (.list (head :: arguments) metadata identity) scope).Ends store result ↔
      (Task.call function vs).Ends store' result :=
  Task.ends_iff_of_same_steps fun _ => stepEnds_application hordinary hall hfunction

theorem ends_application (hordinary : Ordinary store scope head)
    (hall : Evaluated scope (head :: arguments) store (function :: vs) store')
    (hfunction : function.isFunction = true) (hcall : (Task.call function vs).Ends store' result) :
    (Task.evaluate (.list (head :: arguments) metadata identity) scope).Ends store result :=
  (ends_application_iff hordinary hall hfunction).mpr hcall

end Application

theorem Task.stepEnds_builtin {op : PlainBuiltin} {home : FrameId} {arguments : List Value}
    {step : EStateM.Result Failure Store Step}
    (hcallee : Callee.ofCall function vs = .ok (.builtin op home, arguments))
    (h : SmallLisp.Ends (fun limits => op.apply limits.runner home arguments) store step)
    (hfault : ∀ fault store', step ≠ .error (.fault fault) store') :
    (Task.call function vs).StepEnds store step := by
  refine (h.settle hfault).congr fun limits => ?_
  simp only [Task.step, applyFunction, hcallee, EvalM.ofFault, pure_bind, Callee.enter]

theorem apply_map_of_error {mapping sequence : Value} {items : List Value} {run : Runner}
    (hmapping : mapping.isFunction = true) (hitems : sequence.elements? = some items)
    (h : mapItems run mapping items store = mapEnd .error result) (home : FrameId) :
    PlainBuiltin.apply run home (.call .map) [mapping, sequence] store = mapEnd .done result := by
  simp only [PlainBuiltin.apply, CallOp.apply, twoArguments, EvalM.ofFault, pure_bind,
    expectFunction, hmapping, if_true, expectElements, hitems]
  simp only [Bind.bind, EStateM.bind, h]
  cases result with
  | ok v store' => rfl
  | error failure store' => rfl

theorem apply_swap {change : Value} (hchange : change.isFunction = true) (cell : CellId)
    (rest : List Value) (run : Runner) (home : FrameId) :
    PlainBuiltin.apply run home (.call .swap) (.atom cell :: change :: rest) =
      CallOp.swapContent run cell change rest >>= fun v => pure (.done v) := by
  simp only [PlainBuiltin.apply, CallOp.apply, EvalM.ofFault, pure_bind, expectAtom,
    expectFunction, hchange, if_true]

theorem Called.stops {item : Value} {before : List Value}
    (h : Called function before store vs store')
    (hitem : (Task.call function [item]).Ends store' result) (hstops : Stops result)
    (after : List Value) :
    Ends (fun limits => mapItems limits.runner function (before ++ item :: after)) store
      (mapEnd .error result) := by
  induction h with
  | nil store => exact hitem.stops hstops.isError
  | cons hcall hv _ ih => exact hcall.continues hv ((ih hitem).bind_map fun _ _ _ _ => rfl)

theorem approximates_expandCall {run run' : Runner} (h : run.Approximates run') (scope : Scope)
    {steps steps' : Nat} (hsteps : steps ≤ steps') (function : Value) (arguments : List Value) :
    Approximates
      (run (.call function arguments) >>= fun expanded =>
        if expanded.isError then pure expanded else expandFully run scope steps expanded)
      (run' (.call function arguments) >>= fun expanded =>
        if expanded.isError then pure expanded else expandFully run' scope steps' expanded) := by
  refine (h _).bind fun expanded => ?_
  split
  · exact approximates_refl _
  · exact approximates_expandFully h hsteps expanded

theorem swapContent_stops {change : Value} {cell : CellId} {rest : List Value}
    (h : (Task.call change (store.heap.content cell :: rest)).Ends store result)
    (herror : ∀ v store', result = .ok v store' → v.isError = true) :
    Ends (fun limits => CallOp.swapContent limits.runner cell change rest) store
      (mapEnd id result) := by
  have hcall : Ends (fun limits =>
      limits.runner (.call change (store.heap.content cell :: rest)) >>= fun v =>
        if v.isError then pure (id v) else modify (·.setCell cell v) >>= fun _ => pure v) store
      (mapEnd id result) := h.stops herror
  refine hcall.congr fun limits => ?_
  rw [CallOp.swapContent, EvalM.get_bind]
  rfl

theorem swapContent_ends {change v : Value} {cell : CellId} {rest : List Value}
    (h : (Task.call change (store.heap.content cell :: rest)).Ends store (.ok v store'))
    (hv : v.isError = false) :
    Ends (fun limits => CallOp.swapContent limits.runner cell change rest) store
      (.ok v (store'.setCell cell v)) := by
  have hcall : Ends (fun limits =>
      limits.runner (.call change (store.heap.content cell :: rest)) >>= fun v =>
        if v.isError then pure v else modify (·.setCell cell v) >>= fun _ => pure v) store
      (.ok v (store'.setCell cell v)) := h.continues hv (ends_of_eq id fun _ => rfl)
  refine hcall.congr fun limits => ?_
  rw [CallOp.swapContent, EvalM.get_bind]

/-- A form that calls an expander is expanded as the form that the call results in. -/
theorem expansionEnds_iff_call {form : Value} {arguments : List Value}
    (hexpansion : expansionOf? store scope form = some (function, arguments)) :
    ExpansionEnds scope form store result ↔
      Ends (fun limits => limits.runner (.call function arguments) >>= fun expanded =>
        if expanded.isError then pure expanded
        else expandFully limits.runner scope limits.steps expanded) store result := by
  have hfirst : ∀ steps run, expandFully run scope (steps + 1) form store =
      (run (.call function arguments) >>= fun expanded =>
        if expanded.isError then pure expanded
        else expandFully run scope steps expanded) store := by
    intro steps run
    rw [expandFully, EvalM.get_bind, hexpansion]
  -- the call takes one of the steps that the expansion may take, so the limits differ by one
  constructor
  · rintro ⟨hfinal, enough, heq⟩
    refine ⟨hfinal, enough.next, ?_⟩
    rintro ⟨_ | steps, depth⟩ hle
    · exact absurd hle.1 (Nat.not_succ_le_zero _)
    · have hwhole := (hfirst steps _).symm.trans
        (heq ⟨steps + 1, depth⟩ (Limits.le_trans enough.le_next hle))
      have hself : Runner.Approximates (runTask (steps + 1) depth) (runTask (steps + 1) depth) :=
        fun task => approximates_refl _
      have hfurther := approximates_expandCall hself scope (Nat.le_succ steps) function arguments
      rw [← hwhole] at hfinal ⊢
      exact hfurther store hfinal
  · rintro ⟨hfinal, enough, heq⟩
    refine ⟨hfinal, enough.next, ?_⟩
    rintro ⟨_ | steps, depth⟩ hle
    · exact absurd hle.1 (Nat.not_succ_le_zero _)
    · have hrest := heq ⟨steps, depth⟩ ⟨Nat.le_of_succ_le_succ hle.1, Nat.le_of_succ_le hle.2⟩
      have hrun : Runner.Approximates (runTask steps depth) (runTask (steps + 1) depth) :=
        runTask_approximates (Nat.le_succ steps) (Nat.le_refl depth)
      have hfurther := approximates_expandCall hrun scope (Nat.le_refl steps) function arguments
      rw [← hrest] at hfinal ⊢
      exact (hfirst steps _).trans (hfurther store hfinal)

theorem Met.expansionEnds_iff {form form' : Value} (hmet : Met scope form store form' store') :
    ExpansionEnds scope form store result ↔ ExpansionEnds scope form' store' result := by
  induction hmet with
  | first => exact Iff.rfl
  | next _ hexpansion hcall hvalue ih =>
    refine (ih.trans (expansionEnds_iff_call hexpansion)).trans (hcall.bind_iff.trans ?_)
    simp only [hvalue, Bool.false_eq_true, if_false]
    exact Iff.rfl

theorem Enters.stops {outer inner : Running} (h : Enters outer inner)
    (hinner : inner.Ends result) (hstops : Stops result) : outer.Ends result := by
  cases h with
  | part h => exact h.stops hinner hstops
  | next h => exact h.stepNeeds.stepEnds.next hinner
  | application hordinary hall hfunction =>
    exact ends_application hordinary hall hfunction hinner
  | body h =>
    have hstep : (Task.call _ _).StepEnds _ _ := ends_of_eq id fun limits =>
      h.applyFunction_eq limits.runner
    exact hstep.next hinner
  | mapped hcallee hmapping hitems hbefore =>
    refine Task.StepEnds.last (Task.stepEnds_builtin hcallee ?_ (hstops.no_fault _))
    obtain ⟨_, enough, heq⟩ := hbefore.stops hinner hstops _
    refine ⟨mt exhausted_mapEnd.mp hinner.1, enough, fun limits hle => ?_⟩
    exact apply_map_of_error hmapping hitems (heq limits hle) _
  | swapped hcallee hchange =>
    refine Task.StepEnds.last (Task.stepEnds_builtin hcallee ?_ (hstops.no_fault _))
    simp only [apply_swap hchange]
    exact (swapContent_stops hinner hstops.isError).bind_map fun _ _ _ _ => rfl
  | expander hexpansion hclash =>
    exact evaluate_of_stopped hexpansion hclash hinner hstops.isError
  | expandedForm hmet hexpansion =>
    have hexpand : specialForm? (.symbol "macroexpand") = some .expand := by decide
    have hcall : ExpansionEnds _ _ _ (mapEnd id result) :=
      hmet.expansionEnds_iff.mpr
        ((expansionEnds_iff_call hexpansion).mpr (hinner.stops hstops.isError))
    refine Task.StepEnds.last (Task.stepEnds_special hexpand ?_ (hstops.no_fault _))
    exact hcall.bind_map fun _ _ _ _ => rfl

theorem stops_of_enters {outer inner : Running} (h : Relation.ReflTransGen Enters outer inner)
    (hinner : inner.Ends result) (hstops : Stops result) : outer.Ends result := by
  induction h with
  | refl => exact hinner
  | tail _ hstep ih => exact ih (hstep.stops hinner hstops)

end SmallLisp
