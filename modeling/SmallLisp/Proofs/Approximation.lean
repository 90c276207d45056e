import SmallLisp.Evaluation.Evaluator

/-! # Limits only decide whether an evaluation comes to its end

An evaluation that ends within some limits, for any reason but that they are used up, has the same
end within larger ones. This is proved operation by operation: whatever calls the evaluator has
the same end when the evaluator is replaced by one that goes further.
-/
namespace SmallLisp

variable {α β : Type}

def Failure.IsExhaustion : Failure → Prop
  | .abort .exhausted => True
  | _ => False

/-- An end that only says that the limits are used up. -/
def Exhausted : EStateM.Result Failure Store α → Prop
  | .ok _ _ => False
  | .error failure _ => failure.IsExhaustion

theorem exhausted_iff {r : EStateM.Result Failure Store α} :
    Exhausted r ↔ ∃ store, r = .error (.abort .exhausted) store := by
  constructor
  · intro h
    cases r with
    | ok a store => exact h.elim
    | error failure store =>
      cases failure with
      | abort reason =>
        cases reason with
        | exhausted => exact ⟨store, rfl⟩
        | _ => exact h.elim
      | _ => exact h.elim
  · rintro ⟨store, rfl⟩
    trivial

/-- The first evaluation is exhausted wherever it does not end as the second one. -/
def Approximates (x y : EvalM α) : Prop :=
  ∀ store, ¬ Exhausted (x store) → y store = x store

theorem approximates_refl (x : EvalM α) : Approximates x x := fun _ _ => rfl

theorem approximates_of_exhausted (y : EvalM α) :
    Approximates (EvalM.abort .exhausted) y := by
  intro store hfinal
  exact absurd trivial hfinal

theorem Exhausted.bind {x : EvalM α} {store : Store} (h : Exhausted (x store))
    (f : α → EvalM β) : Exhausted ((x >>= f) store) := by
  simp only [Bind.bind, EStateM.bind]
  cases hr : x store with
  | ok a store' =>
    rw [hr] at h
    exact h.elim
  | error failure store' =>
    rw [hr] at h
    exact h

theorem Approximates.bind {x y : EvalM α} {f g : α → EvalM β} (hx : Approximates x y)
    (hf : ∀ a, Approximates (f a) (g a)) : Approximates (x >>= f) (y >>= g) := by
  intro store hfinal
  cases hr : x store with
  | ok a store' =>
    have hy : y store = .ok a store' := (hx store (by rw [hr]; exact id)).trans hr
    simp only [Bind.bind, EStateM.bind, hr, hy] at hfinal ⊢
    exact hf a store' hfinal
  | error failure store' =>
    simp only [Bind.bind, EStateM.bind, hr] at hfinal ⊢
    have hy : y store = .error failure store' := (hx store (by rw [hr]; exact hfinal)).trans hr
    rw [hy]

theorem Approximates.bind_right (x : EvalM α) {f g : α → EvalM β}
    (hf : ∀ a, Approximates (f a) (g a)) : Approximates (x >>= f) (x >>= g) :=
  (approximates_refl x).bind hf

theorem Approximates.bind_left {x y : EvalM α} (hx : Approximates x y) (f : α → EvalM β) :
    Approximates (x >>= f) (y >>= f) :=
  hx.bind fun a => approximates_refl (f a)

theorem Exhausted.settle {x : EvalM Step} {store : Store} (h : Exhausted (x store)) :
    Exhausted (EvalM.settle x store) := by
  unfold EvalM.settle
  split
  · next hr =>
    rw [hr] at h
    exact h.elim
  · exact h

theorem Exhausted.catchThrown {x : EvalM Value} {store : Store} (h : Exhausted (x store)) :
    Exhausted (EvalM.catchThrown x store) := by
  unfold EvalM.catchThrown
  split
  · next hr =>
    rw [hr] at h
    exact h.elim
  · next hr =>
    rw [hr] at h
    exact h.elim
  · next hr =>
    rw [hr] at h
    exact h

theorem Approximates.settle {x y : EvalM Step} (h : Approximates x y) :
    Approximates (EvalM.settle x) (EvalM.settle y) := by
  intro store hfinal
  have hx := mt Exhausted.settle hfinal
  unfold EvalM.settle
  rw [h store hx]

theorem Approximates.catchThrown {x y : EvalM Value} (h : Approximates x y) :
    Approximates (EvalM.catchThrown x) (EvalM.catchThrown y) := by
  intro store hfinal
  have hx := mt Exhausted.catchThrown hfinal
  unfold EvalM.catchThrown
  rw [h store hx]

def Runner.Approximates (run run' : Runner) : Prop :=
  ∀ task, SmallLisp.Approximates (run task) (run' task)

variable {run run' : Runner} {scope : Scope}

theorem approximates_mapItems (h : run.Approximates run') (function : Value)
    (items : List Value) :
    Approximates (mapItems run function items) (mapItems run' function items) := by
  induction items with
  | nil => exact approximates_refl _
  | cons item items ih =>
    refine (h _).bind fun v => ?_
    split
    · exact approximates_refl _
    · exact ih.bind_left _

theorem approximates_evaluateAll (h : run.Approximates run') (forms : List Value) :
    Approximates (evaluateAll run scope forms) (evaluateAll run' scope forms) := by
  induction forms with
  | nil => exact approximates_refl _
  | cons form forms ih =>
    refine (h _).bind fun v => ?_
    split
    · exact approximates_refl _
    · exact ih.bind_left _

theorem approximates_expandFully (h : run.Approximates run') {steps steps' : Nat}
    (hsteps : steps ≤ steps') (form : Value) :
    Approximates (expandFully run scope steps form) (expandFully run' scope steps' form) := by
  induction steps generalizing steps' form with
  | zero => exact approximates_of_exhausted _
  | succ steps ih =>
    obtain ⟨steps', rfl⟩ := Nat.exists_eq_add_one_of_ne_zero (Nat.ne_zero_of_lt hsteps)
    refine .bind_right _ fun store => ?_
    split
    · exact approximates_refl _
    · refine (h _).bind fun expanded => ?_
      split
      · exact approximates_refl _
      · exact ih (Nat.le_of_succ_le_succ hsteps) expanded

theorem CallOp.approximates_apply (h : run.Approximates run') (home : FrameId) (op : CallOp)
    (arguments : List Value) :
    Approximates (op.apply run home arguments) (op.apply run' home arguments) := by
  cases op with
  | map =>
    refine .bind_right _ fun r => .bind_right _ fun _ => .bind_right _ fun items => ?_
    exact (approximates_mapItems h r.1 items).bind_left _
  | swap =>
    match arguments with
    | [] => exact approximates_refl _
    | [_] => exact approximates_refl _
    | v :: function :: rest =>
      refine .bind_right _ fun cell => .bind_right _ fun _ => .bind_left ?_ _
      exact .bind_right _ fun store => (h _).bind_left _
  | eval => exact approximates_refl _

theorem PlainBuiltin.approximates_apply (h : run.Approximates run') (home : FrameId)
    (op : PlainBuiltin) (arguments : List Value) :
    Approximates (op.apply run home arguments) (op.apply run' home arguments) := by
  cases op with
  | call op => exact op.approximates_apply h home arguments
  | _ => exact approximates_refl _

theorem Callee.approximates_enter (h : run.Approximates run') (callee : Callee)
    (arguments : List Value) :
    Approximates (callee.enter run arguments) (callee.enter run' arguments) := by
  cases callee with
  | builtin op home => exact op.approximates_apply h home arguments
  | body parameters form scope => exact approximates_refl _

theorem approximates_applyFunction (h : run.Approximates run') (function : Value)
    (arguments : List Value) :
    Approximates (applyFunction run function arguments)
      (applyFunction run' function arguments) :=
  .settle (.bind_right _ fun r => r.1.approximates_enter h r.2)

namespace SpecialForm

theorem approximates_definition (h : run.Approximates run') (form : SpecialForm)
    (parts : List Value) :
    Approximates (definition run form parts scope) (definition run' form parts scope) := by
  unfold definition
  split
  · exact (h _).bind_left _
  · exact approximates_refl _
  · exact approximates_refl _

theorem approximates_bindInOrder (h : run.Approximates run') (bindings : List Value) :
    Approximates (bindInOrder run scope bindings) (bindInOrder run' scope bindings) := by
  induction bindings using bindInOrder.induct with
  | case1 expression rest bound ih =>
    rw [bindInOrder, bindInOrder]
    refine (h _).bind fun v => ?_
    split
    · exact approximates_refl _
    · exact .bind_right _ fun _ => ih
  | case2 name expression rest hname =>
    rw [bindInOrder, bindInOrder]
    · exact approximates_refl _
    · exact hname
    · exact hname
  | case3 bindings hne =>
    rw [bindInOrder, bindInOrder]
    · exact approximates_refl _
    · exact hne
    · exact hne

theorem approximates_evaluateSequence (h : run.Approximates run') (forms : List Value) :
    Approximates (evaluateSequence run scope forms) (evaluateSequence run' scope forms) := by
  induction forms using evaluateSequence.induct with
  | case1 => exact approximates_refl _
  | case2 form => exact approximates_refl _
  | case3 form forms hne ih =>
    rw [evaluateSequence, evaluateSequence]
    · refine (h _).bind fun v => ?_
      split
      · exact approximates_refl _
      · exact ih
    · exact hne
    · exact hne

theorem approximates_evaluate (h : run.Approximates run') {steps steps' : Nat}
    (hsteps : steps ≤ steps') (form : SpecialForm) (parts : List Value) :
    Approximates (form.evaluate steps run parts scope)
      (form.evaluate steps' run' parts scope) := by
  cases form with
  | define => exact (approximates_definition h define parts).bind_left _
  | defineExpander => exact (approximates_definition h defineExpander parts).bind_left _
  | letIn =>
    unfold evaluate
    dsimp only
    split
    · exact approximates_refl _
    · split
      · exact .bind_right _ fun inner => (approximates_bindInOrder h _).bind_left _
      · exact approximates_refl _
    · split
      · exact .bind_right _ fun inner => (approximates_bindInOrder h _).bind_left _
      · exact approximates_refl _
    · exact approximates_refl _
  | sequence => exact approximates_evaluateSequence h parts
  | branch =>
    unfold evaluate
    dsimp only
    split
    · exact (h _).bind_left _
    · exact (h _).bind_left _
    · exact approximates_refl _
  | function => exact approximates_refl _
  | quote => exact approximates_refl _
  | quasiquote => exact approximates_refl _
  | quasiquoteExpand => exact approximates_refl _
  | expand =>
    exact .bind_right _ fun call => (approximates_expandFully h hsteps call).bind_left _
  | attempt =>
    unfold evaluate
    dsimp only
    split
    · exact approximates_refl _
    · exact .bind_right _ fun r => (h _).catchThrown.bind_left _
    · exact approximates_refl _

end SpecialForm

theorem approximates_stepCall (h : run.Approximates run') (head : Value)
    (arguments : List Value) :
    Approximates (stepCall run head arguments scope) (stepCall run' head arguments scope) := by
  refine (h _).bind fun function => ?_
  split
  · exact approximates_refl _
  · refine (approximates_evaluateAll h arguments).bind fun r => ?_
    cases r with
    | error e => exact approximates_refl _
    | ok vs =>
      dsimp only
      split
      · exact approximates_applyFunction h function vs
      · exact approximates_refl _

theorem approximates_stepList (h : run.Approximates run') {steps steps' : Nat}
    (hsteps : steps ≤ steps') (form head : Value) (tail : List Value) :
    Approximates (stepList steps run form head tail scope)
      (stepList steps' run' form head tail scope) := by
  unfold stepList
  split
  · next special _ => exact (special.approximates_evaluate h hsteps tail).settle
  · refine .bind_right _ fun store => ?_
    split
    · exact (h _).bind_left _
    · exact approximates_stepCall h head tail

theorem approximates_stepForm (h : run.Approximates run') {steps steps' : Nat}
    (hsteps : steps ≤ steps') (form : Value) :
    Approximates (stepForm steps run form scope) (stepForm steps' run' form scope) := by
  unfold stepForm
  split
  · exact approximates_refl _
  · exact approximates_stepList h hsteps _ _ _
  · exact (approximates_evaluateAll h _).bind_left _
  · exact (approximates_evaluateAll h _).bind_left _
  · exact approximates_refl _

theorem Task.approximates_step (h : run.Approximates run') {steps steps' : Nat}
    (hsteps : steps ≤ steps') (task : Task) :
    Approximates (task.step steps run) (task.step steps' run') := by
  cases task with
  | evaluate form scope => exact approximates_stepForm h hsteps form
  | call function arguments => exact approximates_applyFunction h function arguments

theorem approximates_takeSteps {step step' : Task → EvalM Step}
    (h : ∀ task, Approximates (step task) (step' task)) {steps steps' : Nat}
    (hsteps : steps ≤ steps') (task : Task) :
    Approximates (takeSteps step steps task) (takeSteps step' steps' task) := by
  induction steps generalizing steps' task with
  | zero => exact approximates_of_exhausted _
  | succ steps ih =>
    obtain ⟨steps', rfl⟩ := Nat.exists_eq_add_one_of_ne_zero (Nat.ne_zero_of_lt hsteps)
    refine (h task).bind fun s => ?_
    cases s with
    | done v => exact approximates_refl _
    | tail form scope => exact ih (Nat.le_of_succ_le_succ hsteps) _

theorem runTask_approximates {steps steps' depth depth' : Nat} (hsteps : steps ≤ steps')
    (hdepth : depth ≤ depth') :
    (runTask steps depth).Approximates (runTask steps' depth') := by
  induction depth generalizing depth' with
  | zero => exact fun _ => approximates_of_exhausted _
  | succ depth ih =>
    obtain ⟨depth', rfl⟩ := Nat.exists_eq_add_one_of_ne_zero (Nat.ne_zero_of_lt hdepth)
    intro task
    have hinner := ih (Nat.le_of_succ_le_succ hdepth)
    exact approximates_takeSteps (fun task => task.approximates_step hinner hsteps) hsteps task

end SmallLisp
