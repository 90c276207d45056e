import Mathlib.Order.Lattice.Nat
import SmallLisp.Proofs.EvaluationRules
import SmallLisp.Proofs.FailurePropagation

/-! # How deeply evaluations are nested

An evaluation is open from its first step until it has a value. The evaluator is run once more with
a bound on the number of evaluations that are open at once, and the depth of an evaluation is the
least bound that is enough for it. What a step needs on the way is nested one deeper than the
evaluation that takes the step, and what a step hands on is not.
-/
namespace SmallLisp

/-- How many evaluations may be open inside of a task, if so many may be open with it. A call is no
evaluation of its own. -/
def Task.inside : Task → Nat → Option Nat
  | .call _ _, nesting => some nesting
  | .evaluate _ _, 0 => none
  | .evaluate _ _, nesting + 1 => some nesting

def Task.stepWithin (steps : Nat) (run : Nat → Runner) (nesting : Nat) (task : Task) :
    EvalM Step :=
  match task.inside nesting with
  | none => EvalM.abort .exhausted
  | some inner => task.step steps (run inner)

/-- Carries out a task as `runTask` does, but with at most `nesting` evaluations open at once. -/
def runNested (steps : Nat) : Nat → Nat → Runner
  | 0, _, _ => EvalM.abort .exhausted
  | levels + 1, nesting, task =>
    takeSteps (Task.stepWithin steps (runNested steps levels) nesting) steps task

def Limits.runnerWithin (limits : Limits) (nesting : Nat) : Runner :=
  runNested limits.steps limits.depth nesting

def Task.EndsWithin (nesting : Nat) (task : Task) (store : Store) : Prop :=
  ∃ limits : Limits, ¬ Exhausted (limits.runnerWithin nesting task store)

def Pending.EndsWithin (nesting : Nat) (p : Pending) : Prop :=
  (Task.evaluate p.form p.scope).EndsWithin nesting p.store

noncomputable def Pending.depth (p : Pending) : Nat := sInf {nesting | p.EndsWithin nesting}

variable {α β : Type} {task : Task} {store store' : Store}
  {nesting nesting' inner steps steps' levels levels' : Nat} {p next : Pending}
  {final : EStateM.Result Failure Store Value}

theorem Task.inside_mono (hle : nesting ≤ nesting') (h : task.inside nesting = some inner) :
    ∃ inner', task.inside nesting' = some inner' ∧ inner ≤ inner' := by
  cases task with
  | call function arguments =>
    cases h
    exact ⟨nesting', rfl, hle⟩
  | evaluate form scope =>
    cases nesting with
    | zero => cases h
    | succ nesting =>
      cases h
      obtain ⟨nesting', rfl⟩ := Nat.exists_eq_add_one_of_ne_zero (Nat.ne_zero_of_lt hle)
      exact ⟨nesting', rfl, by omega⟩

theorem Task.exists_inside (h : levels + 1 ≤ nesting) (task : Task) :
    ∃ inner, task.inside nesting = some inner ∧ levels ≤ inner := by
  cases task with
  | call function arguments => exact ⟨nesting, rfl, by omega⟩
  | evaluate form scope =>
    obtain ⟨nesting, rfl⟩ := Nat.exists_eq_add_one_of_ne_zero (Nat.ne_zero_of_lt h)
    exact ⟨nesting, rfl, by omega⟩

theorem Task.stepWithin_eq (h : task.inside nesting = some inner) (steps : Nat)
    (run : Nat → Runner) : task.stepWithin steps run nesting = task.step steps (run inner) := by
  rw [Task.stepWithin, h]

theorem Task.stepWithin_approximates {run run' : Nat → Runner}
    (hrun : ∀ inner inner', inner ≤ inner' → (run inner).Approximates (run' inner'))
    (hnesting : nesting ≤ nesting') (hsteps : steps ≤ steps') (task : Task) :
    Approximates (task.stepWithin steps run nesting) (task.stepWithin steps' run' nesting') := by
  cases h : task.inside nesting with
  | none =>
    rw [Task.stepWithin, h]
    exact approximates_of_exhausted _
  | some inner =>
    obtain ⟨inner', h', hle⟩ := Task.inside_mono hnesting h
    rw [Task.stepWithin_eq h, Task.stepWithin_eq h']
    exact task.approximates_step (hrun inner inner' hle) hsteps

theorem runNested_approximates (hsteps : steps ≤ steps') (hlevels : levels ≤ levels')
    (hnesting : nesting ≤ nesting') :
    (runNested steps levels nesting).Approximates (runNested steps' levels' nesting') := by
  induction levels generalizing levels' nesting nesting' with
  | zero => exact fun _ => approximates_of_exhausted _
  | succ levels ih =>
    obtain ⟨levels', rfl⟩ := Nat.exists_eq_add_one_of_ne_zero (Nat.ne_zero_of_lt hlevels)
    have hrun : ∀ inner inner', inner ≤ inner' →
        (runNested steps levels inner).Approximates (runNested steps' levels' inner') :=
      fun inner inner' hle => ih (Nat.le_of_succ_le_succ hlevels) hle
    exact approximates_takeSteps (Task.stepWithin_approximates hrun hnesting hsteps) hsteps

/-- A bound on the nesting ends no evaluation in another way. -/
theorem runNested_approximates_runTask (steps levels nesting : Nat) :
    (runNested steps levels nesting).Approximates (runTask steps levels) := by
  induction levels generalizing nesting with
  | zero => exact fun _ => approximates_of_exhausted _
  | succ levels ih =>
    refine approximates_takeSteps (fun task => ?_) (Nat.le_refl steps)
    cases h : task.inside nesting with
    | none =>
      rw [Task.stepWithin, h]
      exact approximates_of_exhausted _
    | some inner =>
      rw [Task.stepWithin_eq h]
      exact task.approximates_step (ih inner) (Nat.le_refl steps)

/-- On so many levels no more evaluations can be open. -/
theorem runNested_eq_runTask (h : levels ≤ nesting) (steps : Nat) :
    runNested steps levels nesting = runTask steps levels := by
  induction levels generalizing nesting with
  | zero => rfl
  | succ levels ih =>
    have hstep : Task.stepWithin steps (runNested steps levels) nesting =
        Task.step steps (runTask steps levels) := by
      funext task
      obtain ⟨inner, hinside, hle⟩ := Task.exists_inside h task
      rw [Task.stepWithin_eq hinside, ih hle]
    funext task
    rw [runNested, hstep, runTask]

theorem Task.EndsWithin.mono (h : task.EndsWithin nesting store) (hle : nesting ≤ nesting') :
    task.EndsWithin nesting' store := by
  obtain ⟨limits, hfinal⟩ := h
  refine ⟨limits, ?_⟩
  rw [Limits.runnerWithin, runNested_approximates (Nat.le_refl _) (Nat.le_refl _) hle task store
    hfinal]
  exact hfinal

theorem Task.Ends.exists_within (h : task.Ends store final) :
    ∃ nesting, task.EndsWithin nesting store := by
  obtain ⟨hfinal, enough, heq⟩ := h
  refine ⟨enough.depth, enough, ?_⟩
  rw [Limits.runnerWithin, runNested_eq_runTask (Nat.le_refl _)]
  rw [← heq enough ⟨Nat.le_refl _, Nat.le_refl _⟩] at hfinal
  exact hfinal

theorem Task.Ends.eq_within (h : task.Ends store final) {limits : Limits}
    (hfinal : ¬ Exhausted (limits.runnerWithin nesting task store)) :
    limits.runnerWithin nesting task store = final := by
  have hplain := runNested_approximates_runTask _ _ _ task store hfinal
  rw [Limits.runnerWithin] at hfinal ⊢
  rw [← hplain] at hfinal ⊢
  exact (Task.ends_of_run rfl hfinal).unique h

theorem Pending.EndsWithin.mono (h : p.EndsWithin nesting) (hle : nesting ≤ nesting') :
    p.EndsWithin nesting' :=
  Task.EndsWithin.mono h hle

theorem Pending.not_endsWithin_zero (p : Pending) : ¬ p.EndsWithin 0 := by
  rintro ⟨⟨steps, levels⟩, hfinal⟩
  cases levels with
  | zero => exact hfinal trivial
  | succ levels =>
    cases steps with
    | zero => exact hfinal trivial
    | succ steps => exact hfinal trivial

theorem Pending.depth_le_iff (h : p.Ends final) : p.depth ≤ nesting ↔ p.EndsWithin nesting := by
  have hdepth : p.EndsWithin p.depth := Nat.sInf_mem (Task.Ends.exists_within h)
  exact ⟨hdepth.mono, fun hwithin => Nat.sInf_le hwithin⟩

theorem exists_bound {parts : List Pending} (h : ∀ q ∈ parts, ∃ final, q.Ends final) :
    ∃ nesting, ∀ q ∈ parts, q.EndsWithin nesting := by
  induction parts with
  | nil => exact ⟨0, nofun⟩
  | cons q parts ih =>
    obtain ⟨⟨final, hq⟩, hparts⟩ := List.forall_mem_cons.mp h
    obtain ⟨nesting, hq⟩ := Task.Ends.exists_within hq
    obtain ⟨nesting', hparts⟩ := ih hparts
    refine ⟨max nesting nesting', List.forall_mem_cons.mpr ⟨?_, fun r hr => ?_⟩⟩
    · exact hq.mono (by omega)
    · exact (hparts r hr).mono (by omega)

/-- The evaluation has this end, and carries out these evaluations of forms on the way, so that
the bounds within which it comes to the end are those that are enough for each of them. -/
structure Needs (x : Nat → Limits → EvalM α) (store : Store) (parts : List Pending)
    (result : EStateM.Result Failure Store α) : Prop where
  finite : ∀ q ∈ parts, ∃ final, q.Ends final
  enough : ∀ nesting, (∀ q ∈ parts, q.EndsWithin nesting) → Ends (x nesting) store result
  only : ∀ nesting limits, ¬ Exhausted (x nesting limits store) →
    x nesting limits store = result ∧ ∀ q ∈ parts, q.EndsWithin nesting

def Task.StepNeeds (task : Task) (store : Store) (parts : List Pending)
    (step : EStateM.Result Failure Store Step) : Prop :=
  Needs (fun nesting limits => task.step limits.steps (limits.runnerWithin nesting)) store parts
    step

section Rules

variable {x y : Nat → Limits → EvalM α} {f : Nat → Limits → α → EvalM β} {a : α}
  {parts parts' : List Pending} {result : EStateM.Result Failure Store α}
  {result' : EStateM.Result Failure Store β}

theorem needs_of_eq (hfinal : ¬ Exhausted result)
    (h : ∀ nesting limits, x nesting limits store = result) : Needs x store [] result :=
  ⟨nofun, fun nesting _ => ends_of_eq hfinal (h nesting),
    fun nesting limits _ => ⟨h nesting limits, nofun⟩⟩

theorem needs_pure (a : α) : Needs (fun _ _ => pure a) store [] (.ok a store) :=
  needs_of_eq id fun _ _ => rfl

theorem Needs.congr (h : Needs y store parts result)
    (hxy : ∀ nesting limits, x nesting limits store = y nesting limits store) :
    Needs x store parts result := by
  refine ⟨h.finite, fun nesting hparts => ?_, fun nesting limits hfinal => ?_⟩
  · exact (h.enough nesting hparts).congr (hxy nesting)
  · rw [hxy] at hfinal ⊢
    exact h.only nesting limits hfinal

theorem Needs.bind (hx : Needs x store parts (.ok a store'))
    (hf : Needs (fun nesting limits => f nesting limits a) store' parts' result') :
    Needs (fun nesting limits => x nesting limits >>= f nesting limits) store (parts ++ parts')
      result' := by
  refine ⟨?_, fun nesting hparts => ?_, fun nesting limits hfinal => ?_⟩
  · exact List.forall_mem_append.mpr ⟨hx.finite, hf.finite⟩
  · obtain ⟨hfirst, hsecond⟩ := List.forall_mem_append.mp hparts
    exact (hx.enough nesting hfirst).bind (hf.enough nesting hsecond)
  · have hfirst : ¬ Exhausted (x nesting limits store) := fun h => hfinal (h.bind _)
    obtain ⟨hvalue, hparts⟩ := hx.only nesting limits hfirst
    simp only [Bind.bind, EStateM.bind, hvalue] at hfinal ⊢
    obtain ⟨hrest, hparts'⟩ := hf.only nesting limits hfinal
    exact ⟨hrest, List.forall_mem_append.mpr ⟨hparts, hparts'⟩⟩

theorem Needs.bind_last (hx : Needs x store parts (.ok a store')) (hfinal : ¬ Exhausted result')
    (hf : ∀ nesting limits, f nesting limits a store' = result') :
    Needs (fun nesting limits => x nesting limits >>= f nesting limits) store parts result' := by
  rw [← List.append_nil parts]
  exact hx.bind (needs_of_eq hfinal hf)

theorem Needs.continues {x : Nat → Limits → EvalM Value} {f : Nat → Limits → Value → EvalM β}
    {g : Value → β} {v : Value} (hx : Needs x store parts (.ok v store')) (hv : v.isError = false)
    (hf : Needs (fun nesting limits => f nesting limits v) store' parts' result') :
    Needs (fun nesting limits => x nesting limits >>= fun v =>
      if v.isError then pure (g v) else f nesting limits v) store (parts ++ parts') result' := by
  refine hx.bind ?_
  simp only [hv, Bool.false_eq_true, if_false]
  exact hf

theorem Needs.settle {x : Nat → Limits → EvalM Step} {step : EStateM.Result Failure Store Step}
    (h : Needs x store parts step)
    (hfault : ∀ fault store', step ≠ .error (.fault fault) store') :
    Needs (fun nesting limits => EvalM.settle (x nesting limits)) store parts step := by
  refine ⟨h.finite, fun nesting hparts => (h.enough nesting hparts).settle hfault,
    fun nesting limits hfinal => ?_⟩
  obtain ⟨hstep, hparts⟩ := h.only nesting limits (mt Exhausted.settle hfinal)
  rw [← hstep] at hfault
  exact ⟨(EvalM.settle_of_ne_fault hfault).trans hstep, hparts⟩

theorem Needs.catchThrown {x : Nat → Limits → EvalM Value} (h : Needs x store parts final) :
    Needs (fun nesting limits => EvalM.catchThrown (x nesting limits)) store parts
      (EvalM.catchThrown (fun _ => final) store) := by
  have hcatch : ∀ nesting limits, x nesting limits store = final →
      EvalM.catchThrown (x nesting limits) store = EvalM.catchThrown (fun _ => final) store := by
    intro nesting limits heq
    simp only [EvalM.catchThrown, heq]
  refine ⟨h.finite, fun nesting hparts => ?_, fun nesting limits hfinal => ?_⟩
  · obtain ⟨hfinal, enough, heq⟩ := h.enough nesting hparts
    refine ⟨?_, enough, fun limits hle => hcatch nesting limits (heq limits hle)⟩
    cases final with
    | ok v store' => exact id
    | error failure store' =>
      cases failure with
      | thrown payload => exact id
      | fault fault => exact hfinal
      | abort reason => exact hfinal
  · obtain ⟨heq, hparts⟩ := h.only nesting limits (mt Exhausted.catchThrown hfinal)
    exact ⟨hcatch nesting limits heq, hparts⟩

end Rules

/-- The depth of an evaluation that evaluates these parts inside itself and goes on as another one
of this depth. -/
noncomputable def nestedDepth (parts : List Pending) (depth : Nat) : Nat :=
  (parts.map fun q => 1 + q.depth).foldr max depth

theorem nestedDepth_le_iff {parts : List Pending} {depth bound : Nat} :
    nestedDepth parts depth ≤ bound ↔ depth ≤ bound ∧ ∀ q ∈ parts, 1 + q.depth ≤ bound := by
  induction parts with
  | nil => simp [nestedDepth]
  | cons q parts ih =>
    have hcons : nestedDepth (q :: parts) depth = max (1 + q.depth) (nestedDepth parts depth) := rfl
    rw [hcons, max_le_iff, ih, List.forall_mem_cons]
    exact and_left_comm

section Steps

variable {parts : List Pending} {step : EStateM.Result Failure Store Step}

theorem Task.StepNeeds.stepEnds (h : task.StepNeeds store parts step) :
    task.StepEnds store step := by
  obtain ⟨nesting, hparts⟩ := exists_bound h.finite
  obtain ⟨hfinal, enough, heq⟩ := h.enough nesting hparts
  refine ⟨hfinal, enough, fun limits hle => ?_⟩
  have hplain : Approximates (task.step limits.steps (limits.runnerWithin nesting))
      (task.step limits.steps limits.runner) :=
    task.approximates_step (runNested_approximates_runTask _ _ nesting) (Nat.le_refl _)
  have hstep := heq limits hle
  rw [← hstep] at hfinal ⊢
  exact hplain store hfinal

theorem Task.not_exhausted_step (hinside : task.inside nesting = some inner)
    (h : ¬ Exhausted (runNested (steps + 1) (levels + 1) nesting task store)) :
    ¬ Exhausted (task.step (steps + 1) (runNested (steps + 1) levels inner) store) := by
  rw [← Task.stepWithin_eq hinside]
  exact fun hexhausted => h (hexhausted.bind _)

theorem Task.EndsWithin.exists_succ (h : task.EndsWithin nesting store) :
    ∃ steps levels, ¬ Exhausted (runNested (steps + 1) (levels + 1) nesting task store) := by
  obtain ⟨⟨steps, levels⟩, hfinal⟩ := h
  cases levels with
  | zero => exact absurd trivial hfinal
  | succ levels =>
    cases steps with
    | zero => exact absurd trivial hfinal
    | succ steps => exact ⟨steps, levels, hfinal⟩

theorem Task.StepNeeds.endsWithin_tail
    (h : task.StepNeeds store parts (.ok (.tail next.form next.scope) next.store))
    (hinside : task.inside nesting = some inner) :
    task.EndsWithin nesting store ↔
      (∀ q ∈ parts, q.EndsWithin inner) ∧ next.EndsWithin nesting := by
  constructor
  · intro hends
    obtain ⟨steps, levels, hfinal⟩ := hends.exists_succ
    have hstep := Task.not_exhausted_step hinside hfinal
    obtain ⟨heq, hparts⟩ := h.only inner ⟨steps + 1, levels⟩ hstep
    refine ⟨hparts, ⟨steps + 1, levels + 1⟩, ?_⟩
    rw [runNested, takeSteps_succ, Task.stepWithin_eq hinside] at hfinal
    simp only [Limits.runnerWithin] at heq
    rw [heq] at hfinal
    -- one step more does not matter
    have hmore := approximates_takeSteps (fun task => approximates_refl
      (task.stepWithin (steps + 1) (runNested (steps + 1) levels) nesting))
      (Nat.le_succ steps) (.evaluate next.form next.scope) next.store hfinal
    rw [Limits.runnerWithin, runNested, hmore]
    exact hfinal
  · rintro ⟨hparts, limits, hnext⟩
    obtain ⟨_, enough, heq⟩ := h.enough inner hparts
    obtain ⟨steps, hsteps, hsteps'⟩ : ∃ steps, enough.steps ≤ steps ∧ limits.steps ≤ steps :=
      ⟨_, Nat.le_max_left _ _, Nat.le_max_right _ _⟩
    obtain ⟨levels, hlevels, hlevels'⟩ : ∃ levels, enough.depth ≤ levels ∧ limits.depth ≤ levels :=
      ⟨_, Nat.le_max_left _ _, Nat.le_max_right _ _⟩
    have hstep : task.step (steps + 1) (runNested (steps + 1) levels inner) store =
        .ok (.tail next.form next.scope) next.store :=
      heq ⟨steps + 1, levels⟩ ⟨by exact Nat.le_succ_of_le hsteps, hlevels⟩
    have hrest := runNested_approximates hsteps' (Nat.le_succ_of_le hlevels') (Nat.le_refl nesting)
      (.evaluate next.form next.scope) next.store hnext
    have hfurther := approximates_takeSteps (Task.stepWithin_approximates
      (fun inner inner' hle => runNested_approximates (Nat.le_succ steps) (Nat.le_refl levels) hle)
      (Nat.le_refl nesting) (Nat.le_succ steps)) (Nat.le_refl steps)
      (.evaluate next.form next.scope) next.store
    refine ⟨⟨steps + 1, levels + 1⟩, ?_⟩
    rw [Limits.runnerWithin] at hnext ⊢
    rw [← hrest, runNested] at hnext
    rw [runNested, takeSteps_succ, Task.stepWithin_eq hinside, hstep]
    rw [← hfurther hnext] at hnext
    exact hnext

theorem Task.StepNeeds.endsWithin_done (h : task.StepNeeds store parts (mapEnd Step.done final))
    (hinside : task.inside nesting = some inner) :
    task.EndsWithin nesting store ↔ ∀ q ∈ parts, q.EndsWithin inner := by
  constructor
  · intro hends
    obtain ⟨steps, levels, hfinal⟩ := hends.exists_succ
    have hstep := Task.not_exhausted_step hinside hfinal
    exact (h.only inner ⟨steps + 1, levels⟩ hstep).2
  · intro hparts
    obtain ⟨hfinal, enough, heq⟩ := h.enough inner hparts
    have hstep := heq ⟨enough.steps + 1, enough.depth⟩ ⟨Nat.le_succ _, Nat.le_refl _⟩
    refine ⟨⟨enough.steps + 1, enough.depth + 1⟩, ?_⟩
    simp only [Limits.runnerWithin] at hstep ⊢
    rw [runNested, takeSteps_succ, Task.stepWithin_eq hinside, hstep]
    cases final with
    | ok v store' => exact id
    | error failure store' => exact mt exhausted_mapEnd.mpr hfinal

/-- A form that is handed on is not nested in the evaluation that hands it on. -/
theorem Task.StepNeeds.depth_tail
    (h : (Task.evaluate p.form p.scope).StepNeeds p.store parts
      (.ok (.tail next.form next.scope) next.store)) (hnext : next.Ends final) :
    p.depth = nestedDepth parts next.depth := by
  have hp : p.Ends final := h.stepEnds.next hnext
  refine eq_of_forall_ge_iff fun bound => ?_
  rw [nestedDepth_le_iff, Pending.depth_le_iff hp, Pending.depth_le_iff hnext]
  cases bound with
  | zero =>
    exact iff_of_false p.not_endsWithin_zero fun h => next.not_endsWithin_zero h.1
  | succ bound =>
    have hiff : p.EndsWithin (bound + 1) ↔
        (∀ q ∈ parts, q.EndsWithin bound) ∧ next.EndsWithin (bound + 1) := h.endsWithin_tail rfl
    rw [hiff, and_comm]
    refine and_congr_right fun _ => forall₂_congr fun q hq => ?_
    obtain ⟨final', hq⟩ := h.finite q hq
    rw [← Pending.depth_le_iff hq]
    omega

theorem Task.StepNeeds.depth_done
    (h : (Task.evaluate p.form p.scope).StepNeeds p.store parts (mapEnd Step.done final)) :
    p.depth = nestedDepth parts 1 := by
  have hp : p.Ends final := h.stepEnds.last
  refine eq_of_forall_ge_iff fun bound => ?_
  rw [nestedDepth_le_iff, Pending.depth_le_iff hp]
  cases bound with
  | zero => exact iff_of_false p.not_endsWithin_zero (by omega)
  | succ bound =>
    have hiff : p.EndsWithin (bound + 1) ↔ ∀ q ∈ parts, q.EndsWithin bound :=
      h.endsWithin_done rfl
    rw [hiff, and_iff_right (by omega)]
    refine forall₂_congr fun q hq => ?_
    obtain ⟨final', hq⟩ := h.finite q hq
    rw [← Pending.depth_le_iff hq]
    omega

theorem needs_run (h : task.Ends store final) (hfinite : ∀ q ∈ parts, ∃ final, q.Ends final)
    (hwithin : ∀ nesting, task.EndsWithin nesting store ↔ ∀ q ∈ parts, q.EndsWithin nesting) :
    Needs (fun nesting limits => limits.runnerWithin nesting task) store parts final := by
  refine ⟨hfinite, fun nesting hparts => ?_, fun nesting limits hfinal => ?_⟩
  · obtain ⟨enough, hfinal⟩ := (hwithin nesting).mpr hparts
    refine ⟨h.1, enough, fun limits hle => ?_⟩
    rw [← h.eq_within hfinal]
    exact runNested_approximates hle.1 hle.2 (Nat.le_refl nesting) task store hfinal
  · exact ⟨h.eq_within hfinal, (hwithin nesting).mp ⟨limits, hfinal⟩⟩

theorem needs_evaluate {form : Value} {scope : Scope}
    (h : (Task.evaluate form scope).Ends store final) :
    Needs (fun nesting limits => limits.runnerWithin nesting (.evaluate form scope)) store
      [⟨form, scope, store⟩] final := by
  refine needs_run h (List.forall_mem_singleton.mpr ⟨final, h⟩) fun nesting => ?_
  rw [List.forall_mem_singleton]
  exact Iff.rfl

theorem needs_call {function : Value} {arguments : List Value}
    (h : (Task.call function arguments).StepNeeds store []
      (.ok (.tail next.form next.scope) next.store)) (hnext : next.Ends final) :
    Needs (fun nesting limits => limits.runnerWithin nesting (.call function arguments)) store
      [next] final := by
  refine needs_run (h.stepEnds.next hnext) (List.forall_mem_singleton.mpr ⟨final, hnext⟩)
    fun nesting => ?_
  rw [h.endsWithin_tail rfl, List.forall_mem_singleton]
  exact and_iff_right nofun

end Steps

end SmallLisp
