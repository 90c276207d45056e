import SmallLisp.Proofs.Approximation
import SmallLisp.Session

/-! # How evaluations end when limits do not matter

An evaluation within limits ends in some way if it does so within all limits that are large enough.
Such an end is unique, it is the end within any limits that are not used up, and it follows from
the ends of the parts of the evaluation.
-/
namespace SmallLisp

variable {α β : Type}

instance : LE Limits where
  le small large := small.steps ≤ large.steps ∧ small.depth ≤ large.depth

def Limits.max (limits limits' : Limits) : Limits :=
  ⟨Nat.max limits.steps limits'.steps, Nat.max limits.depth limits'.depth⟩

def Limits.next (limits : Limits) : Limits := ⟨limits.steps + 1, limits.depth + 1⟩

theorem Limits.le_next (limits : Limits) : limits ≤ limits.next :=
  ⟨Nat.le_succ _, Nat.le_succ _⟩

theorem Limits.le_max_left (limits limits' : Limits) : limits ≤ limits.max limits' :=
  ⟨Nat.le_max_left _ _, Nat.le_max_left _ _⟩

theorem Limits.le_max_right (limits limits' : Limits) : limits' ≤ limits.max limits' :=
  ⟨Nat.le_max_right _ _, Nat.le_max_right _ _⟩

theorem Limits.le_trans {small middle large : Limits} (h : small ≤ middle) (h' : middle ≤ large) :
    small ≤ large :=
  ⟨Nat.le_trans h.1 h'.1, Nat.le_trans h.2 h'.2⟩

/-- Within all limits that are large enough, the evaluation has this end. -/
def Ends (x : Limits → EvalM α) (store : Store) (result : EStateM.Result Failure Store α) : Prop :=
  ¬ Exhausted result ∧ ∃ enough, ∀ limits, enough ≤ limits → x limits store = result

def Task.Ends (task : Task) (store : Store) (result : EStateM.Result Failure Store Value) : Prop :=
  SmallLisp.Ends (fun limits => limits.runner task) store result

structure Running where
  task : Task
  store : Store

def Running.Ends (r : Running) (result : EStateM.Result Failure Store Value) : Prop :=
  r.task.Ends r.store result

def Task.StepEnds (task : Task) (store : Store) (result : EStateM.Result Failure Store Step) :
    Prop :=
  SmallLisp.Ends (fun limits => task.step limits.steps limits.runner) store result

def mapEnd (f : α → β) : EStateM.Result Failure Store α → EStateM.Result Failure Store β
  | .ok a store => .ok (f a) store
  | .error failure store => .error failure store

variable {x y : Limits → EvalM α} {store store' : Store}
  {result result' : EStateM.Result Failure Store α}

theorem exhausted_mapEnd {f : α → β} : Exhausted (mapEnd f result) ↔ Exhausted result := by
  cases result with
  | ok a store => exact Iff.rfl
  | error failure store => exact Iff.rfl

theorem Ends.unique (h : Ends x store result) (h' : Ends x store result') : result = result' := by
  obtain ⟨_, enough, heq⟩ := h
  obtain ⟨_, enough', heq'⟩ := h'
  rw [← heq _ (enough.le_max_left enough'), heq' _ (enough.le_max_right enough')]

/-- An evaluation within limits that are not used up ends so. -/
theorem Ends.eq_of_approximates (h : Ends x store result)
    (hx : ∀ limits limits', limits ≤ limits' → Approximates (x limits) (x limits'))
    {limits : Limits} (hfinal : ¬ Exhausted (x limits store)) : x limits store = result := by
  obtain ⟨_, enough, heq⟩ := h
  rw [← hx limits _ (limits.le_max_left enough) store hfinal]
  exact heq _ (limits.le_max_right enough)

theorem Ends.congr (h : Ends y store result) (hxy : ∀ limits, x limits store = y limits store) :
    Ends x store result := by
  obtain ⟨hfinal, enough, heq⟩ := h
  exact ⟨hfinal, enough, fun limits hle => (hxy limits).trans (heq limits hle)⟩

theorem ends_congr (hxy : ∀ limits, x limits store = y limits store) :
    Ends x store result ↔ Ends y store result :=
  ⟨fun h => h.congr fun limits => (hxy limits).symm, fun h => h.congr hxy⟩

theorem ends_of_eq (hfinal : ¬ Exhausted result) (h : ∀ limits, x limits store = result) :
    Ends x store result :=
  ⟨hfinal, ⟨0, 0⟩, fun limits _ => h limits⟩

theorem ends_pure (a : α) : Ends (fun _ => pure a) store (.ok a store) :=
  ends_of_eq id fun _ => rfl

theorem Ends.bind {f : Limits → α → EvalM β} {a : α} {end' : EStateM.Result Failure Store β}
    (hx : Ends x store (.ok a store')) (hf : Ends (fun limits => f limits a) store' end') :
    Ends (fun limits => x limits >>= f limits) store end' := by
  obtain ⟨_, enough, hx⟩ := hx
  obtain ⟨hfinal, enough', hf⟩ := hf
  refine ⟨hfinal, enough.max enough', fun limits hle => ?_⟩
  have hx' := hx limits (Limits.le_trans (enough.le_max_left enough') hle)
  have hf' := hf limits (Limits.le_trans (enough.le_max_right enough') hle)
  simp only [Bind.bind, EStateM.bind, hx']
  exact hf'

/-- Nothing but what follows decides how the sequence ends. -/
theorem Ends.bind_iff {f : Limits → α → EvalM β} {a : α} {end' : EStateM.Result Failure Store β}
    (hx : Ends x store (.ok a store')) :
    Ends (fun limits => x limits >>= f limits) store end' ↔
      Ends (fun limits => f limits a) store' end' := by
  refine ⟨fun h => ?_, hx.bind⟩
  obtain ⟨_, enough, hx⟩ := hx
  obtain ⟨hfinal, enough', h⟩ := h
  refine ⟨hfinal, enough.max enough', fun limits hle => ?_⟩
  have hx' := hx limits (Limits.le_trans (enough.le_max_left enough') hle)
  have hwhole := h limits (Limits.le_trans (enough.le_max_right enough') hle)
  simp only [Bind.bind, EStateM.bind, hx'] at hwhole
  exact hwhole

/-- What follows only replaces the value, if there is one. -/
theorem Ends.bind_map {γ : Type} {x : Limits → EvalM β} {f : Limits → β → EvalM γ} {h : α → β}
    {g : α → γ} (hx : Ends x store (mapEnd h result))
    (hf : ∀ a store', result = .ok a store' → ∀ limits, f limits (h a) = pure (g a)) :
    Ends (fun limits => x limits >>= f limits) store (mapEnd g result) := by
  obtain ⟨hfinal, enough, hx⟩ := hx
  cases result with
  | ok a store' =>
    refine ⟨id, enough, fun limits hle => ?_⟩
    simp only [Bind.bind, EStateM.bind, hx limits hle, mapEnd, hf a store' rfl limits]
    rfl
  | error failure store' =>
    refine ⟨hfinal, enough, fun limits hle => ?_⟩
    simp only [Bind.bind, EStateM.bind, hx limits hle, mapEnd]

theorem mapEnd_id (result : EStateM.Result Failure Store α) : mapEnd id result = result := by
  cases result with
  | ok a store => rfl
  | error failure store => rfl

theorem Ends.bind_pure {f : Limits → α → EvalM β} {g : α → β} (hx : Ends x store result)
    (hf : ∀ a store', result = .ok a store' → ∀ limits, f limits a = pure (g a)) :
    Ends (fun limits => x limits >>= f limits) store (mapEnd g result) := by
  rw [← mapEnd_id result] at hx
  exact hx.bind_map hf

theorem EvalM.settle_of_ne_fault {x : EvalM Step}
    (h : ∀ fault store', x store ≠ .error (.fault fault) store') :
    EvalM.settle x store = x store := by
  cases hr : x store with
  | ok step store' =>
    unfold EvalM.settle
    rw [hr]
  | error failure store' =>
    unfold EvalM.settle
    rw [hr]
    cases failure with
    | fault fault => exact absurd hr (h fault store')
    | thrown payload => rfl
    | abort reason => rfl

theorem Ends.settle {x : Limits → EvalM Step} {result : EStateM.Result Failure Store Step}
    (h : Ends x store result) (hfault : ∀ fault store', result ≠ .error (.fault fault) store') :
    Ends (fun limits => EvalM.settle (x limits)) store result := by
  obtain ⟨hfinal, enough, heq⟩ := h
  refine ⟨hfinal, enough, fun limits hle => ?_⟩
  have hx := heq limits hle
  rw [← hx] at hfault ⊢
  exact EvalM.settle_of_ne_fault hfault

variable {task : Task} {form : Value} {scope : Scope}
  {final : EStateM.Result Failure Store Value}

theorem Task.ends_of_run {steps depth : Nat} (h : runTask steps depth task store = final)
    (hfinal : ¬ Exhausted final) : task.Ends store final := by
  refine ⟨hfinal, ⟨steps, depth⟩, fun limits hle => ?_⟩
  rw [← h] at hfinal ⊢
  exact runTask_approximates hle.1 hle.2 task store hfinal

theorem Task.Ends.eq_of_run {steps depth : Nat} {u v : Value} {store'' : Store}
    (h : task.Ends store (.ok v store'))
    (hrun : runTask steps depth task store = .ok u store'') : u = v ∧ store'' = store' := by
  cases (Task.ends_of_run hrun not_false).unique h
  exact ⟨rfl, rfl⟩

theorem takeSteps_succ (step : Task → EvalM Step) (steps : Nat) :
    takeSteps step (steps + 1) task store =
      match step task store with
      | .ok (.done v) store' => .ok v store'
      | .ok (.tail form scope) store' => takeSteps step steps (.evaluate form scope) store'
      | .error failure store' => .error failure store' := by
  rw [takeSteps]
  simp only [Bind.bind, EStateM.bind]
  cases step task store with
  | ok s store' =>
    cases s with
    | done v => rfl
    | tail form scope => rfl
  | error failure store' => rfl

theorem runTask_of_done {steps depth : Nat} {v : Value}
    (h : task.step (steps + 1) (runTask (steps + 1) depth) store = .ok (.done v) store') :
    runTask (steps + 1) (depth + 1) task store = .ok v store' := by
  rw [runTask, takeSteps_succ, h]

theorem runTask_of_tail {steps depth : Nat}
    (h : task.step (steps + 1) (runTask (steps + 1) depth) store =
      .ok (.tail form scope) store') :
    runTask (steps + 1) (depth + 1) task store =
      takeSteps (Task.step (steps + 1) (runTask (steps + 1) depth)) steps (.evaluate form scope)
        store' := by
  rw [runTask, takeSteps_succ, h]

theorem Task.StepEnds.run {step : EStateM.Result Failure Store Step}
    (h : task.StepEnds store step) : ∃ enough : Limits, ∀ limits, enough ≤ limits →
      task.step (limits.steps + 1) (runTask (limits.steps + 1) limits.depth) store = step := by
  obtain ⟨_, enough, heq⟩ := h
  refine ⟨enough, fun limits hle => ?_⟩
  exact heq ⟨limits.steps + 1, limits.depth⟩ ⟨Nat.le_succ_of_le hle.1, hle.2⟩

theorem Task.ends_of_runs (hfinal : ¬ Exhausted final) (enough : Limits)
    (h : ∀ limits, enough ≤ limits →
      runTask (limits.steps + 1) (limits.depth + 1) task store = final) :
    task.Ends store final := by
  refine ⟨hfinal, enough.next, fun limits hle => ?_⟩
  have hrun := h ⟨limits.steps - 1, limits.depth - 1⟩
    ⟨Nat.le_sub_one_of_lt hle.1, Nat.le_sub_one_of_lt hle.2⟩
  rwa [Nat.sub_add_cancel (Nat.one_le_of_lt hle.1),
    Nat.sub_add_cancel (Nat.one_le_of_lt hle.2)] at hrun

/-- A task whose first step has an end other than a form to be evaluated ends so. -/
theorem Task.StepEnds.last (h : task.StepEnds store (mapEnd Step.done final)) :
    task.Ends store final := by
  obtain ⟨enough, hstep⟩ := h.run
  have hfinal := mt exhausted_mapEnd.mpr h.1
  refine Task.ends_of_runs hfinal enough fun limits hle => ?_
  rw [runTask, takeSteps_succ, hstep limits hle]
  cases final with
  | ok v store' => rfl
  | error failure store' => rfl

theorem Task.StepEnds.next (h : task.StepEnds store (.ok (.tail form scope) store'))
    (hnext : (Task.evaluate form scope).Ends store' final) : task.Ends store final := by
  obtain ⟨enough, hstep⟩ := h.run
  obtain ⟨hfinal, enough', hnext⟩ := hnext
  refine Task.ends_of_runs hfinal (enough.max enough') fun limits hle => ?_
  have hrun := hstep limits (Limits.le_trans (enough.le_max_left enough') hle)
  have hrest : takeSteps (Task.step limits.steps (runTask limits.steps limits.depth)) limits.steps
      (.evaluate form scope) store' = final :=
    hnext ⟨limits.steps, limits.depth + 1⟩
      (Limits.le_trans (Limits.le_trans (enough.le_max_right enough') hle)
        ⟨Nat.le_refl _, Nat.le_succ _⟩)
  -- every step may go one step further than this end needs
  have hfurther : ∀ task, Approximates
      (Task.step limits.steps (runTask limits.steps limits.depth) task)
      (Task.step (limits.steps + 1) (runTask (limits.steps + 1) limits.depth) task) :=
    fun task => task.approximates_step
      (runTask_approximates (Nat.le_succ _) (Nat.le_refl _)) (Nat.le_succ _)
  have hsame := approximates_takeSteps hfurther (Nat.le_refl limits.steps)
    (.evaluate form scope) store'
  rw [runTask_of_tail hrun, hsame (by rw [hrest]; exact hfinal), hrest]

theorem Task.StepEnds.next_iff (h : task.StepEnds store (.ok (.tail form scope) store')) :
    task.Ends store final ↔ (Task.evaluate form scope).Ends store' final := by
  refine ⟨fun htask => ?_, h.next⟩
  obtain ⟨enough, hstep⟩ := h.run
  obtain ⟨hfinal, enough', htask⟩ := htask
  refine Task.ends_of_runs hfinal (enough.max enough') fun limits hle => ?_
  have hrun := hstep limits (Limits.le_trans (enough.le_max_left enough') hle)
  have hwhole : runTask (limits.steps + 1) (limits.depth + 1) task store = final :=
    htask limits.next (Limits.le_trans (Limits.le_trans (enough.le_max_right enough') hle)
      limits.le_next)
  rw [runTask_of_tail hrun] at hwhole
  have hsame := approximates_takeSteps (fun task => approximates_refl
    (task.step (limits.steps + 1) (runTask (limits.steps + 1) limits.depth)))
    (Nat.le_succ limits.steps) (.evaluate form scope) store'
  rw [runTask, hsame (by rw [hwhole]; exact hfinal), hwhole]

end SmallLisp
