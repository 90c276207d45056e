import SmallLisp.Proofs.Sessions

/-! # The states that a session reaches

A session is in some state between two texts, and in many more while it evaluates one: at every
step of every task that is carried out on the way, on every level. The store of each of these
states fits a layout that the task at hand follows.
-/
namespace SmallLisp

noncomputable def Runner.givingUp (run : Runner) (task : Task) (store : Store)
    (reason : Abort) : Runner := fun task' store' =>
  open Classical in
  if task' = task ∧ store' = store then .error (.abort reason) store' else run task' store'

theorem Runner.givingUp_self (run : Runner) (task : Task) (store : Store) (reason : Abort) :
    run.givingUp task store reason task store = .error (.abort reason) store :=
  if_pos ⟨rfl, rfl⟩

/-- The first step of a task has another task carried out in some store if it ends where that
other task is given up, whatever the reason is. -/
def Task.Asks (steps : Nat) (run : Runner) (outer : Task) (store : Store) (task : Task)
    (store' : Store) : Prop :=
  ∀ reason, ∃ store'',
    outer.step steps (run.givingUp task store' reason) store = .error (.abort reason) store''

inductive State where
  | idle (store : Store)
  | busy (level : Nat) (task : Task) (store : Store)

def State.store : State → Store
  | .idle store => store
  | .busy _ _ store => store

/-- The states of a session that has been started, within the limits. The world outside may change
between two texts. The states in which a prelude is evaluated are those of a session without one
that is given the prelude as a text. -/
inductive Reached (limits : Limits) (session : Session) : State → Prop where
  | started {vars : Variables} {arguments : List String} {withPrelude : Bool} {files : FileTree}
      {input : String} {clock : Int} {store : Store}
      (h : Session.start limits.runner vars arguments withPrelude (.initial files input clock) =
        .ok session store) : Reached limits session (.idle store)
  | outside {store : Store} (h : Reached limits session (.idle store)) (console : Console)
      (files : FileTree) (clock : Int) : Reached limits session
        (.idle { store with console := console, files := files, clock := clock })
  | answered {store : Store} (h : Reached limits session (.idle store)) (source : String) :
      Reached limits session (.idle (EvalM.storeAfter (session.answer source) store))
  | evaluated {store : Store} (h : Reached limits session (.idle store)) (source : String) :
      Reached limits session (.idle (EvalM.storeAfter (session.evaluate source) store))
  | form {store store' : Store} {source : String} {before after : List Value}
      {form v : Value} {level : Nat} (h : Reached limits session (.idle store))
      (hsource : readForms source = .ok (before ++ form :: after))
      (hbefore : evaluateForms session.run session.scope before store = .ok v store')
      (hv : v.isError = false) (hlevel : limits.depth = level + 1) :
      Reached limits session (.busy level (.evaluate form session.scope) store')
  | tail {store store' : Store} {task : Task} {form : Value} {scope : Scope} {level : Nat}
      (h : Reached limits session (.busy level task store))
      (hstep : task.step limits.steps (runTask limits.steps level) store =
        .ok (.tail form scope) store') :
      Reached limits session (.busy level (.evaluate form scope) store')
  | inner {store store' : Store} {outer task : Task} {level : Nat}
      (h : Reached limits session (.busy (level + 1) outer store))
      (hasks : outer.Asks limits.steps (runTask limits.steps (level + 1)) store task store') :
      Reached limits session (.busy level task store')

variable {limits : Limits} {session : Session} {state : State} {home : FrameId}
  {tolerant : Bool} {layout : Layout home tolerant} {origin : Origin} {run : Runner}

theorem Reached.run_eq (h : Reached limits session state) : session.run = limits.runner := by
  induction h with
  | started h => exact (start_eq_ok h).1
  | outside _ _ _ _ ih => exact ih
  | answered _ _ ih => exact ih
  | evaluated _ _ ih => exact ih
  | form _ _ _ _ _ ih => exact ih
  | tail _ _ ih => exact ih
  | inner _ _ ih => exact ih

theorem Reached.scope_eq (h : Reached limits session state) :
    session.scope = .global session.scope.here := by
  induction h with
  | started h =>
    obtain ⟨_, _, hopened, _⟩ := start_eq_ok h
    have hfits : _ ∧ ∃ layout : Layout _ false, _ := openGlobal_fits hopened
    exact hfits.1
  | outside _ _ _ _ ih => exact ih
  | answered _ _ ih => exact ih
  | evaluated _ _ ih => exact ih
  | form _ _ _ _ _ ih => exact ih
  | tail _ _ ih => exact ih
  | inner _ _ ih => exact ih

theorem Reached.run_isSound (h : Reached limits session state) :
    session.run.IsSound home tolerant := by
  rw [h.run_eq]
  exact runTask_isSound limits.steps limits.depth

theorem Reached.scope_in (h : Reached limits session state)
    (layout : Layout session.scope.here tolerant) : session.scope.In layout := by
  have hglobal : (Scope.global session.scope.here).In layout := Scope.in_global layout
  rw [← h.scope_eq] at hglobal
  exact hglobal

/-- Every evaluation can be taken to start now. -/
theorem Store.Fits.invariant {store : Store} (h : store.Fits layout) (own : FrameId) :
    Invariant ⟨store, own⟩ layout store :=
  ⟨h, store.since_self own home⟩

theorem Scope.In.usable {scope : Scope} (h : scope.In layout) (store : Store) :
    scope.Usable ⟨store, scope.here⟩ layout :=
  ⟨h, .inl rfl⟩

theorem Task.Valid.now {task : Task} (h : task.Valid origin layout) (store : Store) :
    ∃ own, task.Valid ⟨store, own⟩ layout := by
  cases task with
  | evaluate form scope => exact ⟨scope.here, h.1, h.2.inLayout.usable store⟩
  | call function arguments => exact ⟨home, h⟩

theorem Runner.IsSound.givingUp (hrun : run.IsSound home tolerant) {task : Task} {store : Store}
    (hnever : ∀ (origin : Origin) (layout : Layout home tolerant), task.Valid origin layout →
      ¬ Invariant origin layout store) (reason : Abort) :
    (run.givingUp task store reason).IsSound home tolerant := by
  intro origin layout task' htask store' hinv
  unfold Runner.givingUp
  by_cases hsame : task' = task ∧ store' = store
  · obtain ⟨rfl, rfl⟩ := hsame
    exact absurd hinv (hnever origin layout htask)
  · rw [if_neg hsame]
    exact hrun origin layout task' htask store' hinv

/-- What a valid step has carried out is valid. Otherwise it could be given up for a reason that
is none without making the runner unsound, and the step would end for that reason. -/
theorem Task.Asks.valid {steps : Nat} {outer task : Task} {store store' : Store}
    (h : outer.Asks steps run store task store') (hrun : run.IsSound home tolerant)
    (houter : outer.Valid origin layout) (hinv : Invariant origin layout store) :
    ∃ (origin' : Origin) (layout' : Layout home tolerant),
      task.Valid origin' layout' ∧ Invariant origin' layout' store' := by
  refine Classical.byContradiction fun hnone => ?_
  have hnever : ∀ (origin' : Origin) (layout' : Layout home tolerant),
      task.Valid origin' layout' → ¬ Invariant origin' layout' store' :=
    fun origin' layout' htask hinv' => hnone ⟨origin', layout', htask, hinv'⟩
  obtain ⟨store'', hstep⟩ := h (.longLiteral 0)
  have hsound := Task.sound_step steps (hrun.givingUp hnever (.longLiteral 0)) houter
  obtain ⟨_, _, _, hgenuine⟩ := hsound.failure hinv hstep
  exact absurd hgenuine (Nat.not_lt_zero _)

def State.Valid (layout : Layout home tolerant) : State → Prop
  | .idle store => store.Fits layout
  | .busy _ task store => store.Fits layout ∧ ∃ own, task.Valid ⟨store, own⟩ layout

theorem State.Valid.fits (h : state.Valid layout) : state.store.Fits layout := by
  cases state with
  | idle store => exact h
  | busy level task store => exact h.1

theorem Sound.fits_storeAfter {α : Type} {x : EvalM α} {ok : Layout home tolerant → α → Prop}
    {store : Store} {own : FrameId} (hx : Sound ⟨store, own⟩ layout false x ok)
    (h : store.Fits layout) :
    ∃ layout' : Layout home tolerant, (EvalM.storeAfter x store).Fits layout' := by
  obtain ⟨layout', _, hinv⟩ := hx.storeAfter (h.invariant own)
  exact ⟨layout', hinv.fits⟩

theorem Reached.valid (h : Reached limits session state) :
    ∃ layout : Layout session.scope.here tolerant, state.Valid layout := by
  have hrun : session.run.IsSound session.scope.here tolerant := h.run_isSound
  have hscope := fun layout : Layout session.scope.here tolerant => h.scope_in layout
  induction h with
  | @started _ _ _ _ _ _ store h =>
    obtain ⟨hlimits, store₁, hopened, hprelude⟩ := start_eq_ok h
    obtain ⟨_, layout, hfits⟩ := openGlobal_fits hopened
    rcases hprelude with rfl | ⟨source, v, hv⟩
    · exact ⟨layout, hfits⟩
    · rw [← hlimits] at hv
      have hafter : EvalM.storeAfter (session.evaluate source) store₁ = store := by
        rw [EvalM.storeAfter, Session.evaluate, hv]
      have hsound := sound_evaluateText hrun ((hscope layout).usable store₁) source
      exact hafter ▸ hsound.fits_storeAfter hfits
  | outside _ console files clock ih =>
    obtain ⟨layout, hfits⟩ := ih
    exact ⟨layout, hfits.size_eq, hfits.bindings, hfits.contents⟩
  | answered _ source ih =>
    obtain ⟨layout, hfits⟩ := ih
    exact (sound_answer hrun ((hscope layout).usable _) source).fits_storeAfter hfits
  | evaluated _ source ih =>
    obtain ⟨layout, hfits⟩ := ih
    exact (sound_evaluateText hrun ((hscope layout).usable _) source).fits_storeAfter hfits
  | @form store store' source before after form v level _ hsource hbefore hv _ ih =>
    obtain ⟨layout, hfits⟩ := ih
    have hforms : ∀ u ∈ before ++ form :: after, u.Valid layout := readForms_valid hsource
    obtain ⟨hvalid, hrest⟩ := List.forall_mem_append.mp hforms
    have hsound := sound_evaluateForms hrun ((hscope layout).usable store) hvalid
    obtain ⟨layout', hl, hinv, _⟩ := hsound.result (hfits.invariant _) hbefore
    have hform : form.Valid layout' := (hrest form List.mem_cons_self).mono hl
    exact ⟨layout', hinv.fits, _, hform, (hscope layout').usable store'⟩
  | @tail store store' task form scope level _ hstep ih =>
    obtain ⟨layout, hfits, own, htask⟩ := ih
    have hsound := Task.sound_step limits.steps (runTask_isSound limits.steps level) htask
    obtain ⟨layout', _, hinv, hnext⟩ := hsound.result (hfits.invariant own) hstep
    have hnow : (Task.evaluate form scope).Valid ⟨store, own⟩ layout' := hnext
    exact ⟨layout', hinv.fits, hnow.now store'⟩
  | @inner store store' outer task level _ hasks ih =>
    obtain ⟨layout, hfits, own, houter⟩ := ih
    have hlevel : (runTask limits.steps (level + 1)).IsSound session.scope.here tolerant :=
      runTask_isSound limits.steps (level + 1)
    obtain ⟨origin', layout', htask, hinv⟩ := hasks.valid hlevel houter (hfits.invariant own)
    exact ⟨layout', hinv.fits, htask.now store'⟩

end SmallLisp
