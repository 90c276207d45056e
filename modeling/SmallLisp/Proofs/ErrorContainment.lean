import SmallLisp.Proofs.ReachedStates

/-! # Error values never become data

An error value is what an evaluation results in, and nothing else: no reached state holds one in a
binding, in a cell or in the task at hand, at any depth, and no thrown value has one in it.
-/
namespace SmallLisp

def Value.ErrorFree (v : Value) : Prop := v.Every fun u => u.isError = false

/-- What an evaluation may result in: a value, or an error value without a cause. -/
def Value.IsOutcome (v : Value) : Prop := v.ErrorFree ∨ ∃ message, v = .error message none

def Store.ErrorFree (store : Store) : Prop :=
  (∀ f, ∀ b ∈ store.frame f, b.2.ErrorFree) ∧ ∀ cell, (store.heap.content cell).ErrorFree

def Task.ErrorFree : Task → Prop
  | .evaluate form _ => form.ErrorFree
  | .call function arguments => function.ErrorFree ∧ ∀ v ∈ arguments, v.ErrorFree

def State.ErrorFree : State → Prop
  | .idle store => store.ErrorFree
  | .busy _ task store => store.ErrorFree ∧ task.ErrorFree

def Step.ErrorFree : Step → Prop
  | .done v => v.IsOutcome
  | .tail form _ => form.ErrorFree

def Failure.ErrorFree : Failure → Prop
  | .thrown payload => payload.ErrorFree
  | _ => True

def EndsErrorFree {α : Type} (ok : α → Prop) : EStateM.Result Failure Store α → Prop
  | .ok a store => ok a ∧ store.ErrorFree
  | .error failure store => failure.ErrorFree ∧ store.ErrorFree

/-- What the handler of a guarded form is given: a value that was thrown, or the message of the
error value that the form resulted in. -/
def IsCaught (run : Runner) (guarded : Task) (store : Store) (v : Value) : Prop :=
  (∃ store', run guarded store = .error (.thrown v) store') ∨
    ∃ message store', run guarded store = .ok (.error message none) store' ∧ v = .str message

/-- The handler of a clause comes next just if something was caught, and sees that. -/
structure HandlesCaught (run : Runner) (guarded : Task) (store : Store) (caught : String)
    (handler : Value) (result : EStateM.Result Failure Store Step) : Prop where
  only : ∀ next inner store', result = .ok (.tail next inner) store' →
    next = handler ∧ ∃ v, store'.lookup? inner caught = some v ∧ IsCaught run guarded store v
  all : ∀ v, IsCaught run guarded store v → ∃ inner store',
    result = .ok (.tail handler inner) store' ∧ store'.lookup? inner caught = some v

variable {home : FrameId} {layout : Layout home false}

theorem Layout.Admits.not_isError {v : Value} (h : layout.Admits v) : v.isError = false := by
  cases v with
  | error => cases h
  | _ => rfl

theorem Value.Valid.errorFree {v : Value} (h : v.Valid layout) : v.ErrorFree :=
  Every.mono (fun _ hu => hu.not_isError) h

theorem Value.IsResult.isOutcome {v : Value} (h : v.IsResult layout) : v.IsOutcome :=
  h.imp_left Valid.errorFree

theorem Store.Fits.errorFree {store : Store} (h : store.Fits layout) : store.ErrorFree :=
  ⟨fun f b hb => (h.bindings f b hb).errorFree, fun cell => (h.contents cell).errorFree⟩

theorem Task.Valid.errorFree {origin : Origin} {task : Task} (h : task.Valid origin layout) :
    task.ErrorFree := by
  cases task with
  | evaluate form scope => exact h.1.errorFree
  | call function arguments => exact ⟨h.1.errorFree, fun v hv => (h.2 v hv).errorFree⟩

theorem State.Valid.errorFree {state : State} (h : state.Valid layout) : state.ErrorFree := by
  cases state with
  | idle store => exact Store.Fits.errorFree h
  | busy level task store =>
    obtain ⟨hfits, own, htask⟩ := h
    exact ⟨hfits.errorFree, htask.errorFree⟩

theorem Step.Valid.errorFree {origin : Origin} {step : Step} (h : step.Valid origin layout) :
    step.ErrorFree := by
  cases step with
  | done v => exact Value.IsResult.isOutcome h
  | tail form scope => exact h.1.errorFree

theorem Failure.Allowed.errorFree {store : Store} {faulty : Bool} {failure : Failure}
    (h : failure.Allowed store layout faulty) : failure.ErrorFree := by
  cases failure with
  | thrown payload => exact Value.Valid.errorFree h
  | _ => trivial

theorem Sound.endsErrorFree {α : Type} {x : EvalM α} {ok : Layout home false → α → Prop}
    {ok' : α → Prop} {store : Store} {own : FrameId}
    (hx : Sound ⟨store, own⟩ layout false x ok) (hfits : store.Fits layout)
    (hok : ∀ layout' a, ok layout' a → ok' a) : EndsErrorFree ok' (x store) := by
  cases hr : x store with
  | ok a store' =>
    obtain ⟨layout', _, hinv, ha⟩ := hx.result (hfits.invariant own) hr
    exact ⟨hok layout' a ha, hinv.fits.errorFree⟩
  | error failure store' =>
    obtain ⟨layout', _, hinv, hf⟩ := hx.failure (hfits.invariant own) hr
    exact ⟨hf.errorFree, hinv.fits.errorFree⟩

theorem specialForm_attempt : specialForm? (.symbol "try*") = some .attempt := by decide

section Attempt

variable {steps : Nat} {run : Runner} {form clause metadata handler next v : Value}
  {identity : Option Identity} {scope inner : Scope} {caught : String} {store store' : Store}

theorem step_attempt (hclause : SpecialForm.catchClause clause = .ok (caught, handler)) :
    (Task.evaluate (.list [.symbol "try*", form, clause] metadata identity) scope).step steps run
      store = EvalM.settle (SpecialForm.evaluateGuarded run form caught handler scope) store := by
  have hattempt : SpecialForm.evaluate steps run .attempt [form, clause] scope =
      SpecialForm.evaluateGuarded run form caught handler scope := by
    rw [SpecialForm.evaluate, hclause]
    rfl
  rw [Task.step, stepForm, stepList, specialForm_attempt]
  simp only [hattempt]

theorem settle_eq_tail {x : EvalM Step} :
    EvalM.settle x store = .ok (.tail next inner) store' ↔
      x store = .ok (.tail next inner) store' := by
  unfold EvalM.settle
  constructor
  · intro h
    split at h
    · next f s _ =>
      obtain ⟨v, s', _, hv⟩ := bind_eq_ok (f := fun v => pure (Step.done v)) h
      cases hv
    · exact h
  · intro h
    rw [h]

theorem openScope_binds (h : EvalM.openScope scope [(caught, v)] store = .ok inner store') :
    store'.lookup? inner caught = some v := by
  cases h
  have hframe : (store.addFrame (Frame.bindAll [] [(caught, v)])).frame store.nextFrame =
      [(caught, v)] := by
    rw [Store.frame_addFrame, Store.nextFrame, if_pos rfl]
    rfl
  have hfound : Frame.find? caught [(caught, v)] = some v := if_pos rfl
  rw [Store.lookup?, Scope.frames_nest, List.findSome?_cons, hframe, hfound]

theorem evaluateGuarded_eq_tail (h : SpecialForm.evaluateGuarded run form caught handler scope
      store = .ok (.tail next inner) store') :
    next = handler ∧ ∃ v, store'.lookup? inner caught = some v ∧
      ((∃ store'', run (.evaluate form scope) store = .error (.thrown v) store'') ∨
        ∃ message cause store'', run (.evaluate form scope) store =
          .ok (.error message cause) store'' ∧ v = .payload message cause) := by
  obtain ⟨r, store₁, hcatch, hrest⟩ := bind_eq_ok h
  unfold EvalM.catchThrown at hcatch
  cases hr : run (.evaluate form scope) store with
  | ok v store₂ =>
    rw [hr] at hcatch
    cases hcatch
    cases v with
    | error message cause =>
      obtain ⟨inner', store₃, hopen, hpure⟩ := bind_eq_ok hrest
      cases hpure
      exact ⟨rfl, _, openScope_binds hopen, .inr ⟨message, cause, _, rfl, rfl⟩⟩
    | _ => cases hrest
  | error failure store₂ =>
    rw [hr] at hcatch
    cases failure with
    | thrown payload =>
      cases hcatch
      obtain ⟨inner', store₃, hopen, hpure⟩ := bind_eq_ok hrest
      cases hpure
      exact ⟨rfl, _, openScope_binds hopen, .inl ⟨_, rfl⟩⟩
    | _ => cases hcatch

theorem evaluateGuarded_of_caught (h : IsCaught run (.evaluate form scope) store v) :
    ∃ inner store', SpecialForm.evaluateGuarded run form caught handler scope store =
      .ok (.tail handler inner) store' ∧ store'.lookup? inner caught = some v := by
  have hopens : ∀ store₁, ∃ inner store',
      EvalM.openScope scope [(caught, v)] store₁ = .ok inner store' := fun _ => ⟨_, _, rfl⟩
  rcases h with ⟨store₁, hthrown⟩ | ⟨message, store₁, hmessage, rfl⟩
  · obtain ⟨inner, store', hopen⟩ := hopens store₁
    refine ⟨inner, store', ?_, openScope_binds hopen⟩
    simp only [SpecialForm.evaluateGuarded, EvalM.catchThrown, Bind.bind, EStateM.bind, hthrown,
      hopen]
    rfl
  · obtain ⟨inner, store', hopen⟩ := hopens store₁
    refine ⟨inner, store', ?_, openScope_binds hopen⟩
    simp only [SpecialForm.evaluateGuarded, EvalM.catchThrown, Bind.bind, EStateM.bind, hmessage,
      Value.payload, Option.getD_none, hopen]
    rfl

/-- A valid `try*` with a clause hands its handler what was caught, which is no error value. -/
theorem step_attempt_handles {origin : Origin} (hrun : run.IsSound home false)
    (htask : (Task.evaluate (.list [.symbol "try*", form, clause] metadata identity) scope).Valid
      origin layout) (hinv : Invariant origin layout store)
    (hclause : SpecialForm.catchClause clause = .ok (caught, handler)) :
    HandlesCaught run (.evaluate form scope) store caught handler
      ((Task.evaluate (.list [.symbol "try*", form, clause] metadata identity) scope).step steps
        run store) := by
  rw [step_attempt hclause]
  constructor
  · intro next inner store' h
    obtain ⟨hnext, v, hbound, hcaught⟩ := evaluateGuarded_eq_tail (settle_eq_tail.mp h)
    refine ⟨hnext, v, hbound, ?_⟩
    rcases hcaught with hthrown | ⟨message, cause, store'', hresult, rfl⟩
    · exact .inl hthrown
    · have hform : form.Valid layout := (Value.valid_list.mp htask.1).2 form (by simp)
      obtain ⟨layout', _, _, hvalid | ⟨message', hmessage⟩⟩ :=
        (hrun.evaluate htask.2 hform).result hinv hresult
      · cases hvalid.root
      · cases hmessage
        exact .inr ⟨message, store'', hresult, rfl⟩
  · intro v hcaught
    obtain ⟨inner, store', h, hbound⟩ := evaluateGuarded_of_caught hcaught
    exact ⟨inner, store', settle_eq_tail.mpr h, hbound⟩

end Attempt

/-- What a task does from a store, step by step and as a whole, if so many levels are left for the
tasks inside it. -/
structure Task.Contained (limits : Limits) (level : Nat) (task : Task) (store : Store) :
    Prop where
  step : EndsErrorFree Step.ErrorFree
    (task.step limits.steps (runTask limits.steps level) store)
  whole : EndsErrorFree Value.IsOutcome (runTask limits.steps (level + 1) task store)
  handler : ∀ form clause metadata identity scope caught handler,
    task = .evaluate (.list [.symbol "try*", form, clause] metadata identity) scope →
    SpecialForm.catchClause clause = .ok (caught, handler) →
    HandlesCaught (runTask limits.steps level) (.evaluate form scope) store caught handler
      (task.step limits.steps (runTask limits.steps level) store)

structure State.Contained (limits : Limits) (session : Session) (state : State) : Prop where
  now : state.ErrorFree
  text : ∀ source, EndsErrorFree Value.IsOutcome (session.evaluate source state.store)
  task : ∀ level task store, state = .busy level task store → task.Contained limits level store

theorem Task.Valid.contained_from {limits : Limits} {level : Nat} {task : Task} {store : Store}
    {own : FrameId} (h : task.Valid ⟨store, own⟩ layout) (hfits : store.Fits layout) :
    task.Contained limits level store := by
  have hrun : ∀ levels, (runTask limits.steps levels).IsSound home false :=
    runTask_isSound limits.steps
  refine ⟨?_, ?_, ?_⟩
  · exact (Task.sound_step limits.steps (hrun level) h).endsErrorFree hfits
      fun _ _ hstep => Step.Valid.errorFree hstep
  · exact (hrun (level + 1) _ _ task h).endsErrorFree hfits
      fun _ _ hv => Value.IsResult.isOutcome hv
  · rintro form clause metadata identity scope caught handler rfl hclause
    exact step_attempt_handles (hrun level) h (hfits.invariant own) hclause

theorem Reached.contained {limits : Limits} {session : Session} {state : State}
    (h : Reached limits session state) : state.Contained limits session := by
  obtain ⟨layout, hvalid⟩ : ∃ layout : Layout session.scope.here false, state.Valid layout :=
    h.valid
  refine ⟨hvalid.errorFree, fun source => ?_, ?_⟩
  · have hscope := (h.scope_in layout).usable state.store
    exact (sound_evaluateText h.run_isSound hscope source).endsErrorFree hvalid.fits
      fun _ _ hv => Value.IsResult.isOutcome hv
  · rintro level task store rfl
    obtain ⟨hfits, own, htask⟩ := hvalid
    exact htask.contained_from hfits

/-- A session is about to evaluate a form that throws and catches. -/
theorem Reached.contained_guarded :
    let limits : Limits := ⟨9, 3⟩
    let form := Value.ofList [.symbol "try*", .ofList [.symbol "throw", .int 7],
      .ofList [.symbol "catch*", .symbol "e", .symbol "e"]]
    ∃ session store, Session.start limits.runner [] ["a"] false (.initial .empty "" 0) =
        .ok session store ∧
      readForms "(try* (throw 7) (catch* e e))" = .ok [form] ∧
      (State.busy 2 (.evaluate form session.scope) store).Contained limits session := by
  intro limits form
  have hsource : readForms "(try* (throw 7) (catch* e e))" = .ok ([] ++ form :: []) := rfl
  obtain ⟨session, store, hstart⟩ := start_bare limits.runner ["a"] .empty "" 0
  exact ⟨session, store, hstart, hsource,
    Reached.contained (.form (.started hstart) hsource rfl rfl rfl)⟩

end SmallLisp
