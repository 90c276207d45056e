import SmallLisp.Proofs.ReachedStates

/-! # Evaluation writes its own frame and the global frame only

Whatever is evaluated in a scope, and however that ends, all other frames that were there before
stay as they were. No frame loses a name, and no frame gets another outer frame.
-/
namespace SmallLisp

variable {home : FrameId} {layout : Layout home true}

/-- What the evaluation of a form in a scope leaves of the frames that were there before. The
layout afterwards gives every old frame the chain of enclosing frames it had. -/
structure Isolated (layout : Layout home true) (scope : Scope) (before after : Store) :
    Prop where
  kept : before.frames.size ≤ after.frames.size
  untouched : ∀ f < before.frames.size, f ≠ scope.here → f ≠ home →
    after.frame f = before.frame f
  names_kept : ∀ f, (before.frame f).names <+: (after.frame f).names
  links_kept : ∃ layout' : Layout home true, layout.Within layout' ∧ after.Fits layout'

theorem Sound.isolated_after {α : Type} {x : EvalM α} {ok : Layout home true → α → Prop}
    {scope : Scope} {store : Store} (hx : Sound ⟨store, scope.here⟩ layout false x ok)
    (h : store.Fits layout) : Isolated layout scope store (EvalM.storeAfter x store) := by
  obtain ⟨layout', hl, hinv⟩ := hx.storeAfter (h.invariant scope.here)
  refine ⟨hinv.since.grown, ?_, hinv.since.names_kept, layout', hl, hinv.fits⟩
  intro f hold hother hnotHome
  apply hinv.since.untouched f
  rintro (hown | hhome | hnew)
  · exact hother hown
  · exact hnotHome hhome
  · exact Nat.not_le_of_lt hold hnew

/-- Whatever layout a state follows, each scope of it is isolated from the others. -/
theorem Reached.isolated {limits : Limits} {session : Session} {state : State}
    (h : Reached limits session state) :
    (∃ layout : Layout session.scope.here true, state.Valid layout ∧ session.scope.In layout) ∧
      ∀ layout : Layout session.scope.here true, state.store.Fits layout →
        ∀ steps depth form scope, form.Valid layout → scope.In layout →
          Isolated layout scope state.store
            (EvalM.storeAfter (runTask steps depth (.evaluate form scope)) state.store) := by
  constructor
  · obtain ⟨layout, hvalid⟩ : ∃ layout : Layout session.scope.here true, state.Valid layout :=
      h.valid
    exact ⟨layout, hvalid, h.scope_in layout⟩
  · intro layout hfits steps depth form scope hform hscope
    have hrun : (runTask steps depth).IsSound session.scope.here true :=
      runTask_isSound steps depth
    exact (hrun.evaluate (hscope.usable state.store) hform).isolated_after hfits

/-- A definition in the scope of a new session. -/
theorem Reached.isolated_definition :
    let limits : Limits := ⟨9, 3⟩
    let form := Value.ofList [.symbol "def!", .symbol "x", .int 1]
    ∃ session store, Session.start limits.runner [] [] false (.initial .empty "" 0) =
        .ok session store ∧
      ∃ layout : Layout session.scope.here true, store.Fits layout ∧ form.Valid layout ∧
        session.scope.In layout ∧ Isolated layout session.scope store
          (EvalM.storeAfter (runTask 9 3 (.evaluate form session.scope)) store) := by
  intro limits form
  obtain ⟨session, store, hstart⟩ := start_bare limits.runner [] .empty "" 0
  obtain ⟨⟨layout, hfits, hscope⟩, hisolated⟩ := Reached.isolated (Reached.started hstart)
  have hform : form.Valid layout := by
    apply Value.valid_ofList
    simp only [List.forall_mem_cons]
    exact ⟨Value.valid_symbol _, Value.valid_symbol _, Value.valid_int _, List.forall_mem_nil _⟩
  exact ⟨session, store, hstart, layout, hfits, hform, hscope,
    hisolated layout hfits 9 3 form session.scope hform hscope⟩

end SmallLisp
