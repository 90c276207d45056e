import SmallLisp.Proofs.EvaluationRules

/-! # Expanding a form and evaluating it agree

A form that is evaluated is expanded on the way, one call at a time. Expanding it fully first makes
the same calls in the same stores, so that nothing is left to the evaluation but that of the
expansion.
-/
namespace SmallLisp

def ExpansionEnds (scope : Scope) (form : Value) (store : Store)
    (result : EStateM.Result Failure Store Value) : Prop :=
  Ends (fun limits => expandFully limits.runner scope limits.steps form) store result

inductive Met (scope : Scope) (form : Value) (store : Store) : Value → Store → Prop where
  | first : Met scope form store form store
  | next {form' function expanded : Value} {arguments : List Value} {store' store'' : Store}
      (h : Met scope form store form' store')
      (hexpansion : expansionOf? store' scope form' = some (function, arguments))
      (hcall : (Task.call function arguments).Ends store' (.ok expanded store''))
      (hvalue : expanded.isError = false) : Met scope form store expanded store''

/-- The head of a form is the symbol of a special form, but bound to an expander. -/
def Clashes (store : Store) (scope : Scope) (form : Value) : Prop :=
  ∃ name tail metadata identity function, form = .list (.symbol name :: tail) metadata identity ∧
    SpecialForm.ofName? name ≠ none ∧ store.lookup? scope name = some function ∧
    function.isExpander = true

variable {scope : Scope} {store store' : Store} {form function expanded : Value}
  {arguments : List Value} {result : EStateM.Result Failure Store Value}

/-- A form that is expanded calls an expander, and is no special form unless there is a clash. -/
theorem exists_of_expansionOf (h : expansionOf? store scope form = some (function, arguments))
    (hclash : ¬ Clashes store scope form) :
    ∃ head metadata identity, form = .list (head :: arguments) metadata identity ∧
      specialForm? head = none := by
  unfold expansionOf? at h
  split at h
  · next name tail metadata identity =>
    split at h
    · next function' hlookup =>
      split at h
      · next hexpander =>
        cases h
        refine ⟨_, metadata, identity, rfl, Classical.byContradiction fun hspecial => ?_⟩
        exact hclash ⟨name, _, metadata, identity, _, rfl, hspecial, hlookup, hexpander⟩
      · cases h
    · cases h
  · cases h

theorem step_expansion (h : expansionOf? store scope form = some (function, arguments))
    (hclash : ¬ Clashes store scope form) (steps : Nat) (run : Runner) :
    (Task.evaluate form scope).step steps run store =
      (run (.call function arguments) >>= fun expanded =>
        if expanded.isError then pure (.done expanded)
        else pure (.tail expanded scope) : EvalM Step) store := by
  obtain ⟨head, metadata, identity, rfl, hspecial⟩ := exists_of_expansionOf h hclash
  rw [Task.step, stepForm, stepList, hspecial]
  dsimp only
  rw [EvalM.get_bind, h]

theorem evaluate_iff_of_expanded (h : expansionOf? store scope form = some (function, arguments))
    (hclash : ¬ Clashes store scope form)
    (hcall : (Task.call function arguments).Ends store (.ok expanded store'))
    (hvalue : expanded.isError = false) (final : EStateM.Result Failure Store Value) :
    (Task.evaluate form scope).Ends store final ↔
      (Task.evaluate expanded scope).Ends store' final := by
  refine Task.StepEnds.next_iff (Ends.congr ?_ fun limits => step_expansion h hclash _ _)
  exact hcall.continues hvalue (ends_pure _)

theorem evaluate_of_stopped (h : expansionOf? store scope form = some (function, arguments))
    (hclash : ¬ Clashes store scope form)
    (hcall : (Task.call function arguments).Ends store result)
    (hstopped : ∀ v store', result = .ok v store' → v.isError = true) :
    (Task.evaluate form scope).Ends store result := by
  refine Task.StepEnds.last (Ends.congr ?_ fun limits => step_expansion h hclash _ _)
  exact hcall.stops hstopped

theorem ends_errorValue (h : form.isError = true) :
    (Task.evaluate form scope).Ends store (.ok form store) := by
  cases form with
  | error message cause => exact Task.StepEnds.last (ends_of_eq id fun _ => rfl)
  | _ => cases h

/-- What is met after the first expansion is met in the whole. -/
theorem Met.after {form' : Value} {store'' : Store}
    (hexpansion : expansionOf? store scope form = some (function, arguments))
    (hcall : (Task.call function arguments).Ends store (.ok expanded store'))
    (hvalue : expanded.isError = false) (h : Met scope expanded store' form' store'') :
    Met scope form store form' store'' := by
  induction h with
  | first => exact .next .first hexpansion hcall hvalue
  | next _ hexpansion' hcall' hvalue' ih => exact .next ih hexpansion' hcall' hvalue'

/-- What has been expanded so far is left out of the evaluation, and what stops the expansion
stops the evaluation. -/
structure Agrees (scope : Scope) (form : Value) (store : Store)
    (result : EStateM.Result Failure Store Value) : Prop where
  expanded : ∀ form' store', result = .ok form' store' → form'.isError = false → ∀ final,
    (Task.evaluate form scope).Ends store final ↔ (Task.evaluate form' scope).Ends store' final
  stopped : (∀ v store', result = .ok v store' → v.isError = true) →
    (Task.evaluate form scope).Ends store result

theorem agrees_of_run {steps depth : Nat} (count : Nat)
    (hmet : ∀ form' store', Met scope form store form' store' → ¬ Clashes store' scope form')
    (hrun : expandFully (runTask steps depth) scope count form store = result)
    (hfinal : ¬ Exhausted result) : Agrees scope form store result := by
  -- each round of the expansion is the first step of the evaluation of the form it starts with
  induction count generalizing form store with
  | zero =>
    subst hrun
    exact absurd trivial hfinal
  | succ count ih =>
    have hclash := hmet form store .first
    rw [expandFully, EvalM.get_bind] at hrun
    cases hexpansion : expansionOf? store scope form with
    | none =>
      simp only [hexpansion] at hrun
      subst hrun
      refine ⟨fun form' store' h _ final => ?_, fun h => ends_errorValue (h form store rfl)⟩
      cases h
      exact Iff.rfl
    | some call =>
      obtain ⟨function, arguments⟩ := call
      simp only [hexpansion, Bind.bind, EStateM.bind] at hrun
      cases hcall : runTask steps depth (.call function arguments) store with
      | error failure store' =>
        simp only [hcall] at hrun
        subst hrun
        exact ⟨nofun, evaluate_of_stopped hexpansion hclash (Task.ends_of_run hcall hfinal)⟩
      | ok expanded store' =>
        simp only [hcall] at hrun
        have hends := Task.ends_of_run hcall id
        by_cases hvalue : expanded.isError = true
        · rw [if_pos hvalue] at hrun
          subst hrun
          refine ⟨fun form' store'' h hne => ?_,
            evaluate_of_stopped hexpansion hclash hends⟩
          cases h
          exact absurd (hvalue.symm.trans hne) nofun
        · rw [if_neg hvalue] at hrun
          have hvalue' := Bool.eq_false_iff.mpr hvalue
          have hstep := evaluate_iff_of_expanded hexpansion hclash hends hvalue'
          obtain ⟨hexpanded, hstopped⟩ := ih
            (fun form' store'' h => hmet form' store'' (.after hexpansion hends hvalue' h)) hrun
          refine ⟨fun form' store'' h hne final => ?_, fun h => ?_⟩
          · exact (hstep final).trans (hexpanded form' store'' h hne final)
          · exact (hstep result).mpr (hstopped h)

theorem ExpansionEnds.of_run {steps depth : Nat}
    (h : expandFully (runTask steps depth) scope steps form store = result)
    (hfinal : ¬ Exhausted result) : ExpansionEnds scope form store result := by
  refine ⟨hfinal, ⟨steps, depth⟩, fun limits hle => ?_⟩
  rw [← h] at hfinal ⊢
  exact approximates_expandFully (runTask_approximates hle.1 hle.2) hle.1 form store hfinal

/-- A form is evaluated as its full expansion is in the store that the expansion left, and an
expansion that is stopped stops the evaluation in the same way. -/
theorem ExpansionEnds.agrees (h : ExpansionEnds scope form store result)
    (hmet : ∀ form' store', Met scope form store form' store' → ¬ Clashes store' scope form') :
    Agrees scope form store result := by
  obtain ⟨hfinal, enough, hrun⟩ := h
  exact agrees_of_run enough.steps hmet (hrun enough ⟨Nat.le_refl _, Nat.le_refl _⟩) hfinal

/-- An expander that returns the form it is called on. -/
theorem ExpansionEnds.agrees_identity :
    let expander := Value.closure 0 ⟨["form"], none⟩ (.symbol "form") (.global 0) true .nil
    let store := (Store.initial .empty "" 0).addFrame [("same", expander)]
    let store' := store.skipIdentity.addFrame [("form", .bool true)]
    let form := Value.ofList [.symbol "same", .bool true]
    ExpansionEnds (.global 0) form store (.ok (.bool true) store') ∧
      (∀ final, (Task.evaluate form (.global 0)).Ends store final ↔
        (Task.evaluate (.bool true) (.global 0)).Ends store' final) := by
  intro expander store store' form
  have hcall : (Task.call expander [.bool true]).Ends store (.ok (.bool true) store') :=
    Task.ends_of_run (rfl : runTask 3 3 _ store = _) id
  have hexpansion : ExpansionEnds (.global 0) form store (.ok (.bool true) store') :=
    .of_run (rfl : expandFully (runTask 3 3) _ 3 _ store = _) id
  have hmet : ∀ form' s, Met (.global 0) form store form' s → ¬ Clashes s (.global 0) form' := by
    have hforms : ∀ form' s, Met (.global 0) form store form' s →
        form' = form ∧ s = store ∨ form' = .bool true := by
      intro form' s h
      induction h with
      | first => exact .inl ⟨rfl, rfl⟩
      | next _ hnext hended _ ih =>
        rcases ih with ⟨rfl, rfl⟩ | rfl
        · cases hnext
          cases hended.unique hcall
          exact .inr rfl
        · cases hnext
    rintro form' s h ⟨name, tail, metadata, identity, function, hlist, hspecial, _⟩
    rcases hforms form' s h with ⟨rfl, rfl⟩ | rfl
    · obtain ⟨hitems, _⟩ := Value.list.inj hlist
      obtain ⟨hhead, _⟩ := List.cons.inj hitems
      cases hhead
      exact hspecial (by decide)
    · cases hlist
  exact ⟨hexpansion, (hexpansion.agrees hmet).expanded _ _ rfl rfl⟩

end SmallLisp
