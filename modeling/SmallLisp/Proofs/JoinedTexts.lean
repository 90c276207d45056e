import SmallLisp.Proofs.Answers
import SmallLisp.Proofs.EvaluationRules
import SmallLisp.Proofs.Grammar

/-! # Texts that are joined

Two texts with a line feed between them are read as the forms of the first and then those of the
second. So giving a session both at once is the same as giving it one after the other, except that
a failure in the first keeps the second from being evaluated.
-/
namespace SmallLisp

variable {run : Runner} {scope : Scope} {store store' : Store} {a b : String}
  {forms others : List Value}

theorem readForms_joined (ha : readForms a = .ok forms) (hb : readForms b = .ok others) :
    readForms (a ++ "\n" ++ b) = .ok (forms ++ others) := by
  obtain ⟨htokens, trees, htrees, hforms⟩ := readForms_eq_ok_iff.mp ha
  obtain ⟨htokens', trees', htrees', hothers⟩ := readForms_eq_ok_iff.mp hb
  have hjoined := tokenize_line_feed (fun token ht => (htokens token ht).2) b
  refine readForms_eq_ok_iff.mpr ⟨?_, trees ++ trees', ?_, hforms.append hothers⟩
  · rw [hjoined]
    exact List.forall_mem_append.mpr ⟨htokens, htokens'⟩
  · rw [hjoined, FormTree.tokensAll_append, htrees, htrees']

inductive Completed (run : Runner) (scope : Scope) : List Value → Store → Store → Prop where
  | nil (store : Store) : Completed run scope [] store store
  | cons {form v : Value} {forms : List Value} {store store' store'' : Store}
      (hform : run (.evaluate form scope) store = .ok v store') (hv : v.isError = false)
      (hforms : Completed run scope forms store' store'') :
      Completed run scope (form :: forms) store store''

/-- The runner carries out the forms themselves as another one does. -/
def Runner.AgreesOn (run run' : Runner) (scope : Scope) (forms : List Value) : Prop :=
  ∀ form ∈ forms, run (.evaluate form scope) = run' (.evaluate form scope)

theorem evaluateForms_cons {form : Value} (h : others ≠ []) :
    evaluateForms run scope (form :: others) =
      run (.evaluate form scope) >>= fun v =>
        if v.isError then pure v else evaluateForms run scope others := by
  rw [evaluateForms]
  exact h

/-- Forms that have others after them are evaluated first, and the others if there is no error
value. -/
theorem evaluateForms_append (forms : List Value) (h : others ≠ []) :
    evaluateForms run scope (forms ++ others) =
      evaluateForms run scope forms >>= fun v =>
        if v.isError then pure v else evaluateForms run scope others := by
  induction forms with
  | nil => rfl
  | cons form forms ih =>
    by_cases hforms : forms = []
    · subst hforms
      exact evaluateForms_cons h
    · rw [List.cons_append, evaluateForms_cons (List.append_ne_nil_of_left_ne_nil hforms _),
        evaluateForms_cons hforms, ih, bind_assoc]
      refine bind_congr fun v => ?_
      cases hv : v.isError with
      | true => simp [hv]
      | false => simp

theorem Completed.evaluateForms (h : Completed run scope forms store store') :
    ∃ v, SmallLisp.evaluateForms run scope forms store = .ok v store' ∧ v.isError = false := by
  induction h with
  | nil store => exact ⟨.nil, rfl, rfl⟩
  | @cons form v forms _ _ _ hform hv hforms ih =>
    by_cases hne : forms = []
    · subst hne
      cases hforms
      exact ⟨v, hform, hv⟩
    · rw [evaluateForms_cons hne]
      simp only [Bind.bind, EStateM.bind, hform, hv]
      exact ih

theorem Completed.evaluateForms_append (h : Completed run scope forms store store')
    (hothers : others ≠ []) :
    SmallLisp.evaluateForms run scope (forms ++ others) store =
      SmallLisp.evaluateForms run scope others store' := by
  obtain ⟨v, heval, hv⟩ := h.evaluateForms
  rw [SmallLisp.evaluateForms_append forms hothers]
  simp only [Bind.bind, EStateM.bind, heval, hv]
  rfl

theorem Stops.evaluateForms_append (h : Stops (evaluateForms run scope forms store))
    (hothers : others ≠ []) :
    evaluateForms run scope (forms ++ others) store = evaluateForms run scope forms store := by
  rw [SmallLisp.evaluateForms_append forms hothers]
  simp only [Bind.bind, EStateM.bind]
  cases heval : evaluateForms run scope forms store with
  | ok v store' =>
    have hv : v.isError = true := h.isError v store' heval
    simp only [hv]
    rfl
  | error failure store' => rfl

theorem Runner.AgreesOn.evaluateForms {run' : Runner} (h : run.AgreesOn run' scope forms) :
    SmallLisp.evaluateForms run scope forms = SmallLisp.evaluateForms run' scope forms := by
  induction forms with
  | nil => rfl
  | cons form forms ih =>
    obtain ⟨hform, hrest⟩ := List.forall_mem_cons.mp h
    by_cases hforms : forms = []
    · subst hforms
      exact hform
    · rw [evaluateForms_cons hforms, evaluateForms_cons hforms, hform, ih hrest]

theorem Completed.answer_store {source text : String} {storeA : Store}
    (h : Completed run scope forms store store') (hread : readForms source = .ok forms)
    (hanswer : answer run scope source store = .ok text storeA) : storeA = store' := by
  by_cases hforms : forms = []
  · subst hforms
    cases h
    rw [answer, hread] at hanswer
    cases hanswer
    rfl
  · obtain ⟨v, heval, hv⟩ := h.evaluateForms
    rw [answer_forms hread hforms] at hanswer
    simp only [Bind.bind, EStateM.bind, catchUncaught, heval, answerText_eq] at hanswer
    cases hprint : printValue store'.heap true v with
    | ok text' =>
      rw [hprint] at hanswer
      cases hanswer
      rfl
    | error reason =>
      rw [hprint] at hanswer
      cases hanswer

/-- The answer to forms depends only on how their evaluation ends. -/
theorem answer_congr {run' : Runner} {source source' : String}
    (hread : readForms source = .ok forms) (hforms : forms ≠ [])
    (hread' : readForms source' = .ok others) (hothers : others ≠ [])
    (heval : evaluateForms run scope forms store = evaluateForms run' scope others store') :
    answer run scope source store = answer run' scope source' store' := by
  rw [answer_forms hread hforms, answer_forms hread' hothers]
  simp only [Bind.bind, EStateM.bind, catchUncaught, heval]

/-- A text that cannot be read is answered without the runner. -/
theorem answer_of_unreadable {source : String} {e : ReadingError}
    (hread : readForms source = .error e) (store : Store) :
    ∃ outcome, ∀ run scope, answer run scope source store = EvalM.ofAbort outcome store := by
  cases e with
  | fault f =>
    have hsame : ∀ run scope, answer run scope source store =
        (do answerText (← EvalM.errorOf f)) store := by
      intro run scope
      rw [answer, hread]
    obtain ⟨text, hanswer, _⟩ := @answer_unreadable source (fun _ => pure .nil) (.global 0) f hread
      store
    rw [hsame] at hanswer
    exact ⟨.ok text, fun run scope => (hsame run scope).trans hanswer⟩
  | longLiteral digits =>
    refine ⟨.error (.longLiteral digits), fun run scope => ?_⟩
    rw [answer, hread]
    rfl

/-- Joining two texts joins their answers: after forms without a failure the answer is the one
that the second text is given by itself, and after a failure the one that the first is given,
whatever is done with the forms of the second. A text that cannot be read is answered the same
whatever is done with forms, and leaves the store as it is. -/
theorem Session.answer_joined (session : Session) (store : Store)
    (ha : readForms a = .ok forms) (hb : readForms b = .ok others) (hothers : others ≠ []) :
    (∀ store' text storeA, Completed session.run session.scope forms store store' →
      session.answer a store = .ok text storeA →
      session.answer (a ++ "\n" ++ b) store = session.answer b storeA) ∧
    (Stops (evaluateForms session.run session.scope forms store) →
      ∀ run : Runner, run.AgreesOn session.run session.scope forms →
        SmallLisp.answer run session.scope (a ++ "\n" ++ b) store = session.answer a store) ∧
    ∀ source e, readForms source = .error e → ∃ outcome, ∀ run,
      SmallLisp.answer run session.scope source store = EvalM.ofAbort outcome store := by
  have hjoined := readForms_joined ha hb
  have hne : forms ++ others ≠ [] := List.append_ne_nil_of_right_ne_nil forms hothers
  refine ⟨fun store' text storeA hcompleted hanswer => ?_, fun hstops run hagrees => ?_,
    fun source e hread => ?_⟩
  · have hstore := hcompleted.answer_store ha hanswer
    subst hstore
    exact answer_congr hjoined hne hb hothers (hcompleted.evaluateForms_append hothers)
  · have hforms : forms ≠ [] := by
      rintro rfl
      cases hstops
    refine answer_congr hjoined hne ha hforms ?_
    rw [← hagrees.evaluateForms] at hstops ⊢
    exact hstops.evaluateForms_append hothers
  · obtain ⟨outcome, h⟩ := answer_of_unreadable hread store
    exact ⟨outcome, fun run => h run session.scope⟩

/-- A definition and a thrown value before a text in which the name is used. -/
theorem Session.answer_joined_definition :
    let limits : Limits := ⟨9, 9⟩
    ∃ session store, Session.start limits.runner [] [] false (.initial .empty "" 0) =
        .ok session store ∧
      (∃ storeA, session.answer "(def! a true) ; one" store = .ok "true" storeA ∧
        session.answer ("(def! a true) ; one" ++ "\n" ++ "a") store = session.answer "a" storeA) ∧
      session.answer ("(throw true)" ++ "\n" ++ "a") store =
        session.answer "(throw true)" store := by
  intro limits
  obtain ⟨session, store, hstart⟩ := start_bare limits.runner [] .empty "" 0
  have hread : readForms "(def! a true) ; one" =
      .ok [.ofList [.symbol "def!", .symbol "a", .bool true]] := rfl
  have hread' : readForms "(throw true)" = .ok [.ofList [.symbol "throw", .bool true]] := rfl
  have hname : readForms "a" = .ok [.symbol "a"] := rfl
  have hvalue : ∃ store', session.run (.evaluate (.ofList [.symbol "def!", .symbol "a", .bool true])
      session.scope) store = .ok (.bool true) store' := by
    cases hstart
    exact ⟨_, rfl⟩
  have hthrown : Stops (evaluateForms session.run session.scope
      [.ofList [.symbol "throw", .bool true]] store) := by
    cases hstart
    trivial
  obtain ⟨store', hvalue⟩ := hvalue
  have hanswer : session.answer "(def! a true) ; one" store = .ok "true" store' := by
    rw [Session.answer, answer_forms hread (List.cons_ne_nil _ _)]
    simp only [Bind.bind, EStateM.bind, catchUncaught, evaluateForms, hvalue, answerText_eq]
    rfl
  have hne : [Value.symbol "a"] ≠ [] := List.cons_ne_nil _ _
  refine ⟨session, store, hstart, ⟨store', hanswer, ?_⟩, ?_⟩
  · exact (session.answer_joined store hread hname hne).1 store' "true" store'
      (.cons hvalue rfl (.nil store')) hanswer
  · exact (session.answer_joined store hread' hname hne).2.1 hthrown session.run fun _ _ => rfl

end SmallLisp
