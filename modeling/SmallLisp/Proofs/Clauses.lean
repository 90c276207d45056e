import SmallLisp.Proofs.BundledPrelude
import SmallLisp.Proofs.ThrownValues

/-! # Clauses

A call of `cond` is expanded one clause at a time: to a branch that has the first test as its
condition, and the call with the other clauses as its alternative. So a test is evaluated only
after the tests before it have not held, and that a test has no body is found out only when its
turn comes.
-/
namespace SmallLisp

variable {scope : Scope} {home : FrameId} {store store' store'' : Store}
  {test body metadata v : Value} {identity : Option Identity} {forms forms' rest : List Value}
  {result : EStateM.Result Failure Store Value}

/-- The store in which the first test is evaluated. The frame is that of the expander, and the
identities are those of the lists that it makes. -/
def Store.testing (store : Store) (forms : List Value) : Store :=
  (store.expanding forms).skipIdentities 4

inductive ClausesPassed (scope : Scope) :
    List Value → Store → List Value → Store → Prop where
  | refl (forms : List Value) (store : Store) : ClausesPassed scope forms store forms store
  | step {test body v : Value} {rest forms' : List Value} {store store' store'' : Store}
      (htest : (Task.evaluate test scope).Ends (store.testing (test :: body :: rest))
        (.ok v store'))
      (hv : v.isError = false) (hfalse : v.isTruthy = false)
      (hrest : ClausesPassed scope rest store' forms' store'') :
      ClausesPassed scope (test :: body :: rest) store forms' store''

inductive ClauseArrives (scope : Scope) : List Value → Store → Arrival → Prop where
  | none (store : Store) :
      ClauseArrives scope [] store (.final (.ok .nil (store.expanding [])))
  | odd (test : Value) (store : Store) :
      ClauseArrives scope [test] store
        (.final (.error (.thrown oddClauses) (store.expanding [test])))
  | failed {test body : Value} {rest : List Value} {store : Store}
      {result : EStateM.Result Failure Store Value}
      (htest : (Task.evaluate test scope).Ends (store.testing (test :: body :: rest)) result)
      (hfails : Fails result) :
      ClauseArrives scope (test :: body :: rest) store (.final (settledEnd result))
  | selected {test body v : Value} {rest : List Value} {store store' : Store}
      (htest : (Task.evaluate test scope).Ends (store.testing (test :: body :: rest))
        (.ok v store'))
      (hv : v.isError = false) (htrue : v.isTruthy = true) :
      ClauseArrives scope (test :: body :: rest) store (.tail ⟨body, scope, store'⟩)

section Expander

variable (h : store.HasClauses scope home)
include h

theorem Store.HasClauses.home_isIn : (Scope.global home).IsIn store :=
  (h.offers (.collection .count) (by decide)).isIn

theorem Store.HasClauses.ends_longerThan (forms : List Value) (n : Int) :
    (Task.evaluate (longerThan n) (store.expanderScope home)).Ends (store.expanding forms)
      (.ok (.bool ((forms.length : Int) > n)) (store.expanding forms)) := by
  have hcount := (h.offers (.collection .count) (by decide)).expanding forms
  have hgreater := (h.offers (.number .greater) (by decide)).expanding forms
  exact ends_greater hgreater (ends_count hcount (ends_forms h.home_isIn forms)) n

theorem Store.HasClauses.ends_none :
    (Task.evaluate condBody (store.expanderScope home)).Ends (store.expanding [])
      (.ok .nil (store.expanding [])) :=
  ends_branch_of_false (h.ends_longerThan [] 0) rfl rfl

/-- The parts of the branch that come before its body. -/
theorem Store.HasClauses.evaluated_test (htest : test.isError = false) (rest : List Value) :
    Evaluated (store.expanderScope home)
      [.ofList [.symbol "quote", .symbol "if"], .ofList [.symbol "first", .symbol "xs"]]
      (store.expanding (test :: rest)) [.symbol "if", test] (store.expanding (test :: rest)) := by
  have hfirst := (h.offers (.collection .first) (by decide)).expanding (test :: rest)
  exact .cons (ends_quote _) rfl
    (.cons (ends_first hfirst (ends_forms h.home_isIn _)) htest (.nil _))

theorem Store.HasClauses.ends_odd (htest : test.isError = false) :
    (Task.evaluate condBody (store.expanderScope home)).Ends (store.expanding [test])
      (.error (.thrown oddClauses) (store.expanding [test])) := by
  have hlist := (h.offers (.collection .list) (by decide)).expanding [test]
  have hthrow := (h.offers (.state .throwValue) (by decide)).expanding [test]
  have hthrown : (Task.evaluate (.ofList [.symbol "throw", oddClauses])
      (store.expanderScope home)).Ends (store.expanding [test])
      (.error (.thrown oddClauses) (store.expanding [test])) := by
    refine hthrow.ends_call (.cons (ends_constant rfl) rfl (.nil _)) fun id home' m => ?_
    rw [← thrownEnd_of_ok (rfl : representValue _ oddClauses = _)]
    exact throw_ends rfl
  have hselected : (Task.evaluate condSelected (store.expanderScope home)).Ends
      (store.expanding [test]) (.error (.thrown oddClauses) (store.expanding [test])) :=
    (tailReaches_alternative (h.ends_longerThan [test] 1) rfl rfl).ends_iff.mpr hthrown
  have hbody : (⟨condBody, store.expanderScope home, store.expanding [test]⟩ :
      Pending).TailReaches ⟨_, _, _⟩ :=
    tailReaches_consequence (Nat.zero_le 1) (h.ends_longerThan [test] 0) rfl rfl
  exact hbody.ends_iff.mpr (hlist.stops (h.evaluated_test htest []) hselected trivial)

/-- A test and its body become a branch whose alternative is the call with the other clauses. -/
theorem Store.HasClauses.ends_clause (htest : test.isError = false) (hbody : body.isError = false)
    (rest : List Value) :
    ∃ identity identity', (Task.evaluate condBody (store.expanderScope home)).Ends
      (store.expanding (test :: body :: rest))
      (.ok (.list [.symbol "if", test, body, .list (.symbol "cond" :: rest) .nil identity] .nil
        identity') (store.testing (test :: body :: rest))) := by
  have hnth := (h.offers (.collection .nth) (by decide)).expanding (test :: body :: rest)
  have hrest := (h.offers (.collection .rest) (by decide)).expanding (test :: body :: rest)
  have hcons := (h.offers (.collection .cons) (by decide)).expanding (test :: body :: rest)
  have hlist := (h.offers (.collection .list) (by decide)).expanding (test :: body :: rest)
  have hforms := ends_forms h.home_isIn (test :: body :: rest)
  have hlonger : ∀ n : Int, n < 2 → decide (((test :: body :: rest).length : Int) > n) = true := by
    intro n hn
    have hlength : (test :: body :: rest).length = rest.length + 2 := rfl
    rw [hlength]
    exact decide_eq_true (by omega)
  have hsecond : (Task.evaluate (.ofList [.symbol "nth", .symbol "xs", .int 1])
      (store.expanderScope home)).Ends (store.expanding (test :: body :: rest))
      (.ok body (store.expanding (test :: body :: rest))) :=
    hnth.ends (.cons hforms rfl (.cons (ends_constant rfl) rfl (.nil _))) fun _ _ => rfl
  have hselected : (Task.evaluate condSelected (store.expanderScope home)).Ends
      (store.expanding (test :: body :: rest))
      (.ok body (store.expanding (test :: body :: rest))) :=
    (tailReaches_consequence (Nat.le_refl _) (h.ends_longerThan _ 1) rfl
      (hlonger 1 (by omega))).ends_iff.mpr hsecond
  have hothers : (Task.evaluate condOthers (store.expanderScope home)).Ends _ _ :=
    hcons.ends (.cons (ends_quote _) rfl (.cons (ends_rest hrest (ends_rest hrest hforms)) rfl
      (.nil _))) fun _ _ => rfl
  have hall := (h.evaluated_test htest (body :: rest)).append
    (.cons hselected hbody (.cons hothers rfl (.nil _)))
  have hreaches : (⟨condBody, store.expanderScope home, store.expanding (test :: body :: rest)⟩ :
      Pending).TailReaches ⟨_, _, _⟩ :=
    tailReaches_consequence (Nat.zero_le 1) (h.ends_longerThan _ 0) rfl (hlonger 0 (by omega))
  exact ⟨_, _, hreaches.ends_iff.mpr (ends_list hlist hall)⟩

end Expander

variable {arrival : Arrival}

theorem cond_not_special : SpecialForm.ofName? "cond" = none := by decide

/-- The first clause comes to a branch in the store in which its test is evaluated. -/
theorem Store.HasClauses.tailReaches_branch (h : store.HasClauses scope home)
    (htest : test.isError = false) (hbody : body.isError = false) (rest : List Value) :
    ∃ others branch : Option Identity,
      (⟨.list (.symbol "cond" :: test :: body :: rest) metadata identity, scope, store⟩ :
        Pending).TailReaches
        ⟨.list [.symbol "if", test, body, .list (.symbol "cond" :: rest) .nil others] .nil branch,
          scope, store.testing (test :: body :: rest)⟩ := by
  obtain ⟨others, branch, hends⟩ := h.ends_clause htest hbody rest
  exact ⟨others, branch, h.expands.handsOn cond_not_special hends rfl⟩

theorem Store.HasClauses.arrivesAt (h : store.HasClauses scope home)
    (hforms : ∀ form ∈ forms, form.isError = false)
    (harrives : ClauseArrives scope forms store arrival) :
    (⟨.list (.symbol "cond" :: forms) metadata identity, scope, store⟩ : Pending).ArrivesAt
      arrival := by
  cases harrives with
  | none =>
    have hnil : (Task.evaluate .nil scope).Ends (store.expanding [])
        (.ok .nil (store.expanding [])) := ends_constant rfl
    exact (h.expands.handsOn cond_not_special h.ends_none rfl).ends_iff.mpr hnil
  | odd test =>
    have hodd := h.ends_odd (hforms test (List.mem_singleton_self test))
    exact h.expands.ends_of_fails cond_not_special hodd nofun
  | failed htest hfails =>
    simp only [List.forall_mem_cons] at hforms
    obtain ⟨_, _, hreaches⟩ := h.tailReaches_branch hforms.1 hforms.2.1 _
    exact hreaches.ends_iff.mpr (ends_branch_of_fails (Nat.le_refl 1) htest hfails)
  | selected htest hv htrue =>
    simp only [List.forall_mem_cons] at hforms
    obtain ⟨_, _, hreaches⟩ := h.tailReaches_branch hforms.1 hforms.2.1 _
    exact hreaches.trans (tailReaches_consequence (Nat.le_refl 1) htest hv htrue)

/-- A clause whose test does not hold hands on to the call with the other clauses. -/
theorem Store.HasClauses.tailReaches_others (h : store.HasClauses scope home)
    (hform : test.isError = false) (hbody : body.isError = false)
    (htest : (Task.evaluate test scope).Ends (store.testing (test :: body :: rest)) (.ok v store'))
    (hv : v.isError = false) (hfalse : v.isTruthy = false) :
    ∃ others, (⟨.list (.symbol "cond" :: test :: body :: rest) metadata identity, scope, store⟩ :
      Pending).TailReaches ⟨.list (.symbol "cond" :: rest) .nil others, scope, store'⟩ := by
  obtain ⟨others, _, hreaches⟩ := h.tailReaches_branch hform hbody rest
  exact ⟨others, hreaches.trans (tailReaches_alternative htest hv hfalse)⟩

theorem ClausesPassed.tailReaches (h : ClausesPassed scope forms store forms' store')
    (hforms : ∀ form ∈ forms, form.isError = false)
    (hcond : ∀ forms' store', ClausesPassed scope forms store forms' store' →
      store'.HasClauses scope home) (metadata : Value) (identity : Option Identity) :
    ∃ metadata' identity', (⟨.list (.symbol "cond" :: forms) metadata identity, scope, store⟩ :
      Pending).TailReaches ⟨.list (.symbol "cond" :: forms') metadata' identity', scope, store'⟩ ∧
      ∀ form ∈ forms', form.isError = false := by
  induction h generalizing metadata identity with
  | refl => exact ⟨metadata, identity, .refl, hforms⟩
  | step htest hv hfalse _ ih =>
    simp only [List.forall_mem_cons] at hforms
    have hnow := hcond _ _ (.refl _ _)
    obtain ⟨others, hreaches⟩ := hnow.tailReaches_others hforms.1 hforms.2.1 htest hv hfalse
    obtain ⟨_, _, hothers, hrest⟩ := ih hforms.2.2
      (fun _ _ hpassed => hcond _ _ (.step htest hv hfalse hpassed)) .nil others
    exact ⟨_, _, hreaches.trans hothers, hrest⟩

/-- A call that has an end gets somewhere by way of one of its tests. -/
theorem exists_clauseArrives :
    ∀ {forms : List Value} {store : Store} {metadata : Value} {identity : Option Identity},
      (∀ form ∈ forms, form.isError = false) →
      (∀ forms' store', ClausesPassed scope forms store forms' store' →
        store'.HasClauses scope home) →
      (⟨.list (.symbol "cond" :: forms) metadata identity, scope, store⟩ : Pending).Ends result →
      ∃ forms' store' arrival, ClausesPassed scope forms store forms' store' ∧
        ClauseArrives scope forms' store' arrival
  | [], store, _, _, _, _, _ => ⟨_, _, _, .refl _ _, .none store⟩
  | [test], store, _, _, _, _, _ => ⟨_, _, _, .refl _ _, .odd test store⟩
  | test :: body :: rest, store, _, _, hforms, hcond, hends => by
    simp only [List.forall_mem_cons] at hforms
    obtain ⟨hform, hbody, hrest⟩ := hforms
    have hnow := hcond _ _ (.refl _ _)
    obtain ⟨others, branch, hreaches⟩ := hnow.tailReaches_branch hform hbody rest
    obtain ⟨final, htest⟩ := exists_ends_condition (hreaches.ends_iff.mp hends) (Nat.le_refl 1)
    rcases fails_or_value final with hfails | ⟨v, store', rfl, hv⟩
    · exact ⟨_, _, _, .refl _ _, .failed htest hfails⟩
    · cases hv' : v.isTruthy with
      | true => exact ⟨_, _, _, .refl _ _, .selected htest hv hv'⟩
      | false =>
        have hothers := (tailReaches_alternative htest hv hv').ends_iff.mp
          (hreaches.ends_iff.mp hends)
        obtain ⟨_, _, _, hpassed, harrives⟩ := exists_clauseArrives hrest
          (fun _ _ hpassed => hcond _ _ (.step htest hv hv' hpassed)) hothers
        exact ⟨_, _, _, .step htest hv hv' hpassed, harrives⟩

/-- Tests are evaluated in order, each once and only after those before it have not held. The call
gets to the body of the first test that holds, ends as the first test that fails, and ends by
itself if the clauses run out: with `nil`, or by throwing if a test has no body. It has no other
end. -/
theorem cond_arrives (hforms : ∀ form ∈ forms, form.isError = false)
    (hcond : ∀ forms' store', ClausesPassed scope forms store forms' store' →
      store'.HasClauses scope home) :
    (∀ forms' store' arrival, ClausesPassed scope forms store forms' store' →
      ClauseArrives scope forms' store' arrival →
      (⟨.list (.symbol "cond" :: forms) metadata identity, scope, store⟩ : Pending).ArrivesAt
        arrival) ∧
    ((∃ result, (⟨.list (.symbol "cond" :: forms) metadata identity, scope, store⟩ :
      Pending).Ends result) →
      ∃ forms' store' arrival, ClausesPassed scope forms store forms' store' ∧
        ClauseArrives scope forms' store' arrival) := by
  refine ⟨fun forms' store' arrival hpassed harrives => ?_, fun ⟨_, hends⟩ =>
    exists_clauseArrives hforms hcond hends⟩
  obtain ⟨_, _, hreaches, hrest⟩ := hpassed.tailReaches hforms hcond metadata identity
  exact hreaches.arrivesAt ((hcond _ _ hpassed).arrivesAt hrest harrives)

/-- The expander leaves what the names stand for as it is. -/
theorem Store.HasClauses.testing (h : store.HasClauses scope home) (hscope : scope.IsIn store)
    (forms : List Value) : (store.testing forms).HasClauses scope home := by
  exact h.of_lookup (Store.lookup?_addFrame hscope _ _) fun name =>
    Store.lookup?_addFrame h.home_isIn _ name

/-- The second of two tests holds. -/
theorem cond_arrives_second :
    let forms := [.bool false, .int 1, .str "x", .int 2]
    ∃ session store home,
      Session.start (Limits.runner ⟨9, 9⟩) [] [] true (.initial .empty "" 0) = .ok session store ∧
      (∀ form ∈ forms, form.isError = false) ∧
      (∀ forms' store', ClausesPassed session.scope forms store forms' store' →
        store'.HasClauses session.scope home) ∧
      ∃ store', (⟨.ofList (.symbol "cond" :: forms), session.scope, store⟩ : Pending).ArrivesAt
        (.tail ⟨.int 2, session.scope, store'⟩) := by
  intro forms
  obtain ⟨session, store, home, _, hstart, hscope, hclauses, -⟩ := exists_start_bundled
  have hforms : ∀ form ∈ forms, form.isError = false := by decide
  have hfalse : (Task.evaluate (.bool false) session.scope).Ends (store.testing forms)
      (.ok (.bool false) (store.testing forms)) := ends_constant rfl
  have hisIn : session.scope.IsIn store := hscope ▸ hclauses.home_isIn
  have hpassed : ∀ forms' store', ClausesPassed session.scope forms store forms' store' →
      store'.HasClauses session.scope home := by
    show ∀ forms' store', ClausesPassed session.scope [.bool false, .int 1, .str "x", .int 2] store
      forms' store' → _
    intro forms' store' hpassed
    cases hpassed with
    | refl => exact hclauses
    | step htest _ _ hrest =>
      cases htest.unique hfalse
      cases hrest with
      | refl => exact hclauses.testing hisIn forms
      | step htest _ hholds _ =>
        cases htest.unique (ends_constant rfl)
        cases hholds
  have hfirst : ClausesPassed session.scope forms store [.str "x", .int 2]
      (store.testing forms) := .step hfalse rfl rfl (.refl _ _)
  have hsecond : ClauseArrives session.scope [.str "x", .int 2] (store.testing forms) (.tail _) :=
    .selected (ends_constant rfl) rfl rfl
  exact ⟨session, store, home, hstart, hforms, hpassed, _,
    (cond_arrives hforms hpassed).1 _ _ _ hfirst hsecond⟩

end SmallLisp
