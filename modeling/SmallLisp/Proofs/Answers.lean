import SmallLisp.Proofs.PrintableValues
import SmallLisp.Proofs.ReachedStates

/-! # The parts of an answer

An answer is read, evaluated and printed. What a text that cannot be read, a failure and an error
value come to is said here once.
-/
namespace SmallLisp

instance {α : Type} [DecidableEq α] (a : α) : (result : EStateM.Result Failure Store α) →
    Decidable (∃ store, result = .ok a store)
  | .error _ _ => .isFalse nofun
  | .ok b store =>
    if h : b = a then .isTrue ⟨store, h ▸ rfl⟩ else .isFalse fun ⟨_, hsame⟩ => by
      cases hsame
      exact h rfl

instance {α : Type} (reason : Abort) : (result : EStateM.Result Failure Store α) →
    Decidable (∃ store, result = .error (.abort reason) store)
  | .ok _ _ => .isFalse nofun
  | .error (.fault _) _ => .isFalse nofun
  | .error (.thrown _) _ => .isFalse nofun
  | .error (.abort reason') store =>
    if h : reason' = reason then .isTrue ⟨store, h ▸ rfl⟩
    else .isFalse fun ⟨_, hsame⟩ => by cases hsame; exact h rfl

variable {session : Session} {store store' : Store} {source : String} {forms : List Value}
  {v : Value} {limits : Limits} {run : Runner} {scope : Scope}

/-- What comes of reading a text: a mistake, a literal that is too long, nothing, or forms. -/
inductive ReadingEnds (source : String) : Prop where
  | unreadable {f : Fault} (hread : readForms source = .error (.fault f))
  | overlong {digits : Nat} (hread : readForms source = .error (.longLiteral digits))
  | blank (hread : readForms source = .ok [])
  | forms {forms : List Value} (hread : readForms source = .ok forms) (hforms : forms ≠ [])

theorem readingEnds (source : String) : ReadingEnds source := by
  cases hread : readForms source with
  | error e =>
    cases e with
    | fault f => exact .unreadable hread
    | longLiteral digits => exact .overlong hread
  | ok forms =>
    cases forms with
    | nil => exact .blank hread
    | cons form forms => exact .forms hread (List.cons_ne_nil form forms)

theorem answerText_eq (v : Value) (store : Store) :
    answerText v store =
      match printValue store.heap true v with
      | .ok text => .ok (if v.isError then failureHeading ++ text else text) store
      | .error reason => .error (.abort reason) store := by
  simp only [answerText, Bind.bind, EStateM.bind, EvalM.print_eq]
  cases printValue store.heap true v with
  | ok text => rfl
  | error reason => rfl

theorem failureHeading_prefix (text : String) :
    failureHeading.toList <+: (failureHeading ++ text).toList := by
  rw [String.toList_append]
  exact List.prefix_append _ _

theorem answer_unreadable {f : Fault} (hread : readForms source = .error (.fault f))
    (store : Store) :
    ∃ text, answer run scope source store = .ok text store ∧
      failureHeading.toList <+: text.toList := by
  have hplain := readForms_plain source
  rw [hread] at hplain
  obtain ⟨message, hmessage⟩ := ReadingError.Plain.exists_message hplain store.heap
  have hprinted : printValue store.heap true (.error message none) =
      .ok (String.ofList message.toList) := rfl
  refine ⟨_, ?_, failureHeading_prefix (String.ofList message.toList)⟩
  simp only [answer, hread, Bind.bind, EStateM.bind, EvalM.errorOf_eq, hmessage, answerText_eq,
    hprinted]
  rfl

theorem answer_forms (hread : readForms source = .ok forms) (hforms : forms ≠ []) :
    answer run scope source =
      (do answerText (← catchUncaught (evaluateForms run scope forms))) := by
  unfold answer
  rw [hread]
  cases forms with
  | nil => exact absurd rfl hforms
  | cons form forms => rfl

namespace EvalM

theorem storeAfter_bind {α β : Type} (x : EvalM α) {f : α → EvalM β}
    (hf : ∀ a store, storeAfter (f a) store = store) (store : Store) :
    storeAfter (x >>= f) store = storeAfter x store := by
  simp only [storeAfter, Bind.bind, EStateM.bind]
  cases x store with
  | ok a store' => exact hf a store'
  | error failure store' => rfl

theorem storeAfter_errorOf (f : Fault) (store : Store) : storeAfter (errorOf f) store = store := by
  rw [storeAfter, errorOf_eq]
  cases f.message store.heap with
  | ok message => rfl
  | error reason => rfl

end EvalM

theorem storeAfter_answerText (v : Value) (store : Store) :
    EvalM.storeAfter (answerText v) store = store := by
  rw [EvalM.storeAfter, answerText_eq]
  cases printValue store.heap true v with
  | ok text => rfl
  | error reason => rfl

theorem storeAfter_catchUncaught (x : EvalM Value) (store : Store) :
    EvalM.storeAfter (catchUncaught x) store = EvalM.storeAfter x store := by
  unfold EvalM.storeAfter catchUncaught
  cases x store with
  | ok v store' => rfl
  | error failure store' =>
    cases failure with
    | abort reason => cases reason <;> rfl
    | _ => rfl

theorem catchUncaught_eq_error {evaluation : EvalM Value} {failure : Failure}
    (h : catchUncaught evaluation store = .error failure store')
    (hfault : ∀ f store', evaluation store ≠ .error (.fault f) store') :
    ∃ reason, failure = .abort reason ∧ evaluation store = .error (.abort reason) store' ∧
      reason ≠ .exhausted ∧ reason ≠ .endless := by
  unfold catchUncaught at h
  cases hr : evaluation store with
  | ok v store'' =>
    rw [hr] at h
    cases h
  | error failure' store'' =>
    rw [hr] at h
    cases failure' with
    | fault f => exact absurd hr (hfault f store'')
    | thrown payload => cases h
    | abort reason =>
      cases reason with
      | exhausted => cases h
      | endless => cases h
      | _ =>
        cases h
        exact ⟨_, rfl, rfl, nofun, nofun⟩

end SmallLisp
