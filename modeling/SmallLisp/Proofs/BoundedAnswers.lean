import SmallLisp.Proofs.Answers
import SmallLisp.Proofs.BoundedPrinting
import SmallLisp.Proofs.ReadingDepth

/-! # When a session has no answer

A session answers every text, whatever it does wrong, unless the text is nested too deep or has a
literal that is too long, the evaluation is given up for a reason other than its length, the console
fails, or the resulting value cannot be printed within the levels. Then that reason leaves the
session, and the next text finds it as the evaluation has left it.
-/
namespace SmallLisp

inductive Session.Escapes (session : Session) (levels : Levels) (store : Store) (source : String) :
    Abort → Prop where
  | nesting (hdeep : isTooDeep levels.reading source = true) :
      Escapes session levels store source .exhausted
  | literal {digits : Nat} (hflat : isTooDeep levels.reading source = false)
      (hread : readForms source = .error (.longLiteral digits)) :
      Escapes session levels store source (.longLiteral digits)
  | console {forms : List Value} {fault : ConsoleFault} {store' : Store}
      (hflat : isTooDeep levels.reading source = false) (hread : readForms source = .ok forms)
      (hevaluated : evaluateForms session.run session.scope forms store =
        .error (.abort (.console fault)) store') :
      Escapes session levels store source (.console fault)
  | evaluating {forms : List Value} {reason : Abort} {store' : Store}
      (hflat : isTooDeep levels.reading source = false) (hread : readForms source = .ok forms)
      (hevaluated : evaluateForms session.run session.scope forms store =
        .error (.abort reason) store')
      (hexhausted : reason ≠ .exhausted) (hendless : reason ≠ .endless)
      (hconsole : ∀ fault, reason ≠ .console fault) :
      Escapes session levels store source reason
  | printing {forms : List Value} {v : Value} {reason : Abort} {store' : Store}
      (hflat : isTooDeep levels.reading source = false) (hread : readForms source = .ok forms)
      (hforms : forms ≠ [])
      (hevaluated : catchUncaught (evaluateForms session.run session.scope forms) store =
        .ok v store')
      (hprintable : ¬ PrintableWithin store'.heap (levels.printing + 1) v)
      (hprinted : printWithin (levels.printing + 1) store'.heap true v = .error reason)
      (hreason : reason.OfBoundedPrinting) : Escapes session levels store source reason

/-- A text cannot be read, or the evaluation of its forms fails in a way that has an answer. -/
inductive Session.Fails (session : Session) (store : Store) (source : String) : Prop where
  | unreadable {f : Fault} (hread : readForms source = .error (.fault f))
  | erroneous {forms : List Value} {v : Value} {store' : Store}
      (hread : readForms source = .ok forms)
      (hevaluated : evaluateForms session.run session.scope forms store = .ok v store')
      (hv : v.isError = true)
  | thrown {forms : List Value} {payload : Value} {store' : Store}
      (hread : readForms source = .ok forms)
      (hevaluated : evaluateForms session.run session.scope forms store =
        .error (.thrown payload) store')
  | givenUp {forms : List Value} {reason : Abort} {store' : Store}
      (hread : readForms source = .ok forms)
      (hevaluated : evaluateForms session.run session.scope forms store =
        .error (.abort reason) store')
      (hreason : reason = .exhausted ∨ reason = .endless)

/-- An answer is given if nothing stands against it, and tells a failure by its heading. What is
given instead is the reason, and no fault or thrown value. -/
def Session.AnswerEnds (session : Session) (levels : Levels) (store : Store) (source : String) :
    EStateM.Result Failure Store String → Prop
  | .ok text _ => (∀ reason, ¬ session.Escapes levels store source reason) ∧
      (session.Fails store source → failureHeading.toList <+: text.toList)
  | .error (.abort reason) _ => session.Escapes levels store source reason ∧ reason.Genuine store
  | .error _ _ => False

variable {session : Session} {store store' : Store} {source : String} {forms : List Value}
  {v : Value} {limits : Limits} {run : Runner} {scope : Scope} {levels : Levels}

theorem answerTextWithin_eq (levels : Nat) (v : Value) (store : Store) :
    answerTextWithin levels v store =
      match printWithin (levels + 1) store.heap true v with
      | .ok text => .ok (if v.isError then failureHeading ++ text else text) store
      | .error reason => .error (.abort reason) store := by
  rw [answerTextWithin, EvalM.get_bind]
  cases printWithin (levels + 1) store.heap true v with
  | ok text => rfl
  | error reason => rfl

theorem answerWithin_deep (hdeep : isTooDeep levels.reading source = true) :
    answerWithin levels run scope source = EvalM.abort .exhausted := if_pos hdeep

theorem answerWithin_flat (hflat : isTooDeep levels.reading source = false) :
    answerWithin levels run scope source =
      match readForms source with
      | .error (.fault f) => (do answerTextWithin levels.printing (← EvalM.errorOf f))
      | .error (.longLiteral digits) => EvalM.abort (.longLiteral digits)
      | .ok [] => pure ""
      | .ok forms => (do
        answerTextWithin levels.printing (← catchUncaught (evaluateForms run scope forms))) :=
  if_neg (Bool.eq_false_iff.mp hflat)

theorem answerWithin_forms (hflat : isTooDeep levels.reading source = false)
    (hread : readForms source = .ok forms) (hforms : forms ≠ []) :
    answerWithin levels run scope source =
      (do answerTextWithin levels.printing (← catchUncaught (evaluateForms run scope forms))) := by
  rw [answerWithin_flat hflat, hread]
  cases forms with
  | nil => exact absurd rfl hforms
  | cons form forms => rfl

theorem answerWithin_unreadable {f : Fault} (hflat : isTooDeep levels.reading source = false)
    (hread : readForms source = .error (.fault f)) (store : Store) :
    ∃ text, answerWithin levels run scope source store = .ok text store ∧
      answer run scope source store = .ok text store ∧ failureHeading.toList <+: text.toList := by
  have hplain := readForms_plain source
  rw [hread] at hplain
  obtain ⟨message, hmessage⟩ := ReadingError.Plain.exists_message hplain store.heap
  obtain ⟨text, hanswer, hheading⟩ := answer_unreadable hread store
  refine ⟨text, ?_, hanswer, hheading⟩
  have hprinted : printValue store.heap true (.error message none) =
      .ok (String.ofList message.toList) := rfl
  have hwithin : printWithin (levels.printing + 1) store.heap true (.error message none) =
      .ok (String.ofList message.toList) := rfl
  rw [← hanswer, answerWithin_flat hflat, answer, hread]
  simp only [Bind.bind, EStateM.bind, EvalM.errorOf_eq, hmessage, answerText_eq,
    answerTextWithin_eq, hprinted, hwithin]

theorem answerTextWithin_eq_ok {levels : Nat} {text : String}
    (h : answerTextWithin levels v store = .ok text store') :
    answerText v store = .ok text store' := by
  rw [answerTextWithin_eq] at h
  cases hprinted : printWithin (levels + 1) store.heap true v with
  | error reason =>
    rw [hprinted] at h
    cases h
  | ok printed =>
    rw [hprinted] at h
    rw [answerText_eq, printValue_of_within hprinted]
    exact h

theorem exists_levels_of_answerText {text : String} (h : answerText v store = .ok text store') :
    ∃ enough, ∀ levels ≥ enough, answerTextWithin levels v store = .ok text store' := by
  rw [answerText_eq] at h
  cases hprinted : printValue store.heap true v with
  | error reason =>
    rw [hprinted] at h
    cases h
  | ok printed =>
    rw [hprinted] at h
    obtain ⟨enough, henough⟩ := exists_levels_of_printValue hprinted
    refine ⟨enough, fun levels hle => ?_⟩
    rw [answerTextWithin_eq, henough (levels + 1) (Nat.le_succ_of_le hle)]
    exact h

theorem answer_of_within {text : String}
    (h : answerWithin levels run scope source store = .ok text store') :
    answer run scope source store = .ok text store' := by
  cases hdeep : isTooDeep levels.reading source with
  | true =>
    rw [answerWithin_deep hdeep] at h
    cases h
  | false =>
    cases readingEnds source with
    | unreadable hread =>
      obtain ⟨text', hwithin, hanswer, _⟩ := answerWithin_unreadable hdeep hread store
      rw [← h, hwithin, hanswer]
    | overlong hread =>
      rw [answerWithin_flat hdeep, hread] at h
      cases h
    | blank hread =>
      rw [answerWithin_flat hdeep, hread] at h
      rw [← h, answer, hread]
    | forms hread hforms =>
      rw [answerWithin_forms hdeep hread hforms] at h
      obtain ⟨v, store₁, hcaught, hanswer⟩ := bind_eq_ok h
      rw [answer_forms hread hforms]
      simp only [Bind.bind, EStateM.bind, hcaught]
      exact answerTextWithin_eq_ok hanswer

/-- What is answered within some levels is the answer, and every answer is given within enough. -/
theorem Session.answer_eq_ok_iff {text : String} :
    session.answer source store = .ok text store' ↔
      ∃ enough, ∀ levels : Levels, enough ≤ levels.reading → enough ≤ levels.printing →
        session.answerWithin levels source store = .ok text store' := by
  constructor
  · intro h
    rw [Session.answer] at h
    -- so many levels are enough for the text, however it is nested
    have hflat : ∀ levels ≥ (tokenize source).length, isTooDeep levels source = false :=
      fun levels hle => isTooDeep_eq_false hle
    cases readingEnds source with
    | unreadable hread =>
      refine ⟨(tokenize source).length, fun levels hle _ => ?_⟩
      obtain ⟨text', hwithin, hanswer, _⟩ :=
        answerWithin_unreadable (hflat levels.reading hle) hread store
      rw [Session.answerWithin, hwithin, ← hanswer, h]
    | overlong hread =>
      rw [SmallLisp.answer, hread] at h
      cases h
    | blank hread =>
      refine ⟨(tokenize source).length, fun levels hle _ => ?_⟩
      rw [Session.answerWithin, answerWithin_flat (hflat levels.reading hle), hread, ← h,
        SmallLisp.answer, hread]
    | forms hread hforms =>
      rw [answer_forms hread hforms] at h
      obtain ⟨v, store₁, hcaught, hanswer⟩ := bind_eq_ok h
      obtain ⟨enough, henough⟩ := exists_levels_of_answerText hanswer
      refine ⟨max (tokenize source).length enough, fun levels hreading hprinting => ?_⟩
      rw [Session.answerWithin, answerWithin_forms (hflat levels.reading (by omega)) hread hforms]
      simp only [Bind.bind, EStateM.bind, hcaught]
      exact henough levels.printing (by omega)
  · rintro ⟨enough, h⟩
    exact answer_of_within (h ⟨enough, enough⟩ (Nat.le_refl _) (Nat.le_refl _))

theorem storeAfter_answerTextWithin (levels : Nat) (v : Value) (store : Store) :
    EvalM.storeAfter (answerTextWithin levels v) store = store := by
  rw [EvalM.storeAfter, answerTextWithin_eq]
  cases printWithin (levels + 1) store.heap true v with
  | ok text => rfl
  | error reason => rfl

/-- Reading and printing leave the store alone, so a bounded answer leaves what the answer leaves,
unless nothing has been evaluated. -/
theorem storeAfter_answerWithin (levels : Levels) (source : String) (store : Store) :
    EvalM.storeAfter (session.answerWithin levels source) store = store ∨
      EvalM.storeAfter (session.answerWithin levels source) store =
        EvalM.storeAfter (session.answer source) store := by
  rw [Session.answerWithin, Session.answer]
  cases hdeep : isTooDeep levels.reading source with
  | true =>
    rw [answerWithin_deep hdeep]
    exact .inl rfl
  | false =>
    cases readingEnds source with
    | unreadable hread =>
      obtain ⟨text, hwithin, _⟩ := answerWithin_unreadable hdeep hread store
      rw [EvalM.storeAfter, hwithin]
      exact .inl rfl
    | overlong hread | blank hread =>
      rw [answerWithin_flat hdeep, hread]
      exact .inl rfl
    | forms hread hforms =>
      rw [answerWithin_forms hdeep hread hforms, answer_forms hread hforms,
        EvalM.storeAfter_bind _ (storeAfter_answerTextWithin levels.printing),
        EvalM.storeAfter_bind _ storeAfter_answerText]
      exact .inr rfl

theorem Reached.answeredWithin (h : Reached limits session (.idle store)) (levels : Levels)
    (source : String) :
    Reached limits session
      (.idle (EvalM.storeAfter (session.answerWithin levels source) store)) := by
  rcases storeAfter_answerWithin levels source store with hsame | hsame
  · rw [hsame]
    exact h
  · rw [hsame]
    exact h.answered source

/-! ## What stands against an answer -/

/-- What a failure comes to that has an answer is an error value. -/
theorem Session.Fails.isError (h : session.Fails store source)
    (hread : readForms source = .ok forms)
    (hcaught : catchUncaught (evaluateForms session.run session.scope forms) store =
      .ok v store') : v.isError = true := by
  unfold catchUncaught at hcaught
  cases h with
  | unreadable hfault =>
    rw [hread] at hfault
    cases hfault
  | erroneous hread' hevaluated hv =>
    rw [hread] at hread'
    cases hread'
    rw [hevaluated] at hcaught
    cases hcaught
    exact hv
  | thrown hread' hevaluated =>
    rw [hread] at hread'
    cases hread'
    rw [hevaluated] at hcaught
    cases hcaught
    rfl
  | givenUp hread' hevaluated hreason =>
    rw [hread] at hread'
    cases hread'
    rw [hevaluated] at hcaught
    rcases hreason with rfl | rfl
    · cases hcaught
      rfl
    · cases hcaught
      rfl

/-- Only an uncaught reason leaves the evaluation of forms. -/
theorem catchUncaught_ne_ok {evaluation : EvalM Value} {reason : Abort}
    (h : evaluation store = .error (.abort reason) store') (hexhausted : reason ≠ .exhausted)
    (hendless : reason ≠ .endless) (v : Value) (store₁ : Store) :
    catchUncaught evaluation store ≠ .ok v store₁ := by
  intro hcaught
  rw [catchUncaught, h] at hcaught
  cases reason with
  | exhausted => exact hexhausted rfl
  | endless => exact hendless rfl
  | _ => cases hcaught

/-- Forms that come to a printable value are not left without an answer. -/
theorem Session.not_escapes (hflat : isTooDeep levels.reading source = false)
    (hread : readForms source = .ok forms)
    (hcaught : catchUncaught (evaluateForms session.run session.scope forms) store = .ok v store')
    (hprintable : PrintableWithin store'.heap (levels.printing + 1) v) (reason : Abort) :
    ¬ session.Escapes levels store source reason := by
  intro h
  cases h with
  | nesting hdeep =>
    rw [hflat] at hdeep
    cases hdeep
  | literal _ hread' =>
    rw [hread] at hread'
    cases hread'
  | console _ hread' hevaluated =>
    rw [hread] at hread'
    cases hread'
    exact catchUncaught_ne_ok hevaluated nofun nofun v store' hcaught
  | evaluating _ hread' hevaluated hexhausted hendless _ =>
    rw [hread] at hread'
    cases hread'
    exact catchUncaught_ne_ok hevaluated hexhausted hendless v store' hcaught
  | printing _ hread' _ hcaught' hunprintable _ _ =>
    rw [hread] at hread'
    cases hread'
    rw [hcaught] at hcaught'
    cases hcaught'
    exact hunprintable hprintable

theorem Session.answerEnds_unreadable {f : Fault} (hflat : isTooDeep levels.reading source = false)
    (hread : readForms source = .error (.fault f)) :
    session.AnswerEnds levels store source (session.answerWithin levels source store) := by
  obtain ⟨text, hwithin, _, hheading⟩ := answerWithin_unreadable hflat hread store
  rw [Session.answerWithin, hwithin]
  refine ⟨fun reason hescapes => ?_, fun _ => hheading⟩
  cases hescapes with
  | nesting hdeep =>
    rw [hflat] at hdeep
    cases hdeep
  | literal _ hread' | console _ hread' | evaluating _ hread' | printing _ hread' =>
    rw [hread] at hread'
    cases hread'

theorem Session.answerEnds_empty (hflat : isTooDeep levels.reading source = false)
    (hread : readForms source = .ok []) :
    session.AnswerEnds levels store source (session.answerWithin levels source store) := by
  have hanswer : session.answerWithin levels source store = .ok "" store := by
    rw [Session.answerWithin, answerWithin_flat hflat, hread]
    rfl
  have hcaught : catchUncaught (evaluateForms session.run session.scope []) store =
      .ok .nil store := rfl
  rw [hanswer]
  refine ⟨session.not_escapes hflat hread hcaught ⟨nofun, nofun⟩, fun hfails => ?_⟩
  exact absurd (hfails.isError hread hcaught) nofun

theorem Session.answerEnds_forms (hflat : isTooDeep levels.reading source = false)
    (hread : readForms source = .ok forms) (hforms : forms ≠ [])
    (hfault : ∀ f store', evaluateForms session.run session.scope forms store ≠
      .error (.fault f) store')
    (hgenuine : ∀ reason store', session.answerWithin levels source store =
      .error (.abort reason) store' → reason.Genuine store) :
    session.AnswerEnds levels store source (session.answerWithin levels source store) := by
  rw [Session.answerWithin, answerWithin_forms hflat hread hforms] at hgenuine ⊢
  simp only [Bind.bind, EStateM.bind] at hgenuine ⊢
  cases hcaught : catchUncaught (evaluateForms session.run session.scope forms) store with
  | error failure store' =>
    obtain ⟨reason, rfl, hevaluated, hexhausted, hendless⟩ :=
      catchUncaught_eq_error hcaught hfault
    rw [hcaught] at hgenuine
    refine ⟨?_, hgenuine reason store' rfl⟩
    by_cases hconsole : ∃ fault, reason = .console fault
    · obtain ⟨fault, rfl⟩ := hconsole
      exact .console hflat hread hevaluated
    · exact .evaluating hflat hread hevaluated hexhausted hendless (not_exists.mp hconsole)
  | ok v store' =>
    simp only [hcaught, answerTextWithin_eq] at hgenuine ⊢
    cases hprinted : printWithin (levels.printing + 1) store'.heap true v with
    | error reason =>
      have hunprintable : ¬ PrintableWithin store'.heap (levels.printing + 1) v := by
        intro hprintable
        obtain ⟨text, htext⟩ := exists_printWithin_iff.mpr hprintable
        rw [hprinted] at htext
        cases htext
      rw [hprinted] at hgenuine
      exact ⟨.printing hflat hread hforms hcaught hunprintable hprinted
        (printWithin_gives_up _ _ _ _ reason hprinted), hgenuine reason store' rfl⟩
    | ok text =>
      have hprintable := exists_printWithin_iff.mp ⟨text, hprinted⟩
      refine ⟨session.not_escapes hflat hread hcaught hprintable, fun hfails => ?_⟩
      rw [if_pos (hfails.isError hread hcaught)]
      exact failureHeading_prefix text

/-! ## Answers of reached sessions -/

section Sound

variable {home : FrameId} {tolerant faulty : Bool} {layout : Layout home tolerant}
  {origin : Origin}

theorem Abort.OfBoundedPrinting.genuine {reason : Abort} (h : reason.OfBoundedPrinting)
    (store : Store) : reason.Genuine store := by
  cases reason with
  | exhausted => trivial
  | longNumeral => trivial
  | _ => exact h.elim

theorem sound_answerTextWithin (levels : Nat) (v : Value) :
    Sound origin layout faulty (answerTextWithin levels v) fun _ _ => True := by
  have hprinted : ∀ heap, Sound origin layout faulty
      (EvalM.ofAbort (printWithin (levels + 1) heap true v)) fun _ _ => True := by
    intro heap
    refine EvalM.sound_ofAbort (fun _ _ => trivial) fun reason h => ?_
    exact (printWithin_gives_up _ _ _ _ reason h).genuine _
  exact .bind_get fun store _ => (hprinted store.heap).bind fun _ _ _ _ => sound_pure trivial

theorem sound_answerWithin (hrun : run.IsSound home tolerant) (hscope : scope.Usable origin layout)
    (levels : Levels) (source : String) :
    Sound origin layout false (answerWithin levels run scope source) fun _ _ => True := by
  unfold answerWithin
  split
  · exact EvalM.sound_abort trivial
  · split
    · exact (EvalM.sound_errorOf _).bind fun _ _ v _ => sound_answerTextWithin levels.printing v
    · next hlong => exact EvalM.sound_abort (readForms_longLiteral hlong)
    · exact sound_pure trivial
    · next hforms =>
      have hrest := sound_evaluateForms hrun hscope (readForms_valid hforms)
      exact (sound_catchUncaught hrest).bind fun _ _ v _ => sound_answerTextWithin levels.printing v

end Sound

/-- Either a text is answered as it should be, or what keeps it from being answered is what the
answer is given up for. The session can go on in either case. -/
theorem Reached.answer_ends (h : Reached limits session (.idle store)) (levels : Levels)
    (source : String) :
    session.AnswerEnds levels store source (session.answerWithin levels source store) ∧
      Reached limits session
        (.idle (EvalM.storeAfter (session.answerWithin levels source) store)) := by
  refine ⟨?_, h.answeredWithin levels source⟩
  obtain ⟨layout, hfits⟩ : ∃ layout : Layout session.scope.here false, store.Fits layout := h.valid
  have hrun : session.run.IsSound session.scope.here false := h.run_isSound
  have hscope := (h.scope_in layout).usable store
  -- which aborts leave an answer is known from its parts, why they do from soundness
  have hgenuine : ∀ reason store', session.answerWithin levels source store =
      .error (.abort reason) store' → reason.Genuine store := by
    intro reason store' hanswer
    obtain ⟨_, _, _, hallowed⟩ :=
      (sound_answerWithin hrun hscope levels source).failure (hfits.invariant _) hanswer
    exact hallowed
  cases hdeep : isTooDeep levels.reading source with
  | true =>
    rw [Session.answerWithin, answerWithin_deep hdeep]
    exact ⟨.nesting hdeep, trivial⟩
  | false =>
    cases readingEnds source with
    | unreadable hread => exact session.answerEnds_unreadable hdeep hread
    | @overlong digits hread =>
      have hanswer : session.answerWithin levels source store =
          .error (.abort (.longLiteral digits)) store := by
        rw [Session.answerWithin, answerWithin_flat hdeep, hread]
        rfl
      rw [hanswer]
      exact ⟨.literal hdeep hread, hgenuine _ store hanswer⟩
    | blank hread => exact session.answerEnds_empty hdeep hread
    | forms hread hforms =>
      refine session.answerEnds_forms hdeep hread hforms (fun f store' hfault => ?_) hgenuine
      have hsound := sound_evaluateForms hrun hscope (readForms_valid hread)
      obtain ⟨_, _, _, hallowed⟩ := hsound.failure (hfits.invariant _) hfault
      cases hallowed

/-- A text that throws is answered. -/
theorem Reached.answer_ends_thrown :
    let limits : Limits := ⟨9, 3⟩
    ∃ session store store', Session.start limits.runner [] [] false (.initial .empty "" 0) =
        .ok session store ∧
      session.answerWithin ⟨1, 1⟩ "(throw true)" store = .ok "Error: true" store' ∧
      session.AnswerEnds ⟨1, 1⟩ store "(throw true)"
        (session.answerWithin ⟨1, 1⟩ "(throw true)" store) ∧
      Reached limits session (.idle store') := by
  intro limits
  obtain ⟨session, store, hstart⟩ := start_bare limits.runner [] .empty "" 0
  have hends := Reached.answer_ends (.started hstart) ⟨1, 1⟩ "(throw true)"
  cases hstart
  exact ⟨_, _, _, rfl, rfl, hends⟩

theorem exists_endless :
    let limits : Limits := ⟨9, 9⟩
    let symbol := Value.symbol
    let form := Value.ofList [symbol "let*",
      .ofList [symbol "a", .ofList [symbol "atom", .nil]],
      .ofList [symbol "do", .ofList [symbol "reset!", symbol "a", symbol "a"], symbol "a"]]
    readForms "(let* (a (atom nil)) (do (reset! a a) a))" = .ok [form] ∧
      ∃ session store, Session.start limits.runner [] [] false (.initial .empty "" 0) =
          .ok session store ∧
        ∃ store', catchUncaught (evaluateForms session.run session.scope [form]) store =
          .ok (.atom 0) store' ∧ store'.heap.content 0 = .atom 0 := by
  intro limits
  exact ⟨rfl, _, _, rfl, _, rfl, rfl⟩

/-- A cell that is put into itself is left without an answer, however many levels there are. -/
theorem Session.answer_endless :
    let limits : Limits := ⟨9, 9⟩
    ∃ session store, Session.start limits.runner [] [] false (.initial .empty "" 0) =
        .ok session store ∧
      ∀ levels, ∃ store',
        session.answerWithin levels "(let* (a (atom nil)) (do (reset! a a) a))" store =
          .error (.abort .exhausted) store' := by
  intro limits
  obtain ⟨hread, session, store, hstart, store', hcaught, hself⟩ := exists_endless
  refine ⟨session, store, hstart, fun levels => ?_⟩
  cases hdeep : isTooDeep levels.reading "(let* (a (atom nil)) (do (reset! a a) a))" with
  | true =>
    rw [Session.answerWithin, answerWithin_deep hdeep]
    exact ⟨store, rfl⟩
  | false =>
    have hprinted : printWithin (levels.printing + 1) store'.heap true (.atom 0) =
        .error .exhausted := by
      rw [printWithin, renderWithin_self hself]
      rfl
    rw [Session.answerWithin, answerWithin_forms hdeep hread (List.cons_ne_nil _ _)]
    simp only [Bind.bind, EStateM.bind, hcaught, answerTextWithin_eq, hprinted]
    exact ⟨store', rfl⟩

/-- However many levels there are, some text is nested too deep for them. -/
theorem Session.answer_too_deep (session : Session) (levels : Levels) (store : Store) :
    session.answerWithin levels (String.ofList (List.replicate (levels.reading + 1) '(')) store =
      .error (.abort .exhausted) store := by
  rw [Session.answerWithin, answerWithin_deep (isTooDeep_replicate levels.reading)]
  rfl

/-- A line that is no text in its encoding leaves the session without an answer. -/
example :
    let limits : Limits := ⟨9, 9⟩
    ∃ session store, Session.start limits.runner [] [] false (.initial .empty "" 0) =
        .ok session store ∧
      let fault : ConsoleFault :=
        ⟨.undecodable, "'utf-8' codec can't decode byte 0xff in position 0: invalid start byte"⟩
      ∃ store', session.answerWithin ⟨1, 1⟩ "(readline \"p> \")"
        { store with console := .ofBytes [0xFF, 0x0A] } =
          .error (.abort (.console fault)) store' := by
  intro limits
  refine ⟨_, _, rfl, ?_⟩
  decide +kernel

end SmallLisp
