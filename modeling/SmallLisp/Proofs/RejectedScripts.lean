import SmallLisp.Proofs.CallRules
import SmallLisp.Proofs.Loading

/-! # Loading a file that cannot be read

What the loader reads is the text of the file between brackets. If that cannot be read either, the
call of the loader is the error value of the reading, none of the file's forms is evaluated, and a
run of the script ends with the status 1. A text that waits for a form or closes too much may be
read between the brackets, and then the loader evaluates what it has read. What closes too much may
also be followed by a literal that is too long, and then the loader is given up.
-/
namespace SmallLisp

variable {store store' : Store} {scope : Scope} {home : FrameId} {source path message : String}
  {forms : List Value} {f : Fault} {steps depth : Nat}

theorem readData_fault (hread : readForms source = .error (.fault f)) (store : Store) :
    ∃ message, f.message store.heap = .ok message ∧
      readData source store = .ok (.error message none) store := by
  have hplain := readForms_plain source
  rw [hread] at hplain
  obtain ⟨message, hmessage⟩ := ReadingError.Plain.exists_message hplain store.heap
  refine ⟨message, hmessage, ?_⟩
  rw [readData, hread]
  dsimp only
  rw [EvalM.errorOf_eq, hmessage]

theorem Store.HasLoader.step_unreadable (h : store.HasLoader home)
    (hfile : readFileText (.ofText path) store = .ok source store)
    (hdata : readData (scriptText source) (store.loading path) =
      .ok (.error message none) (store.loading path)) (steps depth : Nat) :
    (Task.evaluate loaderBody (store.loaderScope home)).step (steps + 1)
      (runTask (steps + 1) (depth + 4)) (store.loading path) =
      .ok (.done (.error message none)) (store.loading path) := by
  obtain ⟨hordinary, id, metadata, hlookup⟩ := h.lookup?_builtin (.call .eval) (by decide) path
  have hreader := h.run_reader hfile hdata steps depth
  exact Task.step_call_of_error hordinary (runTask_symbol hlookup) rfl
    (evaluateAll_cons_of_error [] hreader rfl)

theorem Store.HasLoader.run_unreadable (h : store.HasLoader home)
    (hscope : store.lookup? scope "load-file" = (store.frame home).find? "load-file")
    (hfile : readFileText (.ofText path) store = .ok source store)
    (hdata : readData (scriptText source) (store.loading path) =
      .ok (.error message none) (store.loading path)) :
    runTask (steps + 2) (depth + 5) (.evaluate (loadCall path) scope) store =
      .ok (.error message none) (store.loading path) := by
  have hcall := h.step_loadCall hscope path (steps + 1) (depth + 3)
  have hbody := h.step_unreadable hfile hdata (steps + 1) depth
  rw [runTask, takeSteps_succ, hcall]
  dsimp only
  rw [takeSteps_succ, hbody]

theorem Task.stepEnds_of_steps {task : Task} {result : EStateM.Result Failure Store Step}
    (hfinal : ¬ Exhausted result) (levels : Nat)
    (h : ∀ steps depth, task.step (steps + 1) (runTask (steps + 1) (depth + levels)) store =
      result) : task.StepEnds store result := by
  refine ⟨hfinal, ⟨1, levels⟩, fun ⟨steps, depth⟩ ⟨hsteps, hdepth⟩ => ?_⟩
  obtain ⟨steps, rfl⟩ := Nat.exists_eq_add_of_le' hsteps
  obtain ⟨depth, rfl⟩ := Nat.exists_eq_add_of_le' hdepth
  exact h steps depth

/-- The call of the loader comes to the evaluation of what it reads. -/
theorem Store.HasLoader.ends_loadCall_iff (h : store.HasLoader home)
    (hscope : store.lookup? scope "load-file" = (store.frame home).find? "load-file")
    (hfile : readFileText (.ofText path) store = .ok source store)
    (hread : readForms (scriptText source) = .ok forms)
    {result : EStateM.Result Failure Store Value} :
    (Task.evaluate (loadCall path) scope).Ends store result ↔
      (Task.evaluate (lastForm forms) (.global home)).Ends (store.loading path) result := by
  have hcall : (Task.evaluate (loadCall path) scope).StepEnds store
      (.ok (.tail loaderBody (store.loaderScope home)) (store.loading path)) :=
    Task.stepEnds_of_steps id 1 fun steps depth => h.step_loadCall hscope path steps depth
  have hbody : (Task.evaluate loaderBody (store.loaderScope home)).StepEnds (store.loading path)
      (.ok (.tail (lastForm forms) (.global home)) (store.loading path)) :=
    Task.stepEnds_of_steps id 4 fun steps depth =>
      h.step_loaderBody hfile hread (isError_lastForm hread) steps depth
  rw [hcall.next_iff, hbody.next_iff]

theorem Store.Offers.ends_text {op : TextOp} {arguments vs : List Value} {v : Value}
    (h : store.Offers scope (.text op)) (harguments : Evaluated scope arguments store vs store)
    (happly : op.apply vs store = .ok v store') :
    (Task.evaluate (.ofList (.symbol op.name :: arguments)) scope).Ends store (.ok v store') := by
  refine h.ends harguments fun run home => ?_
  simp only [PlainBuiltin.apply, Bind.bind, EStateM.bind, happly]
  rfl

/-- Where the loader gives up reading, its call is given up. -/
theorem Store.HasLoader.givesUp_loadCall (h : store.HasLoader home)
    (hscope : store.lookup? scope "load-file" = (store.frame home).find? "load-file")
    (hfile : readFileText (.ofText path) store = .ok source store) {digits : Nat}
    (hread : readForms (scriptText source) = .error (.longLiteral digits)) :
    (Task.evaluate (loadCall path) scope).Ends store
      (.error (.abort (.longLiteral digits)) (store.loading path)) := by
  have hoffers : ∀ op ∈ loaderBuiltins,
      (store.loading path).Offers (store.loaderScope home) op := by
    intro op hop
    obtain ⟨_, id, metadata, hlookup⟩ := h.lookup?_builtin op hop path
    exact ⟨id, home, metadata, hlookup⟩
  have hslurp : (Task.evaluate (.ofList [.symbol "slurp", .symbol "f"])
      (store.loaderScope home)).Ends (store.loading path)
        (.ok (.str source) (store.loading path)) := by
    obtain ⟨_, _, hbound⟩ := h.loader
    have hpath := ends_symbol (Store.lookup?_loading (Scope.isIn_global hbound) path "f")
    exact (hoffers (.text .readFile) (by decide)).ends_text (.cons hpath rfl (.nil _))
      (apply_readFile hfile rfl)
  have htext := (hoffers (.text .printPlain) (by decide)).ends_text
    (.cons (ends_constant rfl) rfl (.cons hslurp rfl (.cons (ends_constant rfl) rfl (.nil _))))
    (apply_printPlain source (store.loading path))
  have hreader : (Task.evaluate loaderReader (store.loaderScope home)).Ends (store.loading path)
      (.error (.abort (.longLiteral digits)) (store.loading path)) := by
    have hfinal : ¬ Exhausted (.error (.abort (.longLiteral digits)) (store.loading path) :
        EStateM.Result Failure Store Value) := fun h => h
    refine (hoffers (.text .readForm) (by decide)).ends_call (.cons htext rfl (.nil _))
      fun _ _ _ => ends_plain hfinal fun run home => ?_
    have hdata : readData (scriptText source) (store.loading path) =
        .error (.abort (.longLiteral digits)) (store.loading path) := by
      rw [readData, hread]
      rfl
    simp only [PlainBuiltin.apply, Bind.bind, EStateM.bind, apply_readForm, hdata]
    rfl
  have hbody : (Task.evaluate loaderBody (store.loaderScope home)).Ends (store.loading path)
      (.error (.abort (.longLiteral digits)) (store.loading path)) :=
    (hoffers (.call .eval) (by decide)).stops (.nil _) hreader trivial
  have hcall : (Task.evaluate (loadCall path) scope).StepEnds store
      (.ok (.tail loaderBody (store.loaderScope home)) (store.loading path)) :=
    Task.stepEnds_of_steps id 1 fun steps depth => h.step_loadCall hscope path steps depth
  exact hcall.next hbody

variable {session : Session} {limits : Limits}

/-- Loading the file is an error value with this message, and no form is evaluated: the store is
the one in which the file is loaded. -/
structure Session.RejectsFile (session : Session) (path message : String) (store : Store) :
    Prop where
  called : ∀ scope, store.lookup? scope "load-file" = store.lookup? session.scope "load-file" →
    session.run (.evaluate (loadCall path) scope) store =
      .ok (.error message none) (store.loading path)
  finished : ∃ report, runScript session path store = .ok (1, report) (store.loading path)

/-- A file that cannot be read is rejected as a whole, unless its text closes too much or waits for
a form. In every case the loader ends as what it reads between the brackets does: that is evaluated,
refused, or given up. -/
structure Session.LoadsUnreadable (session : Session) (path source : String) (store : Store) :
    Prop where
  rejected : ¬ ClosesTooMuch source → (¬ ∃ forms wrap, Awaits source forms wrap) →
    ∃ f message, readForms (scriptText source) = .error (.fault f) ∧
      f.message (store.loading path).heap = .ok message ∧ session.RejectsFile path message store
  completed : ∀ forms wrap, Awaits source forms wrap → ∀ scope result,
    store.lookup? scope "load-file" = store.lookup? session.scope "load-file" →
    ((Task.evaluate (loadCall path) scope).Ends store result ↔
      (Task.evaluate (.ofList (.symbol "do" :: (forms ++ [wrap .nil]))) session.scope).Ends
        (store.loading path) result)
  enclosed : ∀ forms, readForms (scriptText source) = .ok forms → ∀ scope result,
    store.lookup? scope "load-file" = store.lookup? session.scope "load-file" →
    ((Task.evaluate (loadCall path) scope).Ends store result ↔
      (Task.evaluate (lastForm forms) session.scope).Ends (store.loading path) result)
  refused : ∀ f, readForms (scriptText source) = .error (.fault f) →
    ∃ message, f.message (store.loading path).heap = .ok message ∧
      session.RejectsFile path message store
  overlong : ∀ digits, readForms (scriptText source) = .error (.longLiteral digits) → ∀ scope,
    store.lookup? scope "load-file" = store.lookup? session.scope "load-file" →
    (Task.evaluate (loadCall path) scope).Ends store
      (.error (.abort (.longLiteral digits)) (store.loading path))

section Reached

variable (h : Reached limits session (.idle store)) (hlimits : ⟨4, 5⟩ ≤ limits)
  (hloader : store.HasLoader session.scope.here)
  (hfile : readFileText (.ofText path) store = .ok source store)

include h hloader hfile

theorem Reached.ends_loadCall_iff (hread : readForms (scriptText source) = .ok forms)
    (scope : Scope) (result : EStateM.Result Failure Store Value)
    (hscope : store.lookup? scope "load-file" = store.lookup? session.scope "load-file") :
    (Task.evaluate (loadCall path) scope).Ends store result ↔
      (Task.evaluate (lastForm forms) session.scope).Ends (store.loading path) result := by
  rw [h.scope_eq, Store.lookup?_global] at hscope
  rw [h.scope_eq]
  exact hloader.ends_loadCall_iff hscope hfile hread

include hlimits

theorem Reached.rejectsFile (hread : readForms (scriptText source) = .error (.fault f)) :
    ∃ message, f.message (store.loading path).heap = .ok message ∧
      session.RejectsFile path message store := by
  obtain ⟨message, hmessage, hdata⟩ := readData_fault hread (store.loading path)
  obtain ⟨steps, hsteps⟩ := Nat.exists_eq_add_of_le' hlimits.1
  obtain ⟨depth, hdepth⟩ := Nat.exists_eq_add_of_le' hlimits.2
  have hcalled : ∀ scope,
      store.lookup? scope "load-file" = store.lookup? session.scope "load-file" →
      session.run (.evaluate (loadCall path) scope) store =
        .ok (.error message none) (store.loading path) := by
    intro scope hscope
    rw [h.scope_eq, Store.lookup?_global] at hscope
    rw [h.run_eq, Limits.runner, hsteps, hdepth]
    exact hloader.run_unreadable hscope hfile hdata
  have hanswered : answerFile session.run session.scope path store =
      (do answerText (← catchUncaught (session.run (.evaluate (loadCall path) session.scope))))
        store := by
    rw [answerFile, answer_forms (readForms_loadCall path) (List.cons_ne_nil _ _), evaluateForms]
  have hprinted : printValue (store.loading path).heap true (.error message none) =
      .ok (String.ofList message.toList) := rfl
  refine ⟨message, hmessage, hcalled, runScript_of_error _ hanswered ?_ rfl hprinted⟩
  rw [catchUncaught, hcalled _ rfl]

end Reached

/-- A file that cannot be read is rejected as a whole, with two exceptions: a text that closes too
much and a text that waits for a form may be read between the brackets of the loader. -/
theorem Reached.rejects (h : Reached limits session (.idle store)) (hlimits : ⟨4, 5⟩ ≤ limits)
    (hloader : store.HasLoader session.scope.here)
    (hfile : readFileText (.ofText path) store = .ok source store)
    (hread : readForms source = .error (.fault f)) :
    session.LoadsUnreadable path source store := by
  refine ⟨fun hcloses hawaits => ?_, fun forms wrap hawaits => ?_, fun forms hforms => ?_,
    fun f hread' => ?_, fun digits hlong scope hscope => ?_⟩
  · obtain ⟨f', hread'⟩ := readForms_scriptText_fault hread hcloses hawaits
    obtain ⟨message, hmessage, hrejects⟩ := h.rejectsFile hlimits hloader hfile hread'
    exact ⟨f', message, hread', hmessage, hrejects⟩
  · exact h.ends_loadCall_iff hloader hfile hawaits.readForms_scriptText
  · exact h.ends_loadCall_iff hloader hfile hforms
  · exact h.rejectsFile hlimits hloader hfile hread'
  · rw [h.scope_eq, Store.lookup?_global] at hscope
    exact hloader.givesUp_loadCall hscope hfile hlong

/-- A definition without its closing bracket. -/
theorem Reached.rejects_unclosed :
    let limits : Limits := ⟨9, 9⟩
    let path := "a.mal"
    let source := "(def! x true"
    ∃ session store, Reached limits session (.idle store) ∧ store.HasLoader session.scope.here ∧
      readFileText (.ofText path) store = .ok source store ∧
      readForms source = .error (.fault (.reading (.unclosed .round))) ∧
      ∃ message, session.RejectsFile path message store := by
  have hbytes : FileTree.bytes ⟨[(["a.mal"], "(def! x true".toUTF8.toList)]⟩
      (.ofText "a.mal") = .ok "(def! x true".toUTF8.toList := by decide +kernel
  have htext : fileText "(def! x true".toUTF8.toList = .ok "(def! x true" := by decide +kernel
  have hread : readForms "(def! x true" = .error (.fault (.reading (.unclosed .round))) := rfl
  have htokens : Token.closing .round ∉ tokenize "(def! x true" := by decide
  have hscript : readForms (scriptText "(def! x true") =
      .error (.fault (.reading (.unclosed .round))) := rfl
  intro limits path source
  obtain ⟨session, store, hreached, hloader, hfiles⟩ :=
    Reached.exists_loader ⟨[([path], source.toUTF8.toList)]⟩
  have hfile : readFileText (.ofText path) store = .ok source store :=
    readFileText_eq_ok_iff.mpr ⟨by decide, _, hfiles ▸ hbytes, htext⟩
  have hrejects := hreached.rejects ⟨by decide, by decide⟩ hloader hfile hread
  refine ⟨session, store, hreached, hloader, hfile, hread, ?_⟩
  have hcloses : ¬ ClosesTooMuch source := by
    rintro ⟨trees, forms, rest, hclosing, -⟩
    exact htokens (hclosing ▸ by simp)
  have hawaits : ¬ ∃ forms wrap, Awaits source forms wrap := by
    rintro ⟨forms, wrap, hawaits⟩
    rw [hawaits.readForms_scriptText] at hscript
    cases hscript
  obtain ⟨_, message, _, _, hmessage⟩ := hrejects.rejected hcloses hawaits
  exact ⟨message, hmessage⟩

/-- A file that ends in a quote mark cannot be read, and yet it is evaluated to its end. -/
theorem Session.runs_unreadable :
    let limits : Limits := ⟨9, 9⟩
    let source := "(def! x true) '"
    ∃ session store, Session.start limits.runner [] [] false
        (.initial ⟨[(["a.mal"], source.toUTF8.toList)]⟩ "" 0) = .ok session store ∧
      readForms source = .error (.fault (.reading .inputEnded)) ∧
      ∃ store', (do
        let _ ← session.evaluate loaderText
        let run ← runScript session "a.mal"
        return (run, ← session.answer "x")) store = .ok ((0, ""), "true") store' := by
  have hread : readForms "(def! x true) '" = .error (.fault (.reading .inputEnded)) := rfl
  intro limits source
  refine ⟨_, _, rfl, hread, ?_⟩
  decide +kernel

end SmallLisp
