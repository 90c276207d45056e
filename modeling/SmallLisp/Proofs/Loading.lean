import SmallLisp.Proofs.Approximation
import SmallLisp.Proofs.EnclosedTexts
import SmallLisp.Proofs.ErrorContainment
import SmallLisp.Proofs.FailurePropagation
import SmallLisp.Proofs.JoinedTexts
import SmallLisp.Proofs.Lookups
import SmallLisp.Proofs.RoundTrip
import SmallLisp.Repl

/-! # Loading a file

To load a file means to evaluate its forms in the global scope. The prelude does this by way of
text: what the file holds is put between brackets and read as one form, and the path itself is
written into a text that calls the loader.
-/
namespace SmallLisp

variable {store store' : Store} {scope : Scope} {home : FrameId} {source path : String}
  {forms : List Value}

/-- The forms of a file in one sequence that ends in `nil`. -/
theorem readForms_scriptText (h : readForms source = .ok forms) :
    readForms (scriptText source) = .ok [.ofList (.symbol "do" :: (forms ++ [.nil]))] :=
  (awaits_of_readForms h).readForms_scriptText

def loadCall (path : String) : Value := .ofList [.symbol "load-file", .str path]

theorem readForms_loadCall (path : String) :
    readForms ("(load-file " ++ String.ofList (escape path.toList) ++ ")") =
      .ok [loadCall path] := by
  have hname : SymbolName "load-file" := by decide
  have hparts : Denotes ("load-file".toList ++ ' ' :: escape path.toList)
      [.symbol "load-file", .str path] :=
    (denotes_symbol hname).separate (denotes_str path) (.inl rfl)
  have htext : "(load-file " ++ String.ofList (escape path.toList) ++ ")" =
      String.ofList (Bracket.round.opening :: ("load-file".toList ++ ' ' :: escape path.toList) ++
        [Bracket.round.closing]) := by
    rw [← String.toList_inj]
    simp [Bracket.opening, Bracket.closing]
  rw [htext]
  exact (hparts.bracket .round rfl).readForms

section Steps

variable {run : Runner} {task : Task} {function head v metadata : Value} {tail vs : List Value}
  {identity : Option Identity} {store'' : Store} {steps depth : Nat}

theorem runTask_symbol {name : String} (h : store.lookup? scope name = some v) :
    runTask (steps + 1) (depth + 1) (.evaluate (.symbol name) scope) store = .ok v store := by
  refine runTask_of_done ?_
  rw [Task.step, stepForm, EvalM.get_bind, h]
  rfl

theorem runTask_str (text : String) :
    runTask (steps + 1) (depth + 1) (.evaluate (.str text) scope) store = .ok (.str text) store :=
  runTask_of_done rfl

theorem evaluateAll_nil : evaluateAll run scope [] store = .ok (.ok []) store := rfl

theorem evaluateAll_cons_of_error {form : Value} (forms : List Value)
    (hform : run (.evaluate form scope) store = .ok v store') (hv : v.isError = true) :
    evaluateAll run scope (form :: forms) store = .ok (.error v) store' := by
  simp only [evaluateAll, Bind.bind, EStateM.bind, hform, hv, if_true]
  rfl

/-- What is left of a call once its head and its arguments have values. -/
theorem Task.step_call (hordinary : Ordinary store scope head)
    (hhead : run (.evaluate head scope) store = .ok function store')
    (hfunction : function.isFunction = true)
    (htail : evaluateAll run scope tail store' = .ok (.ok vs) store'') :
    (Task.evaluate (.list (head :: tail) metadata identity) scope).step steps run store =
      applyFunction run function vs store'' := by
  have herror : function.isError = false := isError_of_isFunction hfunction
  rw [Task.step, stepForm, stepList, hordinary.specialForm_eq]
  dsimp only
  rw [EvalM.get_bind, hordinary.expansionOf_eq]
  simp only [stepCall, Bind.bind, EStateM.bind, hhead, herror, Bool.false_eq_true, if_false, htail,
    hfunction, if_true]

/-- A call comes to the first error value among its arguments. -/
theorem Task.step_call_of_error (hordinary : Ordinary store scope head)
    (hhead : run (.evaluate head scope) store = .ok function store')
    (hfunction : function.isError = false)
    (htail : evaluateAll run scope tail store' = .ok (.error v) store'') :
    (Task.evaluate (.list (head :: tail) metadata identity) scope).step steps run store =
      .ok (.done v) store'' := by
  rw [Task.step, stepForm, stepList, hordinary.specialForm_eq]
  dsimp only
  rw [EvalM.get_bind, hordinary.expansionOf_eq]
  simp only [stepCall, Bind.bind, EStateM.bind, hhead, hfunction, Bool.false_eq_true, if_false,
    htail]
  rfl

end Steps

/-! ## The loader -/

def loaderBody : Value :=
  .ofList [.symbol "eval", .ofList [.symbol "read-string",
    .ofList [.symbol "str", .str "(do ", .ofList [.symbol "slurp", .symbol "f"], .str "\nnil)"]]]

def loaderReader : Value :=
  .ofList [.symbol "read-string",
    .ofList [.symbol "str", .str "(do ", .ofList [.symbol "slurp", .symbol "f"], .str "\nnil)"]]

def loaderBuiltins : List PlainBuiltin :=
  [.call .eval, .text .readForm, .text .printPlain, .text .readFile]

structure Store.HasLoader (store : Store) (home : FrameId) : Prop where
  loader : ∃ id metadata, (store.frame home).find? "load-file" =
    some (.closure id ⟨["f"], none⟩ loaderBody (.global home) false metadata)
  builtins : ∀ op ∈ loaderBuiltins, ∃ id metadata,
    (store.frame home).find? op.name = some (.native id (.plain op) home metadata)

/-- The store in which a file is loaded: the call of the loader has given out an identity and
opened a frame for the path. -/
def Store.loading (store : Store) (path : String) : Store :=
  store.skipIdentity.addFrame [("f", .str path)]

def Store.loaderScope (store : Store) (home : FrameId) : Scope :=
  (Scope.global home).nest store.nextFrame

theorem Store.lookup?_loading (h : (Scope.global home).IsIn store) (path name : String) :
    (store.loading path).lookup? (store.loaderScope home) name =
      (Frame.find? name [("f", .str path)]).or ((store.frame home).find? name) := by
  have hcalled : (Scope.global home).IsIn store.skipIdentity := h
  rw [← Store.lookup?_global store home name]
  exact Store.lookup?_nest hcalled [("f", .str path)] name

section Loader

variable {steps depth : Nat}

/-- The loader is called: its body is next. -/
theorem Store.HasLoader.step_loadCall (h : store.HasLoader home)
    (hscope : store.lookup? scope "load-file" = (store.frame home).find? "load-file")
    (path : String) (steps depth : Nat) :
    (Task.evaluate (loadCall path) scope).step (steps + 1) (runTask (steps + 1) (depth + 1))
      store = .ok (.tail loaderBody (store.loaderScope home)) (store.loading path) := by
  obtain ⟨id, metadata, hloader⟩ := h.loader
  rw [hloader] at hscope
  have hordinary : Ordinary store scope (.symbol "load-file") :=
    ordinary_symbol (by decide) hscope rfl
  rw [loadCall, Value.ofList, Task.step_call hordinary (runTask_symbol hscope) rfl
    (evaluateAll_cons (runTask_str path) rfl evaluateAll_nil)]
  rfl

theorem Store.HasLoader.lookup?_builtin (h : store.HasLoader home) (op : PlainBuiltin)
    (hop : op ∈ loaderBuiltins) (path : String) :
    Ordinary (store.loading path) (store.loaderScope home) (.symbol op.name) ∧
      ∃ id metadata, (store.loading path).lookup? (store.loaderScope home) op.name =
        some (.native id (.plain op) home metadata) := by
  have hnames : ∀ op ∈ loaderBuiltins, op.name ≠ "f" ∧ SpecialForm.ofName? op.name = none := by
    decide
  obtain ⟨hname, hspecial⟩ := hnames op hop
  obtain ⟨id, metadata, hbound⟩ := h.builtins op hop
  -- the frame of the path hides no name but its own
  have hhidden : Frame.find? op.name [("f", .str path)] = none := if_neg hname
  have hlookup : (store.loading path).lookup? (store.loaderScope home) op.name =
      some (.native id (.plain op) home metadata) := by
    rw [Store.lookup?_loading (Scope.isIn_global hbound), hhidden, hbound]
    rfl
  exact ⟨ordinary_symbol hspecial hlookup rfl, id, metadata, hlookup⟩

theorem Store.HasLoader.step_builtin (h : store.HasLoader home) (op : PlainBuiltin)
    (hop : op ∈ loaderBuiltins) {tail vs : List Value} {step : Step}
    (htail : evaluateAll (runTask (steps + 1) (depth + 1)) (store.loaderScope home) tail
      (store.loading path) = .ok (.ok vs) (store.loading path))
    (happly : op.apply (runTask (steps + 1) (depth + 1)) home vs (store.loading path) =
      .ok step (store.loading path)) :
    (Task.evaluate (.ofList (.symbol op.name :: tail)) (store.loaderScope home)).step (steps + 1)
      (runTask (steps + 1) (depth + 1)) (store.loading path) = .ok step (store.loading path) := by
  obtain ⟨hordinary, id, metadata, hlookup⟩ := h.lookup?_builtin op hop path
  rw [Value.ofList, Task.step_call hordinary (runTask_symbol hlookup) rfl htail]
  exact applyFunction_plain happly id metadata

theorem Store.HasLoader.run_text (h : store.HasLoader home) (op : TextOp)
    (hop : .text op ∈ loaderBuiltins) {tail vs : List Value} {v : Value}
    (htail : evaluateAll (runTask (steps + 1) (depth + 1)) (store.loaderScope home) tail
      (store.loading path) = .ok (.ok vs) (store.loading path))
    (happly : op.apply vs (store.loading path) = .ok v (store.loading path)) :
    runTask (steps + 1) (depth + 2)
      (.evaluate (.ofList (.symbol op.name :: tail)) (store.loaderScope home))
      (store.loading path) = .ok v (store.loading path) := by
  refine runTask_of_done (h.step_builtin (.text op) hop htail ?_)
  simp only [PlainBuiltin.apply, Bind.bind, EStateM.bind, happly]
  rfl

theorem readFileText_eq_ok_iff {p : Path} :
    readFileText p store = .ok source store ↔ p.text.toList.contains '\x00' = false ∧
      ∃ bytes, store.files.bytes p = .ok bytes ∧ fileText bytes = .ok source := by
  unfold readFileText
  cases hnul : p.text.toList.contains '\x00' with
  | true => exact iff_of_false nofun nofun
  | false =>
    simp only [Bool.false_eq_true, if_false, EvalM.get_bind, true_and]
    cases store.files.bytes p with
    | error reason => exact iff_of_false nofun nofun
    | ok bytes =>
      simp only [Except.ok.injEq, exists_eq_left']
      cases fileText bytes with
      | error reason => exact iff_of_false nofun nofun
      | ok text =>
        simp only [Except.ok.injEq]
        constructor
        · intro h
          cases h
          rfl
        · rintro rfl
          rfl

/-- Only the files decide what a file holds. -/
theorem apply_readFile (h : readFileText (.ofText path) store = .ok source store)
    (hfiles : store'.files = store.files) :
    TextOp.apply .readFile [.str path] store' = .ok (.str source) store' := by
  rw [readFileText_eq_ok_iff, ← hfiles, ← readFileText_eq_ok_iff] at h
  simp only [TextOp.apply, onlyArgument, expectText, EvalM.ofFault, pure_bind]
  simp only [Bind.bind, EStateM.bind, h]
  rfl

theorem apply_printPlain (source : String) (store : Store) :
    TextOp.apply .printPlain [.str "(do ", .str source, .str "\nnil)"] store =
      .ok (.str (scriptText source)) store := by
  have hparts : Value.renderAll false (cellPrinter false store.heap)
      [.str "(do ", .str source, .str "\nnil)"] =
      .ok ["(do ".toList, source.toList, "\nnil)".toList] := rfl
  have hjoined : String.ofList ("".toList.intercalate
      ["(do ".toList, source.toList, "\nnil)".toList]) = scriptText source := by
    simp [scriptText, ← String.toList_inj, List.intercalate]
  have hprinted : printJoined store.heap false "" [.str "(do ", .str source, .str "\nnil)"] =
      .ok (scriptText source) := by
    rw [printJoined, hparts, ← hjoined]
    rfl
  simp only [TextOp.apply, EvalM.printAll, bind_assoc]
  rw [EvalM.get_bind, hprinted]
  rfl

theorem apply_readForm (text : String) (store : Store) :
    TextOp.apply .readForm [.str text] store = readData text store := by
  simp only [TextOp.apply, onlyArgument, expectText, EvalM.ofFault, pure_bind]

theorem Store.HasLoader.run_reader (h : store.HasLoader home)
    (hfile : readFileText (.ofText path) store = .ok source store) {v : Value}
    (hdata : readData (scriptText source) (store.loading path) = .ok v (store.loading path))
    (steps depth : Nat) :
    runTask (steps + 1) (depth + 4) (.evaluate loaderReader (store.loaderScope home))
      (store.loading path) = .ok v (store.loading path) := by
  obtain ⟨_, _, hbound⟩ := h.loader
  have hpath : runTask (steps + 1) (depth + 1) (.evaluate (.symbol "f") (store.loaderScope home))
      (store.loading path) = .ok (.str path) (store.loading path) :=
    runTask_symbol (Store.lookup?_loading (Scope.isIn_global hbound) path "f")
  have hslurp := h.run_text .readFile (by decide) (evaluateAll_cons hpath rfl evaluateAll_nil)
    (apply_readFile hfile rfl)
  have htext := h.run_text .printPlain (by decide)
    (evaluateAll_cons (runTask_str "(do ") rfl (evaluateAll_cons hslurp rfl
      (evaluateAll_cons (runTask_str "\nnil)") rfl evaluateAll_nil))) (apply_printPlain source _)
  exact h.run_text .readForm (by decide) (evaluateAll_cons htext rfl evaluateAll_nil)
    ((apply_readForm _ _).trans hdata)

/-- The form that the loader reads is evaluated in the global scope. -/
theorem Store.HasLoader.step_loaderBody (h : store.HasLoader home)
    (hfile : readFileText (.ofText path) store = .ok source store)
    (hread : readForms (scriptText source) = .ok forms) (hplain : (lastForm forms).isError = false)
    (steps depth : Nat) :
    (Task.evaluate loaderBody (store.loaderScope home)).step (steps + 1)
      (runTask (steps + 1) (depth + 4)) (store.loading path) =
      .ok (.tail (lastForm forms) (.global home)) (store.loading path) := by
  have hdata : readData (scriptText source) (store.loading path) =
      .ok (lastForm forms) (store.loading path) := by
    rw [readData, hread]
    rfl
  have hform := h.run_reader hfile hdata steps depth
  exact h.step_builtin (.call .eval) (by decide) (evaluateAll_cons hform hplain evaluateAll_nil) rfl

def Value.ofScript (v : Value) : Value := if v.isError then v else .nil

theorem evaluateSequence_append (run : Runner) (scope : Scope) (forms : List Value)
    (last : Value) :
    SpecialForm.evaluateSequence run scope (forms ++ [last]) =
      evaluateForms run scope forms >>= fun v =>
        if v.isError then pure (.done v) else pure (.tail last scope) := by
  induction forms with
  | nil => rfl
  | cons form forms ih =>
    have hne : forms ++ [last] ≠ [] := List.append_ne_nil_of_right_ne_nil forms nofun
    rw [List.cons_append, evaluateSequence_cons hne, ih]
    by_cases hforms : forms = []
    · subst hforms
      rfl
    · rw [evaluateForms_cons hforms, bind_assoc]
      refine bind_congr fun v => ?_
      cases hv : v.isError with
      | true => simp [hv]
      | false => simp

/-- The call of the loader comes to the evaluation of the forms, one level further in. -/
theorem Store.HasLoader.run_loadCall (h : store.HasLoader home)
    (hscope : store.lookup? scope "load-file" = (store.frame home).find? "load-file")
    (hfile : readFileText (.ofText path) store = .ok source store)
    (hread : readForms source = .ok forms)
    (hfault : ∀ f store', evaluateForms (runTask (steps + 4) (depth + 4)) (.global home) forms
      (store.loading path) ≠ .error (.fault f) store') :
    runTask (steps + 4) (depth + 5) (.evaluate (loadCall path) scope) store =
      mapEnd Value.ofScript (evaluateForms (runTask (steps + 4) (depth + 4)) (.global home) forms
        (store.loading path)) := by
  have hcall := h.step_loadCall hscope path (steps + 3) (depth + 3)
  have hbody := h.step_loaderBody hfile (readForms_scriptText hread) rfl (steps + 3) depth
  have hlast : lastForm [.ofList (.symbol "do" :: (forms ++ [.nil]))] =
      .ofList (.symbol "do" :: (forms ++ [.nil])) := rfl
  rw [hlast] at hbody
  have hscript : (Task.evaluate (.ofList (.symbol "do" :: (forms ++ [.nil]))) (.global home)).step
      (steps + 4) (runTask (steps + 4) (depth + 4)) (store.loading path) =
      EvalM.settle (SpecialForm.evaluateSequence (runTask (steps + 4) (depth + 4)) (.global home)
        (forms ++ [.nil])) (store.loading path) := by
    have hdo : specialForm? (.symbol "do") = some .sequence := by decide
    rw [Value.ofList, Task.step, stepForm, stepList, hdo]
    rfl
  rw [runTask, takeSteps_succ, hcall]
  dsimp only
  rw [takeSteps_succ, hbody]
  dsimp only
  rw [takeSteps_succ, hscript, evaluateSequence_append, EvalM.settle]
  simp only [Bind.bind, EStateM.bind]
  cases hend : evaluateForms (runTask (steps + 4) (depth + 4)) (.global home) forms
    (store.loading path) with
  | ok v store' =>
    simp only [mapEnd, Value.ofScript]
    cases hv : v.isError with
    | true => rfl
    | false => rfl
  | error failure store' =>
    cases failure with
    | fault f => exact absurd hend (hfault f store')
    | thrown payload => rfl
    | abort reason => rfl

end Loader

/-! ## Sessions -/

def Limits.inner (limits : Limits) : Limits := ⟨limits.steps, limits.depth - 1⟩

/-- Loading a file is evaluating its text, which `run` does: so it is seen by the program, in the
answer, and in the status of a run. The session itself evaluates the text to the same end, unless
`run` does not come to an end. -/
structure Session.Loads (session : Session) (run : Runner) (path source : String)
    (forms : List Value) (store : Store) : Prop where
  evaluated : ¬ Exhausted (evaluateText run session.scope source (store.loading path)) →
    session.evaluate source (store.loading path) =
      evaluateText run session.scope source (store.loading path)
  called : ∀ scope, store.lookup? scope "load-file" = store.lookup? session.scope "load-file" →
    session.run (.evaluate (loadCall path) scope) store =
      mapEnd Value.ofScript (evaluateText run session.scope source (store.loading path))
  answered : answerFile session.run session.scope path store =
    (do answerText (← catchUncaught (Value.ofScript <$> evaluateText run session.scope source)))
      (store.loading path)
  finished : ∀ store', Completed run session.scope forms (store.loading path) store' →
    session.run (.evaluate (loadCall path) session.scope) store = .ok .nil store' ∧
      runScript session path store = .ok (0, "") store'
  stopped : ∀ before part after store' result, forms = before ++ part :: after →
    Completed run session.scope before (store.loading path) store' →
    run (.evaluate part session.scope) store' = result → Stops result →
    session.run (.evaluate (loadCall path) session.scope) store = result
  erroneous : ∀ v store', evaluateText run session.scope source (store.loading path) = .ok v store' →
    v.isError = true → ∃ report, runScript session path store = .ok (1, report) store'
  thrown : ∀ payload store', evaluateText run session.scope source (store.loading path) =
      .error (.thrown payload) store' → Printable store'.heap payload →
    ∃ report, runScript session path store = .ok (1, report) store'

/-- What stops a form stops the forms that it is the first of. -/
theorem evaluateForms_stops {run : Runner} {part : Value} {after : List Value}
    {result : EStateM.Result Failure Store Value}
    (hpart : run (.evaluate part scope) store = result) (hstops : Stops result) :
    evaluateForms run scope (part :: after) store = result := by
  subst hpart
  by_cases hafter : after = []
  · subst hafter
    rfl
  · rw [evaluateForms_cons hafter]
    simp only [Bind.bind, EStateM.bind]
    cases hend : run (.evaluate part scope) store with
    | ok v store' =>
      have hv : v.isError = true := hstops.isError v store' hend
      simp only [hv]
      rfl
    | error failure store' => rfl

theorem mapEnd_ofScript {result : EStateM.Result Failure Store Value} (h : Stops result) :
    mapEnd Value.ofScript result = result := by
  cases result with
  | ok v store' =>
    have hv : v.isError = true := h
    simp only [mapEnd, Value.ofScript, hv, if_true]
  | error failure store' => rfl

theorem map_eq_mapEnd (x : EvalM Value) (f : Value → Value) (store : Store) :
    (f <$> x) store = mapEnd f (x store) := by
  simp only [Functor.map, EStateM.map]
  cases x store with
  | ok v store' => rfl
  | error failure store' => rfl

variable {session : Session} {limits : Limits} {layout : Layout home false}

theorem Store.Fits.loading (h : store.Fits layout) (path : String) :
    ∃ layout' : Layout home false, (store.loading path).Fits layout' := by
  have hinv : Invariant ⟨store, home⟩ layout store.skipIdentity :=
    (h.invariant home).congr rfl rfl rfl fun _ h => h
  have hframe : Frame.Valid layout [("f", .str path)] :=
    List.forall_mem_singleton.mpr (Value.valid_str path)
  exact ⟨_, (hinv.addFrame (Scope.in_global layout) hframe).fits⟩

section Runs

variable {evaluation : EvalM Value} {store₁ : Store} {text : String}

/-- A run of a script ends with the status 1 if its answer is the text of a failure. -/
theorem runScript_of_error (v : Value) (hanswer : answerFile session.run session.scope path store =
      (do answerText (← catchUncaught evaluation)) store₁)
    (hcaught : catchUncaught evaluation store₁ = .ok v store') (hv : v.isError = true)
    (hprinted : printValue store'.heap true v = .ok text) :
    ∃ report, runScript session path store = .ok (1, report) store' := by
  have hbegins := failureHeading_prefix text
  have hheading := List.isPrefixOf_iff_prefix.mpr hbegins
  simp only [Bind.bind, EStateM.bind, hcaught, answerText_eq, hprinted, hv, if_true] at hanswer
  refine ⟨failureHeading ++ text ++ "\n", ?_⟩
  simp only [runScript, Bind.bind, EStateM.bind, hanswer, hheading, if_true]
  rfl

variable {v payload : Value} {message : String}
  (hanswer : answerFile session.run session.scope path store =
  (do answerText (← catchUncaught (Value.ofScript <$> evaluation))) store₁)

include hanswer

theorem runScript_finished (hend : evaluation store₁ = .ok v store') (hv : v.isError = false) :
    runScript session path store = .ok (0, "") store' := by
  have hscript : (Value.ofScript <$> evaluation) store₁ = .ok .nil store' := by
    rw [map_eq_mapEnd, hend, mapEnd, Value.ofScript, hv]
    rfl
  have hnil : printValue store'.heap true .nil = .ok "nil" := rfl
  simp only [Bind.bind, EStateM.bind, catchUncaught, hscript, answerText_eq, hnil] at hanswer
  simp only [runScript, Bind.bind, EStateM.bind, hanswer]
  rfl

theorem runScript_erroneous (hend : evaluation store₁ = .ok (.error message none) store') :
    ∃ report, runScript session path store = .ok (1, report) store' := by
  have hscript : (Value.ofScript <$> evaluation) store₁ = .ok (.error message none) store' := by
    rw [map_eq_mapEnd, hend]
    rfl
  have hprinted : printValue store'.heap true (.error message none) =
      .ok (String.ofList message.toList) := rfl
  refine runScript_of_error _ hanswer ?_ rfl hprinted
  rw [catchUncaught, hscript]

theorem runScript_thrown (hend : evaluation store₁ = .error (.thrown payload) store')
    (hprintable : Printable store'.heap payload) :
    ∃ report, runScript session path store = .ok (1, report) store' := by
  obtain ⟨text, htext⟩ := (exists_printValue_iff store'.heap true payload).mpr hprintable
  have hscript : (Value.ofScript <$> evaluation) store₁ = .error (.thrown payload) store' := by
    rw [map_eq_mapEnd, hend]
    rfl
  have hprinted : printValue store'.heap true (.error "uncaught exception" (some payload)) =
      .ok text := htext
  refine runScript_of_error _ hanswer ?_ rfl hprinted
  rw [catchUncaught, hscript]

end Runs

theorem approximates_evaluateForms {run run' : Runner} (h : run.Approximates run')
    (forms : List Value) :
    Approximates (evaluateForms run scope forms) (evaluateForms run' scope forms) := by
  induction forms with
  | nil => exact approximates_refl _
  | cons form forms ih =>
    by_cases hforms : forms = []
    · subst hforms
      exact h _
    · rw [evaluateForms_cons hforms, evaluateForms_cons hforms]
      refine (h _).bind fun v => ?_
      split
      · exact approximates_refl _
      · exact ih

section Reached

variable (h : Reached limits session (.idle store))
  (hread : readForms source = .ok forms)

include h hread

theorem Reached.evaluate_eq
    (hfinal : ¬ Exhausted (evaluateText limits.inner.runner session.scope source store')) :
    session.evaluate source store' =
      evaluateText limits.inner.runner session.scope source store' := by
  have hinner : limits.inner.runner.Approximates session.run := by
    rw [h.run_eq]
    exact runTask_approximates (Nat.le_refl _) (Nat.sub_le _ _)
  rw [evaluateText, hread] at hfinal
  rw [Session.evaluate, evaluateText, evaluateText, hread]
  exact approximates_evaluateForms hinner forms store' hfinal

variable (hlimits : ⟨4, 5⟩ ≤ limits) (hloader : store.HasLoader session.scope.here)
  (hfile : readFileText (.ofText path) store = .ok source store)

include hlimits hloader hfile

theorem Reached.run_loadCall (hscope : store.lookup? scope "load-file" =
      store.lookup? session.scope "load-file")
    (hfault : ∀ f store', evaluateText limits.inner.runner session.scope source
      (store.loading path) ≠ .error (.fault f) store') :
    session.run (.evaluate (loadCall path) scope) store = mapEnd Value.ofScript
      (evaluateText limits.inner.runner session.scope source (store.loading path)) := by
  obtain ⟨steps, hsteps⟩ := Nat.exists_eq_add_of_le' hlimits.1
  obtain ⟨depth, hdepth⟩ := Nat.exists_eq_add_of_le' hlimits.2
  have hinner : limits.inner.runner = runTask (steps + 4) (depth + 4) := by
    rw [Limits.runner, Limits.inner, hsteps, hdepth]
    rfl
  rw [h.scope_eq, Store.lookup?_global] at hscope
  rw [evaluateText, hread, hinner, h.scope_eq] at hfault
  rw [evaluateText, hread, hinner, h.run_eq, Limits.runner, hsteps, hdepth, h.scope_eq]
  exact hloader.run_loadCall hscope hfile hread hfault

end Reached

/-- A script is loaded by evaluating its text in the global scope, whatever its path is. The call
of the loader takes one level. -/
theorem Reached.loads (h : Reached limits session (.idle store)) (hlimits : ⟨4, 5⟩ ≤ limits)
    (hloader : store.HasLoader session.scope.here)
    (hfile : readFileText (.ofText path) store = .ok source store)
    (hread : readForms source = .ok forms) :
    session.Loads limits.inner.runner path source forms store := by
  obtain ⟨layout, hfits⟩ : ∃ layout : Layout session.scope.here false, store.Fits layout := h.valid
  obtain ⟨layout', hfits'⟩ := hfits.loading path
  have hsound : Sound ⟨store.loading path, session.scope.here⟩ layout' false
      (evaluateText limits.inner.runner session.scope source) fun layout v => v.IsResult layout :=
    sound_evaluateText (runTask_isSound _ _) ((h.scope_in layout').usable _) source
  have hinv := hfits'.invariant session.scope.here
  have htext : evaluateText limits.inner.runner session.scope source =
      evaluateForms limits.inner.runner session.scope forms := by
    rw [evaluateText, hread]
  have hfault : ∀ f store', evaluateText limits.inner.runner session.scope source
      (store.loading path) ≠ .error (.fault f) store' := by
    intro f store' hend
    obtain ⟨_, _, _, hallowed⟩ := hsound.failure hinv hend
    cases hallowed
  have hcalled : ∀ scope, store.lookup? scope "load-file" =
      store.lookup? session.scope "load-file" →
      session.run (.evaluate (loadCall path) scope) store = mapEnd Value.ofScript
        (evaluateText limits.inner.runner session.scope source (store.loading path)) :=
    fun scope hscope => h.run_loadCall hread hlimits hloader hfile hscope hfault
  have hanswered : answerFile session.run session.scope path store =
      (do answerText (← catchUncaught
        (Value.ofScript <$> evaluateText limits.inner.runner session.scope source)))
      (store.loading path) := by
    rw [answerFile, answer_forms (readForms_loadCall path) nofun, evaluateForms]
    simp only [Bind.bind, EStateM.bind, catchUncaught, map_eq_mapEnd, hcalled _ rfl]
  refine ⟨h.evaluate_eq hread, hcalled, hanswered, ?_, ?_, ?_, ?_⟩
  · intro store' hcompleted
    obtain ⟨v, hend, hv⟩ := hcompleted.evaluateForms
    rw [← htext] at hend
    refine ⟨?_, runScript_finished hanswered hend hv⟩
    rw [hcalled _ rfl, hend, mapEnd, Value.ofScript, hv]
    rfl
  · rintro before part after store' result rfl hcompleted hpart hstops
    have hend := hcompleted.evaluateForms_append (List.cons_ne_nil part after)
    rw [evaluateForms_stops hpart hstops, ← htext] at hend
    rw [hcalled _ rfl, hend, mapEnd_ofScript hstops]
  · intro v store' hend hv
    obtain ⟨_, _, _, hvalid | ⟨message, rfl⟩⟩ := hsound.result hinv hend
    · rw [hvalid.errorFree.root] at hv
      cases hv
    · exact runScript_erroneous hanswered hend
  · intro payload store' hend hprintable
    exact runScript_thrown hanswered hend hprintable

def loaderDefinition : Value :=
  .ofList [.symbol "def!", .symbol "load-file",
    .ofList [.symbol "fn*", .ofList [.symbol "f"], loaderBody]]

def loaderText : String :=
  "(def! load-file (fn* (f) (eval (read-string (str \"(do \" (slurp f) \"\\nnil)\")))))"

set_option maxRecDepth 4000 in
theorem readForms_loaderText : readForms loaderText = .ok [loaderDefinition] := rfl

/-- A session to which the loader has been given. -/
theorem Reached.exists_loader (files : FileTree) :
    ∃ session store, Reached ⟨9, 9⟩ session (.idle store) ∧ store.HasLoader session.scope.here ∧
      store.files = files := by
  obtain ⟨session, store, hstart⟩ := start_bare (Limits.runner ⟨9, 9⟩) [] files "" 0
  have hdefined : ∃ v store', session.run (.evaluate loaderDefinition session.scope) store =
      .ok v store' ∧ store'.HasLoader session.scope.here ∧ store'.files = files := by
    cases hstart
    refine ⟨_, _, rfl, ⟨⟨_, _, rfl⟩, ?_⟩, rfl⟩
    simp only [loaderBuiltins, List.forall_mem_cons]
    exact ⟨⟨_, _, rfl⟩, ⟨_, _, rfl⟩, ⟨_, _, rfl⟩, ⟨_, _, rfl⟩, List.forall_mem_nil _⟩
  obtain ⟨v, store', hdefined, hloader, hfiles⟩ := hdefined
  have hevaluated : EvalM.storeAfter (session.evaluate loaderText) store = store' := by
    rw [EvalM.storeAfter, Session.evaluate, evaluateText, readForms_loaderText]
    simp only [evaluateForms, hdefined]
  exact ⟨session, store', hevaluated ▸ (Reached.started hstart).evaluated loaderText, hloader,
    hfiles⟩

/-- A file with quotes in its name that holds a definition and a comment. -/
theorem Reached.loads_definition :
    let limits : Limits := ⟨9, 9⟩
    let path := "a \"b\".mal"
    let source := "(def! a true) ; end"
    ∃ session store, Reached limits session (.idle store) ∧ store.HasLoader session.scope.here ∧
      readFileText (.ofText path) store = .ok source store ∧
      session.Loads limits.inner.runner path source
        [.ofList [.symbol "def!", .symbol "a", .bool true]] store := by
  have hbytes : FileTree.bytes ⟨[(["a \"b\".mal"], "(def! a true) ; end".toUTF8.toList)]⟩
      (.ofText "a \"b\".mal") = .ok "(def! a true) ; end".toUTF8.toList := by decide +kernel
  have htext : fileText "(def! a true) ; end".toUTF8.toList = .ok "(def! a true) ; end" := by
    decide +kernel
  have hforms : readForms "(def! a true) ; end" =
      .ok [.ofList [.symbol "def!", .symbol "a", .bool true]] := rfl
  intro limits path source
  obtain ⟨session, store, hreached, hloader, hfiles⟩ :=
    Reached.exists_loader ⟨[([path], source.toUTF8.toList)]⟩
  have hfile : readFileText (.ofText path) store = .ok source store :=
    readFileText_eq_ok_iff.mpr ⟨by decide, _, hfiles ▸ hbytes, htext⟩
  exact ⟨session, store, hreached, hloader, hfile,
    hreached.loads ⟨by decide, by decide⟩ hloader hfile hforms⟩

end SmallLisp
