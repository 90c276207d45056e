import SmallLisp.Proofs.NameGeneration
import SmallLisp.Proofs.Updates

/-! # What the bundled prelude defines

Each form of the bundled prelude binds one name. After all of them the generator is bound, its
counter is zero, and the builtins have the meaning that they had before.
-/
namespace SmallLisp

variable {scope : Scope} {home : FrameId} {store store' store'' : Store} {name : String}
  {declared body v : Value} {parameters : Parameters}

structure Store.Defined (store : Store) (scope : Scope) (name : String) (v : Value)
    (store' : Store) : Prop where
  value : store'.lookup? scope name = some v
  others : ∀ other ≠ name, store'.lookup? scope other = store.lookup? scope other
  isIn : scope.IsIn store'
  content : ∀ cell, store'.heap.content cell = store.heap.content cell

theorem Store.defined_define (hscope : scope.IsIn store) (name : String) (v : Value) :
    store.Defined scope name v (store.define scope.here name v) where
  value := Store.lookup?_define_self hscope v
  others _ hother := Store.lookup?_define_of_ne hother scope.here v
  isIn := hscope.of_le (Nat.le_of_eq (Store.nextFrame_define store scope.here name v).symm)
  content _ := rfl

theorem ends_closure (h : Parameters.ofValue declared = .ok parameters) :
    (Task.evaluate (.ofList [.symbol "fn*", declared, body]) scope).Ends store
      (.ok (.closure store.heap.nextIdentity parameters body scope false .nil)
        store.skipIdentity) := by
  have hfunction : specialForm? (.symbol "fn*") = some .function := by decide
  have hmade : Ends (fun limits => SpecialForm.function.evaluate limits.steps limits.runner
      [declared, body] scope) store (mapEnd .done (.ok (.closure store.heap.nextIdentity parameters
        body scope false .nil) store.skipIdentity)) := by
    refine ends_of_eq not_false fun limits => ?_
    simp only [SpecialForm.evaluate, h]
    rfl
  exact ends_special hfunction hmade

theorem exists_ends_definition (hscope : scope.IsIn store)
    (h : Parameters.ofValue declared = .ok parameters) (name : String) (body : Value) :
    ∃ id store', (Task.evaluate (.ofList [.symbol "def!", .symbol name,
        .ofList [.symbol "fn*", declared, body]]) scope).Ends store
        (.ok (.closure id parameters body scope false .nil) store') ∧
      store.Defined scope name (.closure id parameters body scope false .nil) store' := by
  have hskipped : scope.IsIn store.skipIdentity := hscope
  obtain ⟨hvalue, hothers, hisIn, hcontent⟩ := Store.defined_define hskipped name
    (.closure store.heap.nextIdentity parameters body scope false .nil)
  exact ⟨_, _, ends_define (ends_closure h) rfl, hvalue, hothers, hisIn, hcontent⟩

theorem exists_ends_expander (hscope : scope.IsIn store) (name : String) (body : Value) :
    ∃ v store', (Task.evaluate (expanderDefinition name body) scope).Ends store (.ok v store') ∧
      v.isError = false ∧ store.Defined scope name v store' := by
  have hskipped : scope.IsIn store.skipIdentity.skipIdentity := hscope
  have hparameters : Parameters.ofValue (.ofList [.symbol "&", .symbol "xs"]) =
      .ok ⟨[], some "xs"⟩ := rfl
  obtain ⟨hvalue, hothers, hisIn, hcontent⟩ := Store.defined_define hskipped name
    (.closure store.skipIdentity.heap.nextIdentity ⟨[], some "xs"⟩ body scope true .nil)
  exact ⟨_, _, ends_defineExpander (ends_closure hparameters), rfl, hvalue, hothers, hisIn,
    hcontent⟩

theorem content_addCell (store : Store) (v : Value) :
    (store.addCell v).heap.content store.heap.nextCell = v := by
  simp [Store.addCell, Heap.addCell, Heap.content, Heap.nextCell]

/-- The counter is a new cell that holds zero. -/
theorem exists_ends_counter (hscope : scope.IsIn store)
    (hatom : store.Offers scope (.state .atom)) :
    ∃ counter store', (Task.evaluate (.ofList [.symbol "def!", .symbol "*gensym-counter*",
        .ofList [.symbol "atom", .int 0]]) scope).Ends store (.ok (.atom counter) store') ∧
      (store.addCell (.int 0)).Defined scope "*gensym-counter*" (.atom counter) store' ∧
      store'.heap.content counter = .int 0 := by
  have hcell : (Task.evaluate (.ofList [.symbol "atom", .int 0]) scope).Ends store
      (.ok (.atom store.heap.nextCell) (store.addCell (.int 0))) :=
    hatom.ends (.cons (ends_constant rfl) rfl (.nil _)) fun _ _ => rfl
  have hadded : scope.IsIn (store.addCell (.int 0)) := hscope
  have hdefined := Store.defined_define hadded "*gensym-counter*" (.atom store.heap.nextCell)
  exact ⟨_, _, ends_define hcell rfl, hdefined,
    (hdefined.content _).trans (content_addCell store _)⟩

theorem Evaluated.forms {forms vs : List Value} (h : Evaluated scope forms store vs store') :
    Ends (fun limits => evaluateForms limits.runner scope forms) store
      (.ok (vs.getLastD .nil) store') := by
  induction h with
  | nil store => exact ends_pure _
  | @cons form v forms vs _ _ _ hform hv hforms ih =>
    cases hforms with
    | nil => exact hform
    | cons hnext hnextValue hrest =>
      have hne : ∀ next others, (next :: others : List Value) ≠ [] := List.cons_ne_nil
      simp only [evaluateForms_cons (hne _ _)]
      exact hform.continues hv ih

def definedNames : List String :=
  ["not", "load-file", "cond", "*gensym-counter*", "gensym", "or"]

/-- What the definitions of the prelude leave behind in a global scope with the builtins. -/
theorem exists_evaluated_prelude (hscope : (Scope.global home).IsIn store)
    (hoffers : ∀ op ∈ PlainBuiltin.state .atom :: generatorBuiltins,
      store.Offers (.global home) op) :
    ∃ vs store' counter, Evaluated (.global home) preludeForms store vs store' ∧
      (∃ id metadata, store'.lookup? (.global home) "gensym" =
        some (.closure id ⟨[], none⟩ generatorBody (.global home) false metadata)) ∧
      store'.CanGenerate (.global home) counter ∧ store'.heap.content counter = .int 0 := by
  have hother : ∀ op ∈ PlainBuiltin.state .atom :: generatorBuiltins, ∀ name ∈ definedNames,
      op.name ≠ name := by decide
  have hone : Parameters.ofValue (.ofList [.symbol "a"]) = .ok ⟨["a"], none⟩ := rfl
  have hfile : Parameters.ofValue (.ofList [.symbol "f"]) = .ok ⟨["f"], none⟩ := rfl
  have hnone : Parameters.ofValue (.ofVector []) = .ok ⟨[], none⟩ := rfl
  obtain ⟨_, store₁, hends₁, h₁⟩ := exists_ends_definition hscope hone "not"
    (.ofList [.symbol "if", .symbol "a", .bool false, .bool true])
  obtain ⟨_, store₂, hends₂, h₂⟩ := exists_ends_definition h₁.isIn hfile "load-file" loaderBody
  obtain ⟨_, store₃, hends₃, hv₃, h₃⟩ := exists_ends_expander h₂.isIn "cond" condBody
  have hsame₃ : ∀ op ∈ PlainBuiltin.state .atom :: generatorBuiltins,
      store₃.Offers (.global home) op := fun op hop => by
    have hnames := hother op hop
    exact (((hoffers op hop).of_lookup (h₁.others _ (hnames _ (by decide)))).of_lookup
      (h₂.others _ (hnames _ (by decide)))).of_lookup (h₃.others _ (hnames _ (by decide)))
  obtain ⟨counter, store₄, hends₄, h₄, hzero⟩ :=
    exists_ends_counter h₃.isIn (hsame₃ _ List.mem_cons_self)
  obtain ⟨id, store₅, hends₅, h₅⟩ := exists_ends_definition h₄.isIn hnone "gensym" generatorBody
  obtain ⟨_, store₆, hends₆, hv₆, h₆⟩ := exists_ends_expander h₅.isIn "or" orBody
  refine ⟨_, store₆, counter, .cons hends₁ rfl (.cons hends₂ rfl (.cons hends₃ hv₃ (.cons hends₄ rfl
    (.cons hends₅ rfl (.cons hends₆ hv₆ (.nil _)))))), ⟨id, .nil, ?_⟩, ⟨?_, fun op hop => ?_⟩, ?_⟩
  · exact (h₆.others "gensym" (by decide)).trans h₅.value
  · exact (h₆.others _ (by decide)).trans ((h₅.others _ (by decide)).trans h₄.value)
  · have hmem : op ∈ PlainBuiltin.state .atom :: generatorBuiltins := List.mem_cons_of_mem _ hop
    have hnames := hother op hmem
    exact (((hsame₃ op hmem).of_lookup (h₄.others _ (hnames _ (by decide)))).of_lookup
      (h₅.others _ (hnames _ (by decide)))).of_lookup (h₆.others _ (hnames _ (by decide)))
  · exact (h₆.content counter).trans ((h₅.content counter).trans hzero)

section Sessions

variable {vars : Variables} {arguments : List String} {files : FileTree} {input : String}
  {clock : Int} {limits : Limits} {session : Session}

theorem StartM.get_bind {α : Type} (f : Store → StartM α) (store : Store) :
    (get >>= f) store = f store store := rfl

/-- Where the prelude comes from depends on the settings and the files. -/
theorem preludeSource_of_files {source : String × String} (hfiles : store'.files = store.files)
    (h : preludeSource vars store = .ok source store'') :
    preludeSource vars store' = .ok source store' := by
  unfold preludeSource at h ⊢
  rw [StartM.get_bind] at h ⊢
  rw [hfiles]
  cases hpath : Settings.preludeFile vars store.files with
  | error fault =>
    rw [hpath] at h
    cases h
  | ok path =>
    rw [hpath] at h
    cases path with
    | none =>
      cases h
      rfl
    | some path =>
      rw [StartM.ofSetting, pure_bind] at h ⊢
      dsimp only at h ⊢
      cases hbytes : store.files.bytes path with
      | error reason =>
        rw [hbytes] at h
        cases h
      | ok bytes =>
        rw [hbytes] at h
        dsimp only at h ⊢
        cases htext : fileText bytes with
        | error reason =>
          rw [htext] at h
          cases h
        | ok text =>
          rw [htext] at h
          cases h
          rfl

theorem exists_openGlobal (arguments : List String) (files : FileTree) (input : String)
    (clock : Int) : ∃ store, openGlobal arguments (.initial files input clock) =
        .ok (.global 0) store ∧ store.files = files ∧
      ∀ op ∈ PlainBuiltin.state .atom :: generatorBuiltins, store.Offers (.global 0) op := by
  refine ⟨_, rfl, rfl, ?_⟩
  simp only [generatorBuiltins, List.forall_mem_cons]
  exact ⟨⟨_, _, _, rfl⟩, ⟨_, _, _, rfl⟩, ⟨_, _, _, rfl⟩, ⟨_, _, _, rfl⟩, ⟨_, _, _, rfl⟩,
    List.forall_mem_nil _⟩

/-- A session that is started with the bundled prelude has the generator of names, and its counter
is zero. -/
theorem start_binds_generator
    (h : Session.start limits.runner vars arguments true (.initial files input clock) =
      .ok session store) (hprelude : preludeSource vars (.initial files input clock) =
      .ok (name, bundledPrelude) (.initial files input clock)) :
    session.run = limits.runner ∧ ∃ home counter, session.scope = .global home ∧
      (∃ id metadata, store.lookup? (.global home) "gensym" =
        some (.closure id ⟨[], none⟩ generatorBody (.global home) false metadata)) ∧
      store.CanGenerate (.global home) counter ∧ store.heap.content counter = .int 0 := by
  obtain ⟨hrun, opened, hopened, hload⟩ := start_opens h
  obtain ⟨opened', hopened', hfiles, hoffers⟩ := exists_openGlobal arguments files input clock
  obtain ⟨hscope, rfl⟩ := EStateM.Result.ok.inj (hopened'.symm.trans hopened)
  obtain ⟨name', source, v, hsource, hv⟩ := loadPrelude_eq_ok hload
  cases hsource.symm.trans (preludeSource_of_files hfiles hprelude)
  obtain ⟨vs, store', counter, hevaluated, hgenerator, hgen, hzero⟩ :=
    exists_evaluated_prelude (hoffers _ List.mem_cons_self).isIn hoffers
  have hforms : evaluateForms limits.runner (.global 0) preludeForms opened' = .ok v store := by
    rw [evaluateText, readForms_bundledPrelude, ← hscope] at hv
    exact hv
  have hfinal : ¬ Exhausted (evaluateForms limits.runner (.global 0) preludeForms opened') := by
    rw [hforms]
    exact not_false
  have hsame := hevaluated.forms.eq_of_approximates (fun limits limits' hle =>
    approximates_evaluateForms (runTask_approximates hle.1 hle.2) preludeForms) hfinal
  cases hforms.symm.trans hsame
  exact ⟨hrun, 0, counter, hscope.symm, hgenerator, hgen, hzero⟩

end Sessions

end SmallLisp
