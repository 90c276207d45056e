import SmallLisp.Proofs.Evaluator
import SmallLisp.Session

/-! # Every store of a session fits a layout

A new session has one frame, which is its own outermost one. Whatever texts it is given after that,
its store fits a layout in which no frame that was there before has moved.
-/
namespace SmallLisp

variable {home : FrameId} {tolerant : Bool} {layout : Layout home tolerant} {origin : Origin}
  {run : Runner} {scope : Scope} {faulty : Bool}

def EvalM.storeAfter {α : Type} (evaluation : EvalM α) (store : Store) : Store :=
  match evaluation store with
  | .ok _ store' => store'
  | .error _ store' => store'

theorem Sound.storeAfter {α : Type} {x : EvalM α} {ok : Layout home tolerant → α → Prop}
    (h : Sound origin layout faulty x ok) {store : Store}
    (hinv : Invariant origin layout store) : ∃ layout' : Layout home tolerant,
      layout.Within layout' ∧ Invariant origin layout' (EvalM.storeAfter x store) := by
  unfold EvalM.storeAfter
  cases hr : x store with
  | ok a store' =>
    obtain ⟨layout', hl, hinv', _⟩ := h.result hinv hr
    exact ⟨layout', hl, hinv'⟩
  | error failure store' =>
    obtain ⟨layout', hl, hinv', _⟩ := h.failure hinv hr
    exact ⟨layout', hl, hinv'⟩

theorem sound_evaluateForms (hrun : run.IsSound home tolerant) (hscope : scope.Usable origin layout)
    {forms : List Value} (h : ∀ v ∈ forms, v.Valid layout) :
    Sound origin layout false (evaluateForms run scope forms)
      fun layout' v => v.IsResult layout' := by
  induction forms using evaluateForms.induct generalizing layout with
  | case1 => exact sound_pure (.inl Value.valid_nil)
  | case2 form => exact hrun.evaluate hscope (h form List.mem_cons_self)
  | case3 form forms hne ih =>
    obtain ⟨hform, hforms⟩ := List.forall_mem_cons.mp h
    rw [evaluateForms]
    · refine (hrun.evaluate hscope hform).bind fun layout' hl v hv => ?_
      split
      · exact sound_pure hv
      · exact ih (hscope.mono hl) (Value.forall_valid_mono hforms hl)
    · exact hne

theorem sound_evaluateText (hrun : run.IsSound home tolerant) (hscope : scope.Usable origin layout)
    (source : String) :
    Sound origin layout false (evaluateText run scope source)
      fun layout' v => v.IsResult layout' := by
  unfold evaluateText
  split
  · next hforms => exact sound_evaluateForms hrun hscope (readForms_valid hforms)
  · exact (EvalM.sound_errorOf _).mono fun _ _ h => .inr h
  · next hlong => exact EvalM.sound_abort (readForms_longLiteral hlong)

theorem sound_answerText (v : Value) :
    Sound origin layout faulty (answerText v) fun _ _ => True :=
  (EvalM.sound_print true v).bind fun _ _ _ _ => sound_pure trivial

theorem sound_catchUncaught {evaluation : EvalM Value} {ok : Layout home tolerant → Value → Prop}
    (h : Sound origin layout faulty evaluation ok) :
    Sound origin layout faulty (catchUncaught evaluation) fun _ _ => True := by
  intro store hinv
  unfold catchUncaught
  cases hr : evaluation store with
  | ok a store' =>
    obtain ⟨layout', hl, hinv', _⟩ := h.result hinv hr
    exact ⟨layout', hl, hinv', trivial⟩
  | error failure store' =>
    obtain ⟨layout', hl, hinv', hf⟩ := h.failure hinv hr
    cases failure with
    | fault f => exact ⟨layout', hl, hinv', hf⟩
    | thrown payload => exact ⟨layout', hl, hinv', trivial⟩
    | abort reason =>
      cases reason with
      | exhausted => exact ⟨layout', hl, hinv', trivial⟩
      | endless => exact ⟨layout', hl, hinv', trivial⟩
      | _ => exact ⟨layout', hl, hinv', hf⟩

theorem sound_answer (hrun : run.IsSound home tolerant) (hscope : scope.Usable origin layout)
    (source : String) :
    Sound origin layout false (answer run scope source) fun _ _ => True := by
  unfold answer
  split
  · exact (EvalM.sound_errorOf _).bind fun _ _ v _ => sound_answerText v
  · next hlong => exact EvalM.sound_abort (readForms_longLiteral hlong)
  · exact sound_pure trivial
  · next hforms =>
    have hrest := sound_evaluateForms hrun hscope (readForms_valid hforms)
    exact (sound_catchUncaught hrest).bind fun _ _ v _ => sound_answerText v

theorem bind_eq_ok {ε σ α β : Type} {x : EStateM ε σ α} {f : α → EStateM ε σ β} {s s' : σ} {b : β}
    (h : (x >>= f) s = .ok b s') : ∃ a s'', x s = .ok a s'' ∧ f a s'' = .ok b s' := by
  simp only [Bind.bind, EStateM.bind] at h
  cases hx : x s with
  | ok a s'' =>
    rw [hx] at h
    exact ⟨a, s'', rfl, h⟩
  | error e s'' =>
    rw [hx] at h
    cases h

/-- The bindings of the builtins are functions of the global frame, and making them changes no
frame, cell or file. -/
theorem builtinBindings_eq_ok {ops : List Builtin} {store store' : Store} {frame : Frame}
    (h : builtinBindings home ops store = .ok frame store') :
    (∀ b ∈ frame, b.2.Valid layout) ∧ store'.frames = store.frames ∧
      store'.heap.cells = store.heap.cells := by
  induction ops generalizing store frame with
  | nil =>
    cases h
    exact ⟨List.forall_mem_nil _, rfl, rfl⟩
  | cons op ops ih =>
    rw [builtinBindings] at h
    obtain ⟨id, store₁, hid, hrest⟩ := bind_eq_ok h
    obtain ⟨others, store₂, hothers, hpure⟩ := bind_eq_ok hrest
    cases hid
    cases hpure
    obtain ⟨hvalid, hframes, hcells⟩ := ih hothers
    have hnative : (Value.native store.heap.nextIdentity op home .nil).Valid layout :=
      Value.valid_native.mpr ⟨rfl, Value.valid_nil⟩
    exact ⟨List.forall_mem_cons.mpr ⟨hnative, hvalid⟩, hframes, hcells⟩

def Layout.single : Layout 0 tolerant where
  links := [[]]
  home_global := rfl
  nested := by
    intro f chain h
    obtain ⟨hlt, hchain⟩ := List.getElem?_eq_some_iff.mp h
    have hf : f = 0 := Nat.lt_one_iff.mp hlt
    subst hf
    exact .inl ⟨rfl, hchain.symm⟩

theorem openGlobal_fits {arguments : List String} {files : FileTree} {input : String}
    {clock : Int} {store : Store}
    (h : openGlobal arguments (.initial files input clock) = .ok scope store) :
    scope = .global scope.here ∧ ∃ layout : Layout scope.here tolerant, store.Fits layout := by
  obtain ⟨_, _, hget, h⟩ := bind_eq_ok h
  cases hget
  obtain ⟨builtins, store₁, hbuiltins, h⟩ := bind_eq_ok h
  obtain ⟨_, store₂, hmodify, hpure⟩ := bind_eq_ok h
  cases hmodify
  cases hpure
  have hbindings : (∀ b ∈ builtins, b.2.Valid (.single : Layout 0 tolerant)) ∧ _ ∧ _ :=
    builtinBindings_eq_ok hbuiltins
  obtain ⟨hvalid, hframes, hcells⟩ := hbindings
  have hsize : store₁.frames.size = 0 := by rw [hframes]; rfl
  refine ⟨rfl, Layout.single, ?_, ?_, ?_⟩
  · exact (Array.size_push _).trans (congrArg Nat.succ hsize)
  · intro f
    rw [Store.frame_addFrame]
    split
    · refine List.forall_mem_append.mpr ⟨hvalid, ?_⟩
      simp only [List.forall_mem_cons]
      refine ⟨Value.valid_str _, Value.valid_ofList ?_, List.forall_mem_nil _⟩
      exact List.forall_mem_map.mpr fun text _ => Value.valid_str text
    · have hempty : store₁.frame f = [] := by
        rw [Store.frame, hframes]
        rfl
      rw [hempty]
      exact Frame.valid_nil
  · intro cell
    have hempty : store₁.heap.content cell = .nil := by
      rw [Heap.content, hcells]
      rfl
    exact hempty ▸ Value.valid_nil

theorem ofEval_eq_ok {α : Type} {x : EvalM α} {store store' : Store} {a : α}
    (h : StartM.ofEval x store = .ok a store') : x store = .ok a store' := by
  unfold StartM.ofEval at h
  split at h
  · next hx =>
    cases h
    exact hx
  · cases h

theorem ofSetting_eq_ok {α : Type} {x : Except SettingFault α} {store store' : Store} {a : α}
    (h : StartM.ofSetting x store = .ok a store') : store' = store := by
  cases x with
  | ok b =>
    cases h
    rfl
  | error fault => cases h

theorem preludeSource_eq_ok {vars : Variables} {store store' : Store} {source : String × String}
    (h : preludeSource vars store = .ok source store') : store' = store := by
  obtain ⟨_, _, hget, h⟩ := bind_eq_ok h
  cases hget
  obtain ⟨path, store₁, hpath, h⟩ := bind_eq_ok h
  have hstore := ofSetting_eq_ok hpath
  subst hstore
  cases path with
  | none =>
    cases h
    rfl
  | some path =>
    cases hbytes : store₁.files.bytes path with
    | error reason =>
      simp only [hbytes] at h
      cases h
    | ok bytes =>
      simp only [hbytes] at h
      obtain ⟨text, store₂, htext, hpure⟩ := bind_eq_ok h
      cases hpure
      have hread := ofEval_eq_ok htext
      cases hfile : fileText bytes with
      | error reason =>
        rw [hfile] at hread
        cases hread
      | ok text' =>
        rw [hfile] at hread
        cases hread
        rfl

theorem loadPrelude_eq_ok {vars : Variables} {store store' : Store}
    (h : loadPrelude run vars scope store = .ok () store') :
    ∃ name source v, preludeSource vars store = .ok (name, source) store ∧
      evaluateText run scope source store = .ok v store' := by
  obtain ⟨⟨name, source⟩, store₁, hsource, heval⟩ := bind_eq_ok h
  have hkept := preludeSource_eq_ok hsource
  subst hkept
  obtain ⟨v, store₂, hv, hmatch⟩ := bind_eq_ok heval
  refine ⟨name, source, v, hsource, ?_⟩
  cases v with
  | error => cases hmatch
  | _ =>
    cases hmatch
    exact ofEval_eq_ok hv

/-- A session is started by opening its global frame and, if it is wanted, loading a prelude. -/
theorem start_opens {vars : Variables} {arguments : List String} {withPrelude : Bool}
    {store store' : Store} {session : Session}
    (h : Session.start run vars arguments withPrelude store = .ok session store') :
    session.run = run ∧ ∃ store₁, openGlobal arguments store = .ok session.scope store₁ ∧
      if withPrelude then loadPrelude run vars session.scope store₁ = .ok () store'
      else store' = store₁ := by
  obtain ⟨limit, store₀, hlimit, hlimited⟩ := bind_eq_ok h
  have hstore := ofSetting_eq_ok hlimit
  subst hstore
  dsimp only at hlimited
  split at hlimited
  · obtain ⟨_, _, hthrow, _⟩ := bind_eq_ok hlimited
    cases hthrow
  · obtain ⟨scope, store₁, hbuild, hnames⟩ := bind_eq_ok hlimited
    obtain ⟨_, store₂, hget, hpure⟩ := bind_eq_ok hnames
    cases hget
    cases hpure
    obtain ⟨scope', store₃, hopen, hprelude⟩ := bind_eq_ok hbuild
    have hopened := ofEval_eq_ok hopen
    cases withPrelude with
    | true =>
      obtain ⟨_, store₄, hload, hpure⟩ := bind_eq_ok hprelude
      cases hpure
      exact ⟨rfl, _, hopened, hload⟩
    | false =>
      cases hprelude
      exact ⟨rfl, _, hopened, rfl⟩

theorem start_eq_ok {vars : Variables} {arguments : List String} {withPrelude : Bool}
    {store store' : Store} {session : Session}
    (h : Session.start run vars arguments withPrelude store = .ok session store') :
    session.run = run ∧ ∃ store₁, openGlobal arguments store = .ok session.scope store₁ ∧
      (store' = store₁ ∨
        ∃ source v, evaluateText run session.scope source store₁ = .ok v store') := by
  obtain ⟨hrun, store₁, hopened, hprelude⟩ := start_opens h
  refine ⟨hrun, store₁, hopened, ?_⟩
  cases withPrelude with
  | true =>
    obtain ⟨_, source, v, _, hv⟩ := loadPrelude_eq_ok hprelude
    exact .inr ⟨source, v, hv⟩
  | false => exact .inl hprelude

theorem start_bare (run : Runner) (arguments : List String) (files : FileTree) (input : String)
    (clock : Int) : ∃ session store,
      Session.start run [] arguments false (.initial files input clock) = .ok session store :=
  ⟨_, _, rfl⟩

end SmallLisp
