import SmallLisp.Evaluation.Task
import SmallLisp.Proofs.Layout

/-! # Evaluations that keep the store sound

An evaluation starts in some store and may write one of the frames that exist there, the global
frame and all frames that it adds itself. An evaluation is sound if it keeps the store valid and
the other frames as they were, whether it ends in a result or in a failure, and if the result or
failure is as wanted. Soundness is proved operation by operation and passes through sequencing.
-/
namespace SmallLisp

/-- Where an evaluation started: the store at that time, and the frame that it may write. -/
structure Origin where
  store : Store
  own : FrameId

def Origin.Allows (origin : Origin) (home f : FrameId) : Prop :=
  f = origin.own ∨ f = home ∨ origin.store.frames.size ≤ f

structure Store.Since (origin : Origin) (home : FrameId) (store : Store) : Prop where
  files_eq : store.files = origin.store.files
  console_faults : ∀ fault, store.console.CanFail fault → origin.store.console.CanFail fault
  grown : origin.store.frames.size ≤ store.frames.size
  untouched : ∀ f, ¬ origin.Allows home f → store.frame f = origin.store.frame f
  names_kept : ∀ f, (origin.store.frame f).names <+: (store.frame f).names

theorem Store.since_self (store : Store) (own home : FrameId) :
    store.Since ⟨store, own⟩ home :=
  ⟨rfl, fun _ h => h, Nat.le_refl _, fun _ _ => rfl, fun _ => List.prefix_refl _⟩

variable {home : FrameId} {tolerant : Bool} {layout layout' : Layout home tolerant}
  {origin : Origin}

structure Invariant (origin : Origin) (layout : Layout home tolerant) (store : Store) : Prop where
  fits : store.Fits layout
  since : store.Since origin home

/-- The aborts that have a reason: a literal beyond the limit, a file that is no text, or a fault of
the console. -/
def Abort.Genuine (store : Store) : Abort → Prop
  | .longLiteral digits => Text.digitLimit < digits
  | .undecodable failure =>
    ∃ path bytes, store.files.bytes path = .ok bytes ∧ Text.decodeUtf8 bytes = .error failure
  | .console fault => store.console.CanFail fault
  | _ => True

/-- The failures that an evaluation may end in. `faulty` says whether faults are among them. -/
def Failure.Allowed (store : Store) (layout : Layout home tolerant) (faulty : Bool) :
    Failure → Prop
  | .fault _ => faulty = true
  | .thrown payload => payload.Valid layout
  | .abort reason => reason.Genuine store

variable {α β : Type} {faulty : Bool} {ok ok' : Layout home tolerant → α → Prop}

def SoundEnd (origin : Origin) (layout : Layout home tolerant) (faulty : Bool)
    (ok : Layout home tolerant → α → Prop) : EStateM.Result Failure Store α → Prop
  | .ok a store => ∃ layout' : Layout home tolerant,
    layout.Within layout' ∧ Invariant origin layout' store ∧ ok layout' a
  | .error failure store => ∃ layout' : Layout home tolerant,
    layout.Within layout' ∧ Invariant origin layout' store ∧
      failure.Allowed origin.store layout' faulty

def Sound (origin : Origin) (layout : Layout home tolerant) (faulty : Bool) (x : EvalM α)
    (ok : Layout home tolerant → α → Prop) : Prop :=
  ∀ store, Invariant origin layout store → SoundEnd origin layout faulty ok (x store)

theorem Sound.result {x : EvalM α} (h : Sound origin layout faulty x ok) {store store' : Store}
    {a : α} (hinv : Invariant origin layout store) (hx : x store = .ok a store') :
    ∃ layout' : Layout home tolerant,
      layout.Within layout' ∧ Invariant origin layout' store' ∧ ok layout' a := by
  have hout := h store hinv
  rw [hx] at hout
  exact hout

theorem Sound.failure {x : EvalM α} (h : Sound origin layout faulty x ok)
    {store store' : Store} {failure : Failure} (hinv : Invariant origin layout store)
    (hx : x store = .error failure store') :
    ∃ layout' : Layout home tolerant, layout.Within layout' ∧ Invariant origin layout' store' ∧
      failure.Allowed origin.store layout' faulty := by
  have hout := h store hinv
  rw [hx] at hout
  exact hout

theorem SoundEnd.within {result : EStateM.Result Failure Store α} (hl : layout.Within layout')
    (h : SoundEnd origin layout' faulty ok result) : SoundEnd origin layout faulty ok result := by
  cases result with
  | ok a store =>
    obtain ⟨layout'', hl', hinv, ha⟩ := h
    exact ⟨layout'', hl.trans hl', hinv, ha⟩
  | error failure store =>
    obtain ⟨layout'', hl', hinv, hf⟩ := h
    exact ⟨layout'', hl.trans hl', hinv, hf⟩

theorem Sound.mono {x : EvalM α} (h : Sound origin layout faulty x ok)
    (hok : ∀ layout' a, ok layout' a → ok' layout' a) : Sound origin layout faulty x ok' := by
  intro store hinv
  cases hx : x store with
  | ok a store' =>
    obtain ⟨layout', hl, hinv', ha⟩ := h.result hinv hx
    exact ⟨layout', hl, hinv', hok layout' a ha⟩
  | error failure store' => exact h.failure hinv hx

theorem sound_pure {a : α} (h : ok layout a) : Sound origin layout faulty (pure a) ok :=
  fun _ hinv => ⟨layout, .refl layout, hinv, h⟩

theorem Sound.bind {x : EvalM α} {f : α → EvalM β} {okf : Layout home tolerant → β → Prop}
    (hx : Sound origin layout faulty x ok)
    (hf : ∀ layout' : Layout home tolerant, layout.Within layout' → ∀ a, ok layout' a →
      Sound origin layout' faulty (f a) okf) :
    Sound origin layout faulty (x >>= f) okf := by
  intro store hinv
  cases hr : x store with
  | ok a store' =>
    obtain ⟨layout', hl, hinv', ha⟩ := hx.result hinv hr
    have hrest := hf layout' hl a ha store' hinv'
    have hrun : (x >>= f) store = f a store' := by
      simp only [Bind.bind, EStateM.bind, hr]
    rw [hrun]
    exact hrest.within hl
  | error failure store' =>
    have hrun : (x >>= f) store = .error failure store' := by
      simp only [Bind.bind, EStateM.bind, hr]
    rw [hrun]
    exact hx.failure hinv hr

theorem sound_throw {failure : Failure}
    (h : failure.Allowed origin.store layout faulty) :
    Sound origin layout faulty (throw failure : EvalM α) ok :=
  fun _ hinv => ⟨layout, .refl layout, hinv, h⟩

theorem Sound.bind_get {f : Store → EvalM α}
    (h : ∀ store, Invariant origin layout store → Sound origin layout faulty (f store) ok) :
    Sound origin layout faulty (get >>= f) ok :=
  fun store hinv => h store hinv store hinv

theorem sound_modify {g : Store → Store}
    (h : ∀ store, Invariant origin layout store → Invariant origin layout (g store)) :
    Sound origin layout faulty (modify g) fun _ _ => True :=
  fun store hinv => ⟨layout, .refl layout, h store hinv, trivial⟩

theorem Sound.bind_modify {g : Store → Store} {f : PUnit → EvalM α} (hl : layout.Within layout')
    (hg : ∀ store, Invariant origin layout store → Invariant origin layout' (g store))
    (hf : Sound origin layout' faulty (f ⟨⟩) ok) :
    Sound origin layout faulty (modify g >>= f) ok :=
  fun store hinv => (hf (g store) (hg store hinv)).within hl

/-- Faults may be allowed where there are none. -/
theorem Sound.allowFaults {x : EvalM α} (h : Sound origin layout false x ok) :
    Sound origin layout faulty x ok := by
  intro store hinv
  cases hr : x store with
  | ok a store' => exact h.result hinv hr
  | error failure store' =>
    obtain ⟨layout', hl, hinv', hf⟩ := h.failure hinv hr
    refine ⟨layout', hl, hinv', ?_⟩
    cases failure with
    | fault f => cases hf
    | thrown payload => exact hf
    | abort reason => exact hf

structure Scope.Usable (origin : Origin) (layout : Layout home tolerant) (scope : Scope) :
    Prop where
  inLayout : scope.In layout
  allowed : origin.Allows home scope.here

theorem Scope.Usable.mono {scope : Scope} (h : scope.Usable origin layout)
    (hl : layout.Within layout') : scope.Usable origin layout' :=
  ⟨h.inLayout.mono hl, h.allowed⟩

theorem Scope.usable_global (origin : Origin) (layout : Layout home tolerant) :
    (Scope.global home).Usable origin layout :=
  ⟨Scope.in_global layout, .inr (.inl rfl)⟩

def Task.Valid (origin : Origin) (layout : Layout home tolerant) : Task → Prop
  | .evaluate form scope => form.Valid layout ∧ scope.Usable origin layout
  | .call function arguments => function.Valid layout ∧ ∀ v ∈ arguments, v.Valid layout

def Step.Valid (origin : Origin) (layout : Layout home tolerant) : Step → Prop
  | .done v => v.IsResult layout
  | .tail form scope => (Task.evaluate form scope).Valid origin layout

def AreResults (layout : Layout home tolerant) : Except Value (List Value) → Prop
  | .ok vs => ∀ v ∈ vs, v.Valid layout
  | .error e => e.IsResult layout

def Runner.IsSound (home : FrameId) (tolerant : Bool) (run : Runner) : Prop :=
  ∀ (origin : Origin) (layout : Layout home tolerant) (task : Task), task.Valid origin layout →
    Sound origin layout false (run task) fun layout' v => v.IsResult layout'

variable {run : Runner} {scope : Scope}

theorem Runner.IsSound.evaluate (hrun : run.IsSound home tolerant)
    (hscope : scope.Usable origin layout)
    {form : Value} (hform : form.Valid layout) :
    Sound origin layout false (run (.evaluate form scope))
      fun layout' v => v.IsResult layout' :=
  hrun origin layout _ ⟨hform, hscope⟩

theorem Runner.IsSound.call (hrun : run.IsSound home tolerant) {function : Value}
    (hfunction : function.Valid layout) {arguments : List Value}
    (h : ∀ v ∈ arguments, v.Valid layout) :
    Sound origin layout false (run (.call function arguments))
      fun layout' v => v.IsResult layout' :=
  hrun origin layout _ ⟨hfunction, h⟩

/-- One more result in front of others, which are not looked for after an error value. -/
theorem Sound.consResults {x : EvalM Value} {rest : EvalM (Except Value (List Value))}
    (hx : Sound origin layout false x fun layout' v => v.IsResult layout')
    (hrest : ∀ layout' : Layout home tolerant, layout.Within layout' →
      Sound origin layout' faulty rest AreResults) :
    Sound origin layout faulty (do
      let v ← x
      if v.isError then return .error v
      else
        match ← rest with
        | .error e => return .error e
        | .ok vs => return .ok (v :: vs)) AreResults := by
  refine hx.allowFaults.bind fun layout' hl v hv => ?_
  split
  · exact sound_pure hv
  · next hne =>
    have hvalid := hv.valid (Bool.eq_false_iff.mpr hne)
    refine (hrest layout' hl).bind fun layout'' hl' r hr => ?_
    cases r with
    | error e => exact sound_pure hr
    | ok vs => exact sound_pure (List.forall_mem_cons.mpr ⟨hvalid.mono hl', hr⟩)

theorem sound_mapItems (hrun : run.IsSound home tolerant) {function : Value}
    (hfunction : function.Valid layout) {items : List Value}
    (h : ∀ v ∈ items, v.Valid layout) :
    Sound origin layout faulty (mapItems run function items) AreResults := by
  induction items generalizing layout with
  | nil => exact sound_pure (List.forall_mem_nil _)
  | cons item items ih =>
    obtain ⟨hitem, hitems⟩ := List.forall_mem_cons.mp h
    exact (hrun.call hfunction (List.forall_mem_singleton.mpr hitem)).consResults fun layout' hl =>
      ih (hfunction.mono hl) (Value.forall_valid_mono hitems hl)

theorem sound_evaluateAll (hrun : run.IsSound home tolerant) (hscope : scope.Usable origin layout)
    {forms : List Value} (h : ∀ v ∈ forms, v.Valid layout) :
    Sound origin layout faulty (evaluateAll run scope forms) AreResults := by
  induction forms generalizing layout with
  | nil => exact sound_pure (List.forall_mem_nil _)
  | cons form forms ih =>
    obtain ⟨hform, hforms⟩ := List.forall_mem_cons.mp h
    exact (hrun.evaluate hscope hform).consResults fun layout' hl =>
      ih (hscope.mono hl) (Value.forall_valid_mono hforms hl)

end SmallLisp
