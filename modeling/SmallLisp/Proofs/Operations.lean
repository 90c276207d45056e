import SmallLisp.Proofs.Printing
import SmallLisp.Proofs.Soundness

/-! # The operations of evaluation are sound

What evaluation does to a store is made of a few operations: it adds and writes frames and cells,
gives out identities and writes to the console. Each keeps the invariant, and a new frame gets its
place in the layout.
-/
namespace SmallLisp

variable {home : FrameId} {tolerant : Bool} {layout layout' : Layout home tolerant}
  {origin : Origin}

/-- Nothing matters to the invariant but the frames, the cells, the files and what the console may
still come to. -/
theorem Invariant.congr {store store' : Store} (h : Invariant origin layout store)
    (hframes : store'.frames = store.frames) (hcells : store'.heap.cells = store.heap.cells)
    (hfiles : store'.files = store.files)
    (hconsole : ∀ fault, store'.console.CanFail fault → store.console.CanFail fault) :
    Invariant origin layout store' := by
  have hframe : ∀ f, store'.frame f = store.frame f := by
    intro f
    rw [Store.frame, Store.frame, hframes]
  have hcontent : ∀ cell, store'.heap.content cell = store.heap.content cell := by
    intro cell
    rw [Heap.content, Heap.content, hcells]
  refine ⟨⟨?_, ?_, ?_⟩, ⟨?_, ?_, ?_, ?_, ?_⟩⟩
  · rw [hframes]
    exact h.fits.size_eq
  · intro f
    rw [hframe]
    exact h.fits.bindings f
  · intro cell
    rw [hcontent]
    exact h.fits.contents cell
  · rw [hfiles]
    exact h.since.files_eq
  · exact fun fault hfault => h.since.console_faults fault (hconsole fault hfault)
  · rw [hframes]
    exact h.since.grown
  · intro f hf
    rw [hframe]
    exact h.since.untouched f hf
  · intro f
    rw [hframe]
    exact h.since.names_kept f

theorem Store.frame_define (store : Store) (f g : FrameId) (name : String) (v : Value) :
    (store.define f name v).frame g =
      if f = g ∧ g < store.frames.size then (store.frame g).bind name v else store.frame g := by
  simp only [Store.frame, Store.define, Array.getD_eq_getD_getElem?, Array.getElem?_modify]
  by_cases hfg : f = g
  · by_cases hg : g < store.frames.size
    · simp [hfg, hg]
    · simp [hfg, hg]
  · simp [hfg]

theorem Invariant.define {store : Store} (h : Invariant origin layout store) {f : FrameId}
    (hf : origin.Allows home f) (name : String) {v : Value} (hv : v.Valid layout) :
    Invariant origin layout (store.define f name v) := by
  refine ⟨⟨?_, ?_, h.fits.contents⟩, ⟨h.since.files_eq, h.since.console_faults, ?_, ?_, ?_⟩⟩
  · rw [← h.fits.size_eq]
    exact Array.size_modify
  · intro g
    rw [Store.frame_define]
    split
    · exact (h.fits.bindings g).bind name hv
    · exact h.fits.bindings g
  · rw [Store.define, Array.size_modify]
    exact h.since.grown
  · intro g hg
    rw [Store.frame_define, if_neg]
    · exact h.since.untouched g hg
    · rintro ⟨rfl, _⟩
      exact hg hf
  · intro g
    rw [Store.frame_define]
    split
    · exact (h.since.names_kept g).trans (Frame.names_bind _ name v)
    · exact h.since.names_kept g

theorem Store.frame_of_le {store : Store} {f : FrameId} (h : store.nextFrame ≤ f) :
    store.frame f = [] := by
  rw [Store.frame, Array.getD_eq_getD_getElem?, Array.getElem?_eq_none h, Option.getD_none]

theorem Store.frame_addFrame (store : Store) (frame : Frame) (g : FrameId) :
    (store.addFrame frame).frame g = if g = store.frames.size then frame else store.frame g := by
  simp only [Store.frame, Store.addFrame, Array.getD_eq_getD_getElem?, Array.getElem?_push]
  split
  · rfl
  · rfl

def Layout.extend (layout : Layout home tolerant) {outer : Scope} (houter : outer.In layout) :
    Layout home tolerant where
  links := layout.links ++ [outer.frames]
  home_global := by
    rw [List.getElem?_append_left (List.getElem?_eq_some_iff.mp layout.home_global).1]
    exact layout.home_global
  nested := by
    have hold : ∀ (f : FrameId) (chain : List FrameId), layout.links[f]? = some chain →
        (layout.links ++ [outer.frames])[f]? = some chain := by
      intro f chain hf
      rw [List.getElem?_append_left (List.getElem?_eq_some_iff.mp hf).1]
      exact hf
    intro f chain hf
    by_cases hlt : f < layout.links.length
    · rw [List.getElem?_append_left hlt] at hf
      rcases layout.nested f chain hf with hhome | ⟨scope, hscope, rfl⟩
      · exact .inl hhome
      · exact .inr ⟨scope, hold _ _ hscope, rfl⟩
    · rw [List.getElem?_append_right (Nat.le_of_not_lt hlt)] at hf
      have hchain : chain = outer.frames := List.mem_singleton.mp (List.mem_of_getElem? hf)
      exact .inr ⟨outer, hold _ _ houter, hchain⟩

theorem Layout.within_extend (layout : Layout home tolerant) {outer : Scope}
    (houter : outer.In layout) : layout.Within (layout.extend houter) :=
  List.prefix_append _ _

theorem Invariant.addFrame {store : Store} (h : Invariant origin layout store) {outer : Scope}
    (houter : outer.In layout) {frame : Frame} (hframe : frame.Valid layout) :
    Invariant origin (layout.extend houter) (store.addFrame frame) := by
  have hl := layout.within_extend houter
  have hsize : (store.addFrame frame).frames.size = store.frames.size + 1 := Array.size_push _
  refine ⟨⟨?_, ?_, fun cell => (h.fits.contents cell).mono hl⟩,
    ⟨h.since.files_eq, h.since.console_faults, ?_, ?_, ?_⟩⟩
  · rw [hsize, h.fits.size_eq, Layout.extend, List.length_append, List.length_singleton]
  · intro g
    rw [Store.frame_addFrame]
    split
    · exact hframe.mono hl
    · exact (h.fits.bindings g).mono hl
  · rw [hsize]
    exact Nat.le_succ_of_le h.since.grown
  · intro g hg
    -- a frame that may not be written is an old one, so it is not the one that is added
    have hold : g < origin.store.frames.size :=
      Nat.lt_of_not_le fun hge => hg (.inr (.inr hge))
    have hne : g ≠ store.frames.size := Nat.ne_of_lt (Nat.lt_of_lt_of_le hold h.since.grown)
    rw [Store.frame_addFrame, if_neg hne]
    exact h.since.untouched g hg
  · intro g
    rw [Store.frame_addFrame]
    split
    · next hg =>
      rw [Store.frame_of_le (hg ▸ h.since.grown)]
      exact List.nil_prefix
    · exact h.since.names_kept g

theorem Invariant.addCell {store : Store} (h : Invariant origin layout store) {content : Value}
    (hc : content.Valid layout) : Invariant origin layout (store.addCell content) := by
  refine ⟨⟨h.fits.size_eq, h.fits.bindings, ?_⟩, ⟨h.since.files_eq,
    h.since.console_faults, h.since.grown, h.since.untouched, h.since.names_kept⟩⟩
  intro cell
  have hold := h.fits.contents cell
  simp only [Heap.content, Store.addCell, Heap.addCell, Array.getD_eq_getD_getElem?,
    Array.getElem?_push] at hold ⊢
  split
  · exact hc
  · exact hold

theorem Invariant.setCell {store : Store} (h : Invariant origin layout store) (cell : CellId)
    {content : Value} (hc : content.Valid layout) :
    Invariant origin layout (store.setCell cell content) := by
  refine ⟨⟨h.fits.size_eq, h.fits.bindings, ?_⟩, ⟨h.since.files_eq,
    h.since.console_faults, h.since.grown, h.since.untouched, h.since.names_kept⟩⟩
  intro other
  have hold := h.fits.contents other
  simp only [Heap.content, Store.setCell, Heap.setCell, Array.getD_eq_getD_getElem?,
    Array.getElem?_setIfInBounds] at hold ⊢
  split
  · split
    · exact hc
    · exact Value.valid_nil
  · exact hold

theorem Heap.content_setCell_self {heap : Heap} {cell : CellId} (h : cell < heap.nextCell)
    (v : Value) : (heap.setCell cell v).content cell = v := by
  have hsize : cell < (heap.cells.setIfInBounds cell v).size := by
    rwa [Array.size_setIfInBounds]
  rw [Heap.content, Heap.setCell, Array.getD_eq_getD_getElem?, Array.getElem?_eq_getElem hsize,
    Array.getElem_setIfInBounds_self, Option.getD_some]

theorem Heap.content_setCell_of_ne {heap : Heap} {cell other : CellId} (h : other ≠ cell)
    (v : Value) : (heap.setCell cell v).content other = heap.content other := by
  rw [Heap.content, Heap.setCell, Array.getD_eq_getD_getElem?,
    Array.getElem?_setIfInBounds_ne (Ne.symm h), ← Array.getD_eq_getD_getElem?]
  rfl

variable {α : Type} {faulty : Bool} {ok : Layout home tolerant → α → Prop}

theorem Abort.OfPrinting.genuine {reason : Abort} (h : reason.OfPrinting) (store : Store) :
    reason.Genuine store := by
  cases reason with
  | endless => trivial
  | longNumeral => trivial
  | _ => exact h.elim

namespace EvalM

theorem sound_fault (f : Fault) : Sound origin layout true (fault f : EvalM α) ok :=
  sound_throw rfl

theorem sound_abort {reason : Abort} (h : reason.Genuine origin.store) :
    Sound origin layout faulty (abort reason : EvalM α) ok :=
  sound_throw h

theorem sound_ofFault {x : Except Fault α} (h : ∀ a, x = .ok a → ok layout a) :
    Sound origin layout true (ofFault x) ok := by
  cases x with
  | ok a => exact sound_pure (h a rfl)
  | error f => exact sound_fault f

theorem sound_ofAbort {x : Except Abort α} (hok : ∀ a, x = .ok a → ok layout a)
    (herror : ∀ reason, x = .error reason → reason.Genuine origin.store) :
    Sound origin layout faulty (ofAbort x) ok := by
  cases x with
  | ok a => exact sound_pure (hok a rfl)
  | error reason => exact sound_abort (herror reason rfl)

theorem sound_ofPrinting {x : Except Abort α} (h : PrintsOrGivesUp x) :
    Sound origin layout faulty (ofAbort x) fun _ _ => True :=
  sound_ofAbort (fun _ _ => trivial) fun reason hr => (h reason hr).genuine _

theorem sound_print (readable : Bool) (v : Value) :
    Sound origin layout faulty (print readable v) fun _ _ => True :=
  .bind_get fun _ _ => sound_ofPrinting (printValue_gives_up _ readable v)

theorem sound_represent (v : Value) :
    Sound origin layout faulty (represent v) fun _ _ => True :=
  .bind_get fun _ _ => sound_ofPrinting (representValue_gives_up _ v)

theorem sound_printAll (readable : Bool) (separator : String) (vs : List Value) :
    Sound origin layout faulty (printAll readable separator vs) fun _ _ => True :=
  .bind_get fun _ _ => sound_ofPrinting (printJoined_gives_up _ readable separator vs)

theorem sound_errorOf (f : Fault) :
    Sound origin layout faulty (errorOf f) fun _ v => ∃ message, v = .error message none := by
  refine .bind_get fun store _ => (sound_ofPrinting (f.message_gives_up store.heap)).bind ?_
  intro layout' _ message _
  exact sound_pure ⟨message, rfl⟩

/-- Where faults are turned into error values, no fault is left. -/
theorem sound_settle {step : EvalM Step} {ok : Layout home tolerant → Step → Prop}
    (h : Sound origin layout true step ok)
    (herror : ∀ (layout' : Layout home tolerant) message,
      ok layout' (.done (.error message none))) :
    Sound origin layout false (settle step) ok := by
  intro store hinv
  unfold settle
  cases hr : step store with
  | ok a store' => exact h.result hinv hr
  | error failure store' =>
    obtain ⟨layout', hl, hinv', hf⟩ := h.failure hinv hr
    cases failure with
    | fault f =>
      have herr : Sound origin layout' false (Step.done <$> errorOf f) ok := by
        rw [map_eq_pure_bind]
        refine (sound_errorOf f).bind ?_
        rintro layout'' _ _ ⟨message, rfl⟩
        exact sound_pure (herror layout'' message)
      exact (herr store' hinv').within hl
    | thrown payload => exact ⟨layout', hl, hinv', hf⟩
    | abort reason => exact ⟨layout', hl, hinv', hf⟩

theorem sound_catchThrown {evaluation : EvalM Value} {ok : Layout home tolerant → Value → Prop}
    (h : Sound origin layout faulty evaluation ok) :
    Sound origin layout faulty (catchThrown evaluation) fun layout' result =>
      match result with
      | .ok v => ok layout' v
      | .error payload => payload.Valid layout' := by
  intro store hinv
  unfold catchThrown
  cases hr : evaluation store with
  | ok a store' => exact h.result hinv hr
  | error failure store' =>
    have hout := h.failure hinv hr
    cases failure with
    | fault f => exact hout
    | thrown payload => exact hout
    | abort reason => exact hout

theorem sound_openScope {outer : Scope} (houter : outer.In layout)
    {bindings : List (String × Value)} (h : ∀ b ∈ bindings, b.2.Valid layout) :
    Sound origin layout faulty (openScope outer bindings)
      fun layout' scope => scope.Usable origin layout' := by
  refine .bind_get fun store hinv => .bind_modify (layout.within_extend houter)
    (fun _ hinv' => hinv'.addFrame houter (Frame.valid_nil.bindAll h)) (sound_pure ⟨?_, ?_⟩)
  · rw [Scope.In, Scope.nest, Store.nextFrame, hinv.fits.size_eq]
    exact List.getElem?_concat_length
  · exact .inr (.inr hinv.since.grown)

theorem sound_define {scope : Scope} (hscope : origin.Allows home scope.here) (name : String)
    {v : Value} (hv : v.Valid layout) :
    Sound origin layout faulty (define scope name v) fun _ _ => True :=
  sound_modify fun _ hinv => hinv.define hscope name hv

theorem sound_newCell {content : Value} (h : content.Valid layout) :
    Sound origin layout faulty (newCell content) fun layout' v => v.Valid layout' :=
  .bind_get fun _ _ => .bind_modify (.refl layout) (fun _ hinv => hinv.addCell h)
    (sound_pure (Value.valid_atom _))

theorem sound_newIdentity :
    Sound origin layout faulty newIdentity fun _ _ => True :=
  .bind_get fun _ _ => .bind_modify (.refl layout)
    (fun _ hinv => hinv.congr rfl rfl rfl fun _ h => h) (sound_pure trivial)

theorem sound_write (text : String) :
    Sound origin layout faulty (write text) fun _ _ => True := by
  refine .bind_get fun store hinv => ?_
  dsimp only
  split
  · next fault hrefused =>
    exact sound_abort (hinv.since.console_faults fault (Console.canFail_of_refusal hrefused))
  · exact sound_modify fun _ hinv => hinv.congr rfl rfl rfl fun _ h => h

theorem sound_readLine : Sound origin layout faulty readLine fun _ _ => True := by
  refine .bind_get fun store hinv => ?_
  refine .bind_modify (.refl layout)
    (fun _ hinv => hinv.congr rfl rfl rfl fun _ => Console.canFail_of_skipReply) ?_
  cases hreply : store.console.reply with
  | line text => exact sound_pure trivial
  | ended => exact sound_pure trivial
  | failed fault =>
    exact sound_abort (hinv.since.console_faults fault (Console.canFail_of_reply hreply))

theorem sound_identify {v : Value} (h : v.Valid layout) :
    Sound origin layout faulty (identify v) fun layout' u => u.Valid layout' := by
  unfold identify
  split
  · refine sound_newIdentity.bind ?_
    intro layout' hl identity _
    refine sound_pure ?_
    have hv := h.mono hl
    cases v with
    | list => exact Value.valid_list.mpr (Value.valid_list.mp hv)
    | vector => exact Value.valid_vector.mpr (Value.valid_vector.mp hv)
    | _ => exact hv
  · exact sound_pure h

theorem sound_newList {items : List Value} (h : ∀ v ∈ items, v.Valid layout) :
    Sound origin layout faulty (newList items) fun layout' v => v.Valid layout' := by
  refine sound_newIdentity.bind ?_
  intro layout' hl identity _
  exact sound_pure (Value.valid_list.mpr ⟨Value.valid_nil, Value.forall_valid_mono h hl⟩)

end EvalM

end SmallLisp
