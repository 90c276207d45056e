import SmallLisp.Evaluation.SpecialForm
import SmallLisp.Proofs.StoreBuiltins

/-! # Special forms are sound

Every special form is sound on valid parts, apart from the faults it may end in. Definitions are
written in the frame of the form itself, and the frames of `let*` and `catch*` are new.
-/
namespace SmallLisp

variable {home : FrameId} {tolerant : Bool} {layout : Layout home tolerant} {origin : Origin}
  {run : Runner} {scope : Scope} {faulty : Bool}

theorem sound_quoteForm {form : Value} (h : form.Valid layout) :
    Sound origin layout faulty (quoteForm form) fun layout' v => v.Valid layout' := by
  refine EvalM.sound_newList ?_
  simp only [List.forall_mem_cons]
  exact ⟨Value.valid_symbol _, h, List.forall_mem_nil _⟩

theorem onlyForm_gives (name : String) {parts : List Value} (h : ∀ v ∈ parts, v.Valid layout) :
    Gives (onlyForm name parts) (Value.Valid layout) := by
  unfold onlyForm
  split
  · exact gives_ok (h _ List.mem_cons_self)
  · exact gives_error _

theorem tailAfter_valid {name : String} {form : Value} {parts : List Value}
    (h : form.Valid layout) (hparts : form.tailAfter? name = some parts) :
    ∀ v ∈ parts, v.Valid layout := by
  have htail : ∀ (head : Value) (tail : List Value), (∀ v ∈ head :: tail, v.Valid layout) →
      (if head.isSymbolNamed name then some tail else none) = some parts →
      ∀ v ∈ parts, v.Valid layout := by
    intro head tail hitems hsome
    split at hsome
    · cases hsome
      exact (List.forall_mem_cons.mp hitems).2
    · cases hsome
  unfold Value.tailAfter? at hparts
  split at hparts
  · exact htail _ _ (Value.valid_list.mp h).2 hparts
  · exact htail _ _ (Value.valid_vector.mp h).2 hparts
  · cases hparts

mutual

theorem sound_expandTemplate : ∀ (layout : Layout home tolerant) (template : Value),
    template.Valid layout →
    Sound origin layout true (expandTemplate template) fun layout' v => v.Valid layout'
  | layout, .list items metadata identity, h => by
    rw [expandTemplate]
    exact sound_expandItems layout true _ items h (Value.valid_list.mp h).2
  | layout, .vector items metadata identity, h => by
    rw [expandTemplate]
    exact sound_expandItems layout false _ items h (Value.valid_vector.mp h).2
  | _, .nil, h => sound_quoteForm h
  | _, .bool _, h => sound_quoteForm h
  | _, .int _, h => sound_quoteForm h
  | _, .str _, h => sound_quoteForm h
  | _, .symbol _, h => sound_quoteForm h
  | _, .keyword _, h => sound_quoteForm h
  | _, .table _ _, h => sound_quoteForm h
  | _, .atom _, h => sound_quoteForm h
  | _, .native .., h => sound_quoteForm h
  | _, .closure .., h => sound_quoteForm h
  | _, .error .., h => sound_quoteForm h

theorem sound_expandItems : ∀ (layout : Layout home tolerant) (isList : Bool) (empty : Value)
    (items : List Value), empty.Valid layout → (∀ v ∈ items, v.Valid layout) →
    Sound origin layout true (expandItems isList empty items) fun layout' v => v.Valid layout'
  | _, _, _, [], hempty, _ => sound_quoteForm hempty
  | layout, isList, empty, head :: tail, _, h => by
    obtain ⟨hhead, htail⟩ := List.forall_mem_cons.mp h
    have hnone : (Value.ofList []).Valid layout := Value.valid_ofList (List.forall_mem_nil _)
    rw [expandItems]
    split
    · exact EvalM.sound_ofFault (onlyForm_gives _ htail)
    · split
      · next parts hparts =>
        refine (onlyForm_gives _ (tailAfter_valid hhead hparts)).soundBind fun spliced hs => ?_
        refine (sound_expandItems layout true _ tail hnone htail).bind fun layout' hl v hv => ?_
        refine EvalM.sound_newList ?_
        simp only [List.forall_mem_cons]
        exact ⟨Value.valid_symbol _, hs.mono hl, hv, List.forall_mem_nil _⟩
      · refine (sound_expandTemplate layout head hhead).bind fun layout' hl first hfirst => ?_
        refine (sound_expandItems layout' true _ tail (hnone.mono hl)
          (Value.forall_valid_mono htail hl)).bind fun layout'' hl' v hv => ?_
        refine EvalM.sound_newList ?_
        simp only [List.forall_mem_cons]
        exact ⟨Value.valid_symbol _, hfirst.mono hl', hv, List.forall_mem_nil _⟩

end

theorem expansionOf_valid {store : Store} (hstore : store.Fits layout) {form : Value}
    (hform : form.Valid layout) {function : Value} {arguments : List Value}
    (h : expansionOf? store scope form = some (function, arguments)) :
    function.Valid layout ∧ ∀ v ∈ arguments, v.Valid layout := by
  unfold expansionOf? at h
  split at h
  · split at h
    · next hlookup =>
      split at h
      · cases h
        exact ⟨hstore.lookup? hlookup, (List.forall_mem_cons.mp (Value.valid_list.mp hform).2).2⟩
      · cases h
    · cases h
  · cases h

theorem sound_expandFully (hrun : run.IsSound home tolerant) (steps : Nat) {form : Value}
    (hform : form.Valid layout) :
    Sound origin layout faulty (expandFully run scope steps form)
      fun layout' v => v.IsResult layout' := by
  induction steps generalizing layout form with
  | zero => exact EvalM.sound_abort trivial
  | succ steps ih =>
    refine .bind_get fun store hinv => ?_
    split
    · exact sound_pure (.inl hform)
    · next function arguments hexpansion =>
      obtain ⟨hfunction, harguments⟩ := expansionOf_valid hinv.fits hform hexpansion
      refine (hrun.call hfunction harguments).allowFaults.bind fun layout' hl v hv => ?_
      split
      · exact sound_pure hv
      · next hne => exact ih (hv.valid (Bool.eq_false_iff.mpr hne))

namespace SpecialForm

theorem bodyOf_valid {forms : List Value} (h : ∀ v ∈ forms, v.Valid layout) :
    (bodyOf forms).Valid layout := by
  match forms with
  | [] => exact Value.valid_nil
  | [form] => exact h form List.mem_cons_self
  | form :: next :: rest =>
    exact Value.valid_ofList (List.forall_mem_cons.mpr ⟨Value.valid_symbol _, h⟩)

theorem sound_definition (hrun : run.IsSound home tolerant) (hscope : scope.Usable origin layout)
    (form : SpecialForm) {parts : List Value} (h : ∀ v ∈ parts, v.Valid layout) :
    Sound origin layout true (definition run form parts scope)
      fun layout' r => r.2.IsResult layout' := by
  unfold definition
  split
  · next defined expression =>
    have hexpression := h expression (List.mem_cons_of_mem _ List.mem_cons_self)
    exact (hrun.evaluate hscope hexpression).allowFaults.bind fun _ _ v hv => sound_pure hv
  · exact EvalM.sound_fault _
  · exact EvalM.sound_fault _

theorem sound_bindInOrder (hrun : run.IsSound home tolerant) (hscope : scope.Usable origin layout)
    {bindings : List Value} (h : ∀ v ∈ bindings, v.Valid layout) :
    Sound origin layout true (bindInOrder run scope bindings)
      fun layout' r => ∀ e, r = some e → e.IsResult layout' := by
  induction bindings using bindInOrder.induct generalizing layout with
  | case1 expression rest bound ih =>
    obtain ⟨hexpression, hrest⟩ := List.forall_mem_cons.mp (List.forall_mem_cons.mp h).2
    rw [bindInOrder]
    refine (hrun.evaluate hscope hexpression).allowFaults.bind fun layout' hl v hv => ?_
    split
    · refine sound_pure fun e he => ?_
      cases he
      exact hv
    · next hne =>
      have hvalid := hv.valid (Bool.eq_false_iff.mpr hne)
      refine (EvalM.sound_define hscope.allowed bound hvalid).bind fun layout'' hl' _ _ => ?_
      exact ih (hscope.mono (hl.trans hl')) (Value.forall_valid_mono hrest (hl.trans hl'))
  | case2 name expression rest hname =>
    rw [bindInOrder]
    · exact EvalM.sound_fault _
    · exact hname
  | case3 bindings hne =>
    rw [bindInOrder]
    · exact sound_pure fun e he => nomatch he
    · exact hne

theorem sound_evaluateSequence (hrun : run.IsSound home tolerant)
    (hscope : scope.Usable origin layout)
    {forms : List Value} (h : ∀ v ∈ forms, v.Valid layout) :
    Sound origin layout faulty (evaluateSequence run scope forms)
      fun layout' step => step.Valid origin layout' := by
  induction forms using evaluateSequence.induct generalizing layout with
  | case1 => exact sound_pure (.inl Value.valid_nil)
  | case2 form => exact sound_pure ⟨h form List.mem_cons_self, hscope⟩
  | case3 form forms hne ih =>
    obtain ⟨hform, hforms⟩ := List.forall_mem_cons.mp h
    rw [evaluateSequence]
    · refine (hrun.evaluate hscope hform).allowFaults.bind fun layout' hl v hv => ?_
      split
      · exact sound_pure hv
      · exact ih (hscope.mono hl) (Value.forall_valid_mono hforms hl)
    · exact hne

theorem catchClause_gives {clause : Value} (h : clause.Valid layout) :
    Gives (catchClause clause) fun r => r.2.Valid layout := by
  unfold catchClause
  split
  · next handler _ _ =>
    have hhandler : handler.Valid layout := (Value.valid_list.mp h).2 _ (by simp)
    split
    · split
      · exact gives_ok hhandler
      · exact gives_error _
    · exact gives_error _
  · exact gives_error _

/-- The handler of a clause is evaluated in a new frame that binds a valid value: what was thrown,
or a message. -/
theorem sound_evaluateGuarded (hrun : run.IsSound home tolerant)
    (hscope : scope.Usable origin layout)
    {form : Value} (hform : form.Valid layout) (caught : String) {handler : Value}
    (hhandler : handler.Valid layout) :
    Sound origin layout true (evaluateGuarded run form caught handler scope)
      fun layout' step => step.Valid origin layout' := by
  have hhandle : ∀ (layout' : Layout home tolerant) (payload : Value), layout.Within layout' →
      payload.Valid layout' →
      Sound origin layout' true
        (do return Step.tail handler (← EvalM.openScope scope [(caught, payload)]))
        fun layout' step => step.Valid origin layout' := by
    intro layout' payload hl hpayload
    have hbinding : ∀ b ∈ [(caught, payload)], b.2.Valid layout' :=
      List.forall_mem_singleton.mpr hpayload
    refine (EvalM.sound_openScope (hscope.inLayout.mono hl) hbinding).bind ?_
    intro layout'' hl' inner hinner
    exact sound_pure ⟨hhandler.mono (hl.trans hl'), hinner⟩
  refine (EvalM.sound_catchThrown (hrun.evaluate hscope hform).allowFaults).bind ?_
  intro layout' hl r hr
  split
  · next message cause =>
    rcases hr with hvalid | ⟨message', hmessage⟩
    · exact hhandle layout' _ hl hvalid.payload
    · cases hmessage
      exact hhandle layout' _ hl (Value.valid_str _)
  · exact sound_pure hr
  · exact hhandle layout' _ hl hr

theorem sound_define (hrun : run.IsSound home tolerant) (hscope : scope.Usable origin layout)
    {parts : List Value} (h : ∀ v ∈ parts, v.Valid layout) (steps : Nat) :
    Sound origin layout true (evaluate steps run define parts scope)
      fun layout' step => step.Valid origin layout' := by
  refine (sound_definition hrun hscope define h).bind fun layout' hl r hr => ?_
  dsimp only
  split
  · exact sound_pure hr
  · next hne =>
    have hvalid := hr.valid (Bool.eq_false_iff.mpr hne)
    refine (EvalM.sound_define hscope.allowed r.1 hvalid).bind fun layout'' hl' _ _ => ?_
    exact sound_pure (.inl (hvalid.mono hl'))

theorem sound_defineExpander (hrun : run.IsSound home tolerant)
    (hscope : scope.Usable origin layout)
    {parts : List Value} (h : ∀ v ∈ parts, v.Valid layout) (steps : Nat) :
    Sound origin layout true (evaluate steps run defineExpander parts scope)
      fun layout' step => step.Valid origin layout' := by
  refine (sound_definition hrun hscope defineExpander h).bind fun layout' hl r hr => ?_
  obtain ⟨defined, v⟩ := r
  dsimp only at hr ⊢
  split
  · exact sound_pure hr
  · next parameters body closureScope old metadata =>
    obtain ⟨hclosure, hbody, hmetadata⟩ := Value.valid_closure.mp (hr.valid rfl)
    refine EvalM.sound_newIdentity.bind fun layout'' hl' identity _ => ?_
    have hvalid : (Value.closure identity parameters body closureScope true metadata).Valid
        layout'' := Value.valid_closure.mpr
      ⟨hclosure.mono hl', hbody.mono hl', hmetadata.mono hl'⟩
    refine (EvalM.sound_define hscope.allowed defined hvalid).bind fun _ hl'' _ _ => ?_
    exact sound_pure (.inl (hvalid.mono hl''))
  · exact EvalM.sound_fault _

theorem sound_letIn (hrun : run.IsSound home tolerant) (hscope : scope.Usable origin layout)
    {parts : List Value} (h : ∀ v ∈ parts, v.Valid layout) (steps : Nat) :
    Sound origin layout true (evaluate steps run letIn parts scope)
      fun layout' step => step.Valid origin layout' := by
  have hlet : ∀ bindings body : List Value, (∀ v ∈ bindings, v.Valid layout) →
      (∀ v ∈ body, v.Valid layout) →
      Sound origin layout true (evaluate steps run letIn (.ofList bindings :: body) scope)
        fun layout' step => step.Valid origin layout' := by
    intro bindings body hbindings hbody
    unfold evaluate
    dsimp only [Value.ofList]
    split
    · refine (EvalM.sound_openScope hscope.inLayout (List.forall_mem_nil _)).bind ?_
      intro layout' hl inner hinner
      refine (sound_bindInOrder hrun hinner (Value.forall_valid_mono hbindings hl)).bind ?_
      intro layout'' hl' r hr
      cases r with
      | some e => exact sound_pure (hr e rfl)
      | none =>
        have hbody' := Value.forall_valid_mono hbody (hl.trans hl')
        exact sound_pure ⟨bodyOf_valid hbody', hinner.mono hl'⟩
    · exact EvalM.sound_fault _
  unfold evaluate
  dsimp only
  split
  · exact EvalM.sound_fault _
  · next bindings _ _ body =>
    obtain ⟨hlist, hbody⟩ := List.forall_mem_cons.mp h
    exact hlet bindings body (Value.valid_list.mp hlist).2 hbody
  · next bindings _ _ body =>
    obtain ⟨hvector, hbody⟩ := List.forall_mem_cons.mp h
    exact hlet bindings body (Value.valid_vector.mp hvector).2 hbody
  · exact EvalM.sound_fault _

theorem sound_branch (hrun : run.IsSound home tolerant) (hscope : scope.Usable origin layout)
    {parts : List Value} (h : ∀ v ∈ parts, v.Valid layout) (steps : Nat) :
    Sound origin layout true (evaluate steps run branch parts scope)
      fun layout' step => step.Valid origin layout' := by
  match parts with
  | [] => exact EvalM.sound_fault _
  | [_] => exact EvalM.sound_fault _
  | [condition, consequence] =>
    obtain ⟨hcondition, hrest⟩ := List.forall_mem_cons.mp h
    refine (hrun.evaluate hscope hcondition).allowFaults.bind fun layout' hl v hv => ?_
    split
    · exact sound_pure hv
    · split
      · have hconsequence := hrest consequence List.mem_cons_self
        exact sound_pure ⟨hconsequence.mono hl, hscope.mono hl⟩
      · exact sound_pure (.inl Value.valid_nil)
  | [condition, consequence, alternative] =>
    obtain ⟨hcondition, hrest⟩ := List.forall_mem_cons.mp h
    refine (hrun.evaluate hscope hcondition).allowFaults.bind fun layout' hl v hv => ?_
    split
    · exact sound_pure hv
    · split
      · have hconsequence := hrest consequence List.mem_cons_self
        exact sound_pure ⟨hconsequence.mono hl, hscope.mono hl⟩
      · have halternative := hrest alternative (List.mem_cons_of_mem _ List.mem_cons_self)
        exact sound_pure ⟨halternative.mono hl, hscope.mono hl⟩
  | _ :: _ :: _ :: _ :: _ => exact EvalM.sound_fault _

theorem sound_function (hscope : scope.Usable origin layout) {parts : List Value}
    (h : ∀ v ∈ parts, v.Valid layout) (steps : Nat) :
    Sound origin layout true (evaluate steps run function parts scope)
      fun layout' step => step.Valid origin layout' := by
  cases parts with
  | nil => exact EvalM.sound_fault _
  | cons declared body =>
    obtain ⟨_, hbody⟩ := List.forall_mem_cons.mp h
    refine (gives_any _).soundBind fun parameters _ => ?_
    refine EvalM.sound_newIdentity.bind fun layout' hl identity _ => ?_
    have hforms := bodyOf_valid (Value.forall_valid_mono hbody hl)
    exact sound_pure
      (.inl (Value.valid_closure.mpr ⟨hscope.inLayout.mono hl, hforms, Value.valid_nil⟩))

theorem sound_attempt (hrun : run.IsSound home tolerant) (hscope : scope.Usable origin layout)
    {parts : List Value} (h : ∀ v ∈ parts, v.Valid layout) (steps : Nat) :
    Sound origin layout true (evaluate steps run attempt parts scope)
      fun layout' step => step.Valid origin layout' := by
  match parts with
  | [] => exact EvalM.sound_fault _
  | [form] => exact sound_pure ⟨h form List.mem_cons_self, hscope⟩
  | [form, clause] =>
    obtain ⟨hform, hrest⟩ := List.forall_mem_cons.mp h
    refine (catchClause_gives (hrest clause List.mem_cons_self)).soundBind fun r hr => ?_
    exact sound_evaluateGuarded hrun hscope hform r.1 hr
  | _ :: _ :: _ :: _ => exact EvalM.sound_fault _

theorem sound_evaluate (hrun : run.IsSound home tolerant) (hscope : scope.Usable origin layout)
    {parts : List Value} (h : ∀ v ∈ parts, v.Valid layout) (steps : Nat) (form : SpecialForm) :
    Sound origin layout true (form.evaluate steps run parts scope)
      fun layout' step => step.Valid origin layout' := by
  cases form with
  | define => exact sound_define hrun hscope h steps
  | defineExpander => exact sound_defineExpander hrun hscope h steps
  | letIn => exact sound_letIn hrun hscope h steps
  | sequence => exact sound_evaluateSequence hrun hscope h
  | branch => exact sound_branch hrun hscope h steps
  | function => exact sound_function hscope h steps
  | quote =>
    exact (onlyForm_gives _ h).soundBind fun v hv => sound_pure (.inl hv)
  | quasiquote =>
    refine (onlyForm_gives _ h).soundBind fun template ht => ?_
    refine (sound_expandTemplate layout template ht).bind fun layout' hl v hv => ?_
    exact sound_pure ⟨hv, hscope.mono hl⟩
  | quasiquoteExpand =>
    refine (onlyForm_gives _ h).soundBind fun template ht => ?_
    exact (sound_expandTemplate layout template ht).bind fun _ _ v hv => sound_pure (.inl hv)
  | expand =>
    refine (onlyForm_gives _ h).soundBind fun call hcall => ?_
    exact (sound_expandFully hrun steps hcall).bind fun _ _ v hv => sound_pure hv
  | attempt => exact sound_attempt hrun hscope h steps

end SpecialForm

end SmallLisp
