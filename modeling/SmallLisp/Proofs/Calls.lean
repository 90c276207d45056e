import SmallLisp.Evaluation.Application
import SmallLisp.Proofs.StoreBuiltins

/-! # Calls are sound

A call of a valid function on valid arguments is sound and ends in no fault, whatever the function
does: every fault on the way becomes an error value.
-/
namespace SmallLisp

variable {home : FrameId} {tolerant : Bool} {layout : Layout home tolerant} {origin : Origin}
  {arguments : List Value} {run : Runner}

def Callee.Valid (layout : Layout home tolerant) : Callee → Prop
  | .builtin _ global => global = home
  | .body _ form scope => form.Valid layout ∧ scope.In layout

theorem Value.callee_gives {function : Value} (h : function.Valid layout) :
    Gives function.callee (Callee.Valid layout) := by
  unfold Value.callee
  split
  · exact gives_ok (Value.valid_native.mp h).1
  · obtain ⟨hscope, hbody, _⟩ := Value.valid_closure.mp h
    exact gives_ok ⟨hbody, hscope⟩
  · exact gives_error _

theorem spread_gives (h : ∀ v ∈ arguments, v.Valid layout) :
    Gives (spread arguments) fun r => r.1.Valid layout ∧ ∀ v ∈ r.2, v.Valid layout := by
  match arguments with
  | [] => exact gives_error _
  | [_] => exact gives_error _
  | function :: first :: others =>
    obtain ⟨hfunction, hothers⟩ := List.forall_mem_cons.mp h
    have hlast := hothers _ (List.getLast_mem (List.cons_ne_nil first others))
    refine (gives_any _).bind fun _ _ => (expectElements_gives _ hlast).bind fun items hitems => ?_
    refine gives_ok ⟨hfunction, List.forall_mem_append.mpr ⟨fun v hv => ?_, hitems⟩⟩
    exact hothers v (List.dropLast_subset _ hv)

namespace Callee

def ValidCall (layout : Layout home tolerant) (r : Callee × List Value) : Prop :=
  r.1.Valid layout ∧ ∀ v ∈ r.2, v.Valid layout

theorem gives_of_function {function : Value} (hfunction : function.Valid layout)
    (h : ∀ v ∈ arguments, v.Valid layout) :
    Gives (do return (← function.callee, arguments)) (ValidCall layout) :=
  (Value.callee_gives hfunction).bind fun _ hcallee => gives_ok ⟨hcallee, h⟩

theorem ofSpread_gives (h : ∀ v ∈ arguments, v.Valid layout) :
    Gives (ofSpread arguments) (ValidCall layout) := by
  induction arguments using ofSpread.induct with
  | case1 arguments fault hspread =>
    rw [ofSpread]
    split
    · exact gives_error _
    · next hcall => cases hspread.symm.trans hcall
  | case2 arguments function arguments' hspread happly ih =>
    rw [ofSpread]
    split
    · exact gives_error _
    · next hcall =>
      cases hspread.symm.trans hcall
      rw [if_pos happly]
      exact ih (spread_gives h _ hspread).2
  | case3 arguments function arguments' hspread happly =>
    rw [ofSpread]
    split
    · exact gives_error _
    · next hcall =>
      cases hspread.symm.trans hcall
      obtain ⟨hfunction, harguments⟩ := spread_gives h _ hspread
      rw [if_neg happly]
      exact gives_of_function hfunction harguments

theorem ofCall_gives {function : Value} (hfunction : function.Valid layout)
    (h : ∀ v ∈ arguments, v.Valid layout) :
    Gives (ofCall function arguments) (ValidCall layout) := by
  unfold ofCall
  split
  · exact ofSpread_gives h
  · exact gives_of_function hfunction h

end Callee

theorem PlainBuiltin.sound_apply (hrun : run.IsSound home tolerant) (op : PlainBuiltin)
    (h : ∀ v ∈ arguments, v.Valid layout) :
    Sound origin layout true (op.apply run home arguments)
      fun layout' step => step.Valid origin layout' := by
  have hpure : ∀ x : Except Fault Value, Gives x (Value.Valid layout) →
      Sound origin layout true (do return Step.done (← EvalM.ofFault x))
        fun layout' step => step.Valid origin layout' :=
    fun x hx => hx.soundBind fun v hv => sound_pure (.inl hv)
  cases op with
  | number op => exact hpure _ op.apply_gives
  | test op => exact hpure _ (op.apply_gives h)
  | label op => exact hpure _ (op.apply_gives h)
  | collection op =>
    refine (op.apply_gives h).soundBind fun v hv => ?_
    split
    · exact sound_pure (.inl hv)
    · exact (EvalM.sound_identify hv).bind fun _ _ u hu => sound_pure (.inl hu)
  | text op => exact op.sound_apply.bind fun _ _ v hv => sound_pure hv
  | state op => exact (op.sound_apply h).bind fun _ _ v hv => sound_pure (.inl hv)
  | call op => exact op.sound_apply hrun h

theorem Parameters.bind_valid {parameters : Parameters} {identity : Identity}
    {bindings : List (String × Value)} (h : ∀ v ∈ arguments, v.Valid layout)
    (hb : parameters.bind identity arguments = .ok bindings) :
    ∀ b ∈ bindings, b.2.Valid layout := by
  have hzip : ∀ b ∈ parameters.names.zip arguments, b.2.Valid layout := fun b hb =>
    h b.2 (List.of_mem_zip hb).2
  unfold Parameters.bind at hb
  split at hb
  · cases hb
  · split at hb
    · split at hb
      · cases hb
      · cases hb
        exact hzip
    · cases hb
      refine List.forall_mem_append.mpr ⟨hzip, List.forall_mem_singleton.mpr ?_⟩
      exact Value.valid_list.mpr ⟨Value.valid_nil, fun v hv => h v (List.mem_of_mem_drop hv)⟩

theorem Callee.sound_enter (hrun : run.IsSound home tolerant) {callee : Callee}
    (hcallee : callee.Valid layout) (h : ∀ v ∈ arguments, v.Valid layout) :
    Sound origin layout true (callee.enter run arguments)
      fun layout' step => step.Valid origin layout' := by
  cases callee with
  | builtin op global =>
    have hglobal : global = home := hcallee
    subst hglobal
    exact op.sound_apply hrun h
  | body parameters form scope =>
    obtain ⟨hform, hscope⟩ := hcallee
    refine EvalM.sound_newIdentity.bind fun layout' hl identity _ => ?_
    have hbindings : Gives ((parameters.bind identity arguments).mapError Fault.count)
        fun bindings => ∀ b ∈ bindings, b.2.Valid layout' := by
      intro bindings hb
      cases hbind : parameters.bind identity arguments with
      | error fault =>
        rw [hbind] at hb
        cases hb
      | ok bindings' =>
        rw [hbind] at hb
        cases hb
        exact Parameters.bind_valid (Value.forall_valid_mono h hl) hbind
    refine hbindings.soundBind fun bindings hb => ?_
    refine (EvalM.sound_openScope (hscope.mono hl) hb).bind fun layout'' hl' inner hinner => ?_
    exact sound_pure ⟨(hform.mono hl).mono hl', hinner⟩

theorem sound_applyFunction (hrun : run.IsSound home tolerant) {function : Value}
    (hfunction : function.Valid layout) (h : ∀ v ∈ arguments, v.Valid layout) :
    Sound origin layout false (applyFunction run function arguments)
      fun layout' step => step.Valid origin layout' := by
  refine EvalM.sound_settle ?_ fun layout' message => .inr ⟨message, rfl⟩
  exact (Callee.ofCall_gives hfunction h).soundBind fun r hr =>
    Callee.sound_enter hrun hr.1 hr.2

end SmallLisp
