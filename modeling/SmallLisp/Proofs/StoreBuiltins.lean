import SmallLisp.Builtin.Call
import SmallLisp.Builtin.State
import SmallLisp.Builtin.Text
import SmallLisp.Proofs.Operations
import SmallLisp.Proofs.PureBuiltins

/-! # Builtins that use the store

These builtins are sound on valid arguments. Their faults are left to the caller.
-/
namespace SmallLisp

variable {home : FrameId} {tolerant : Bool} {layout : Layout home tolerant} {origin : Origin}
  {arguments : List Value} {run : Runner}

section OfFault

variable {α β : Type} {p : α → Prop} {ok : Layout home tolerant → β → Prop}

theorem gives_any (x : Except Fault α) : Gives x fun _ => True := fun _ _ => trivial

/-- A check changes nothing, so what was known before it is still known. -/
theorem Gives.soundBind {x : Except Fault α} {f : α → EvalM β} (hx : Gives x p)
    (hf : ∀ a, p a → Sound origin layout true (f a) ok) :
    Sound origin layout true (EvalM.ofFault x >>= f) ok := by
  cases x with
  | ok a => exact hf a (hx a rfl)
  | error f => exact (EvalM.sound_fault f).bind fun _ _ _ h => False.elim h

end OfFault

theorem sound_readData (source : String) :
    Sound origin layout true (readData source) fun layout' v => v.IsResult layout' := by
  unfold readData
  split
  · next hforms => exact sound_pure (.inl (lastForm_valid (readForms_valid hforms)))
  · exact (EvalM.sound_errorOf _).mono fun _ _ h => .inr h
  · next hlong => exact EvalM.sound_abort (readForms_longLiteral hlong)

theorem fileText_genuine {store : Store} {path : Path} {bytes : List UInt8}
    (hbytes : store.files.bytes path = .ok bytes) {reason : Abort}
    (h : fileText bytes = .error reason) : reason.Genuine store := by
  unfold fileText at h
  split at h
  · cases h
  · next hdecode =>
    cases h
    exact ⟨path, bytes, hbytes, hdecode⟩

theorem sound_readFileText (path : Path) :
    Sound origin layout true (readFileText path) fun _ _ => True := by
  have hnul : Sound origin layout true (EvalM.abort .nulInPath : EvalM PUnit)
      fun _ _ => False := EvalM.sound_abort trivial
  unfold readFileText
  split
  · exact hnul.bind fun _ _ _ h => h.elim
  · refine .bind_get fun store hinv => ?_
    split
    · next hbytes =>
      rw [hinv.since.files_eq] at hbytes
      exact EvalM.sound_ofAbort (fun _ _ => trivial) fun reason hr =>
        fileText_genuine hbytes hr
    · exact EvalM.sound_fault _

namespace TextOp

theorem sound_printLine (readable : Bool) (vs : List Value) :
    Sound origin layout true (do
      let text ← EvalM.printAll readable " " vs
      EvalM.write (text ++ "\n")
      return Value.nil) fun layout' v => v.IsResult layout' := by
  refine (EvalM.sound_printAll readable " " vs).bind fun _ _ text _ => ?_
  exact (EvalM.sound_write _).bind fun _ _ _ _ => sound_pure (.inl Value.valid_nil)

theorem sound_readLine (prompt : String) :
    Sound origin layout true (do
      EvalM.write prompt
      match ← EvalM.readLine with
      | none => return Value.nil
      | some line => return .str line) fun layout' v => v.IsResult layout' := by
  refine (EvalM.sound_write prompt).bind fun _ _ _ _ => ?_
  refine EvalM.sound_readLine.bind fun _ _ line _ => ?_
  cases line with
  | none => exact sound_pure (.inl Value.valid_nil)
  | some line => exact sound_pure (.inl (Value.valid_str line))

theorem sound_apply (op : TextOp) :
    Sound origin layout true (op.apply arguments) fun layout' v => v.IsResult layout' := by
  have hstr : ∀ x : EvalM String, Sound origin layout true x (fun _ _ => True) →
      Sound origin layout true (do return Value.str (← x)) fun layout' v => v.IsResult layout' :=
    fun x hx => hx.bind fun _ _ text _ => sound_pure (.inl (Value.valid_str text))
  cases op with
  | printReadable => exact hstr _ (EvalM.sound_printAll true " " arguments)
  | printPlain => exact hstr _ (EvalM.sound_printAll false "" arguments)
  | printLineReadable => exact sound_printLine true arguments
  | printLinePlain => exact sound_printLine false arguments
  | readForm =>
    refine (gives_any _).soundBind fun v _ => (gives_any _).soundBind fun text _ => ?_
    exact sound_readData text
  | readFile =>
    refine (gives_any _).soundBind fun v _ => (gives_any _).soundBind fun text _ => ?_
    exact (sound_readFileText _).bind fun _ _ _ _ => sound_pure (.inl (Value.valid_str _))
  | readLine =>
    refine (gives_any _).soundBind fun v _ => (gives_any _).soundBind fun text _ => ?_
    exact sound_readLine text

end TextOp

namespace StateOp

theorem sound_withMetadataOf {v metadata : Value} (hv : v.Valid layout)
    (hm : metadata.Valid layout) :
    Sound origin layout true (withMetadataOf v metadata) fun layout' u => u.Valid layout' := by
  cases v with
  | list items old identity =>
    refine EvalM.sound_newIdentity.bind fun layout' hl _ _ => sound_pure ?_
    obtain ⟨_, hitems⟩ := Value.valid_list.mp (hv.mono hl)
    exact Value.valid_list.mpr ⟨hm.mono hl, hitems⟩
  | vector items old identity =>
    refine EvalM.sound_newIdentity.bind fun layout' hl _ _ => sound_pure ?_
    obtain ⟨_, hitems⟩ := Value.valid_vector.mp (hv.mono hl)
    exact Value.valid_vector.mpr ⟨hm.mono hl, hitems⟩
  | table entries old =>
    obtain ⟨hkeyed, _, hentries⟩ := Value.valid_table.mp hv
    exact sound_pure (Value.valid_table.mpr ⟨hkeyed, hm, hentries⟩)
  | native id op global old =>
    refine EvalM.sound_newIdentity.bind fun layout' hl _ _ => sound_pure ?_
    obtain ⟨hglobal, _⟩ := Value.valid_native.mp (hv.mono hl)
    exact Value.valid_native.mpr ⟨hglobal, hm.mono hl⟩
  | closure id parameters body scope expands old =>
    refine EvalM.sound_newIdentity.bind fun layout' hl _ _ => sound_pure ?_
    obtain ⟨hscope, hbody, _⟩ := Value.valid_closure.mp (hv.mono hl)
    exact Value.valid_closure.mpr ⟨hscope, hbody, hm.mono hl⟩
  | _ => exact EvalM.sound_fault _

theorem sound_apply (op : StateOp) (h : ∀ v ∈ arguments, v.Valid layout) :
    Sound origin layout true (op.apply arguments) fun layout' v => v.Valid layout' := by
  cases op with
  | atom => exact (onlyArgument_gives _ h).soundBind fun v hv => EvalM.sound_newCell hv
  | deref =>
    refine (gives_any _).soundBind fun v _ => (gives_any _).soundBind fun cell _ => ?_
    exact .bind_get fun store hinv => sound_pure (hinv.fits.contents cell)
  | reset =>
    refine (twoArguments_gives _ h).soundBind fun r hr => (gives_any _).soundBind fun cell _ => ?_
    exact .bind_modify (.refl layout) (fun _ hinv => hinv.setCell cell hr.2) (sound_pure hr.2)
  | withMetadata =>
    exact (twoArguments_gives _ h).soundBind fun r hr => sound_withMetadataOf hr.1 hr.2
  | throwValue =>
    refine (onlyArgument_gives _ h).soundBind fun payload hp => ?_
    exact (EvalM.sound_represent payload).bind fun _ hl _ _ => sound_throw (hp.mono hl)
  | time =>
    have hclock : Sound origin layout true (do return Value.int (← get).clock)
        fun layout' v => v.Valid layout' :=
      .bind_get fun store _ => sound_pure (Value.valid_int _)
    cases arguments with
    | nil => exact hclock
    | cons v arguments => exact EvalM.sound_fault _

end StateOp

namespace CallOp

theorem sound_swapContent (hrun : run.IsSound home tolerant) (cell : CellId) {function : Value}
    (hfunction : function.Valid layout) (h : ∀ v ∈ arguments, v.Valid layout) :
    Sound origin layout true (swapContent run cell function arguments)
      fun layout' v => v.IsResult layout' := by
  refine .bind_get fun store hinv => ?_
  have harguments : ∀ v ∈ store.heap.content cell :: arguments, v.Valid layout :=
    List.forall_mem_cons.mpr ⟨hinv.fits.contents cell, h⟩
  refine (hrun.call hfunction harguments).allowFaults.bind fun layout' _ v hv => ?_
  split
  · exact sound_pure hv
  · next hne =>
    have hvalid := hv.valid (Bool.eq_false_iff.mpr hne)
    exact .bind_modify (.refl layout') (fun _ hinv' => hinv'.setCell cell hvalid) (sound_pure hv)

theorem sound_apply (hrun : run.IsSound home tolerant) (op : CallOp)
    (h : ∀ v ∈ arguments, v.Valid layout) :
    Sound origin layout true (op.apply run home arguments)
      fun layout' step => step.Valid origin layout' := by
  cases op with
  | map =>
    refine (twoArguments_gives _ h).soundBind fun r hr => ?_
    refine (gives_any _).soundBind fun _ _ => (expectElements_gives _ hr.2).soundBind ?_
    intro items hitems
    refine (sound_mapItems hrun hr.1 hitems).bind fun layout' _ results hresults => ?_
    cases results with
    | error e => exact sound_pure hresults
    | ok vs =>
      refine (EvalM.sound_identify (Value.valid_ofList hresults)).bind fun _ _ v hv => ?_
      exact sound_pure (.inl hv)
  | swap =>
    match arguments with
    | [] => exact EvalM.sound_fault _
    | [_] => exact EvalM.sound_fault _
    | v :: function :: rest =>
      obtain ⟨_, hcons⟩ := List.forall_mem_cons.mp h
      obtain ⟨hfunction, hrest⟩ := List.forall_mem_cons.mp hcons
      refine (gives_any _).soundBind fun cell _ => (gives_any _).soundBind fun _ _ => ?_
      exact (sound_swapContent hrun cell hfunction hrest).bind fun _ _ u hu => sound_pure hu
  | eval =>
    refine (onlyArgument_gives _ h).soundBind fun form hform => ?_
    exact sound_pure ⟨hform, Scope.usable_global origin layout⟩

end CallOp

end SmallLisp
