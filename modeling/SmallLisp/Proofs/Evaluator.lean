import SmallLisp.Evaluation.Evaluator
import SmallLisp.Proofs.Calls
import SmallLisp.Proofs.SpecialForms

/-! # The evaluator is sound

Every step of a valid task is sound and ends in no fault. From this, carrying out a task is sound
by induction on the levels and, on one level, on the steps.
-/
namespace SmallLisp

variable {home : FrameId} {tolerant : Bool} {layout : Layout home tolerant} {origin : Origin}
  {run : Runner} {scope : Scope}

theorem sound_stepCall (hrun : run.IsSound home tolerant) (hscope : scope.Usable origin layout)
    {head : Value} (hhead : head.Valid layout) {arguments : List Value}
    (h : ∀ v ∈ arguments, v.Valid layout) :
    Sound origin layout false (stepCall run head arguments scope)
      fun layout' step => step.Valid origin layout' := by
  refine (hrun.evaluate hscope hhead).bind fun layout' hl function hfunction => ?_
  split
  · exact sound_pure hfunction
  · next hne =>
    have hvalid := hfunction.valid (Bool.eq_false_iff.mpr hne)
    have harguments := Value.forall_valid_mono h hl
    refine (sound_evaluateAll hrun (hscope.mono hl) harguments).bind fun layout'' hl' r hr => ?_
    cases r with
    | error e => exact sound_pure hr
    | ok vs =>
      dsimp only
      split
      · exact sound_applyFunction hrun (hvalid.mono hl') hr
      · exact (EvalM.sound_print true function).bind fun _ _ text _ =>
          sound_pure (.inr ⟨text ++ " is not a function", rfl⟩)

theorem sound_stepList (steps : Nat) (hrun : run.IsSound home tolerant)
    (hscope : scope.Usable origin layout) {head : Value} {tail : List Value} {metadata : Value}
    {identity : Option Identity}
    (hform : (Value.list (head :: tail) metadata identity).Valid layout) :
    Sound origin layout false
      (stepList steps run (.list (head :: tail) metadata identity) head tail scope)
      fun layout' step => step.Valid origin layout' := by
  obtain ⟨hhead, htail⟩ := List.forall_mem_cons.mp (Value.valid_list.mp hform).2
  unfold stepList
  split
  · next special _ =>
    exact EvalM.sound_settle (special.sound_evaluate hrun hscope htail steps)
      fun _ message => .inr ⟨message, rfl⟩
  · refine .bind_get fun store hinv => ?_
    split
    · next function arguments hexpansion =>
      obtain ⟨hfunction, harguments⟩ := expansionOf_valid hinv.fits hform hexpansion
      refine (hrun.call hfunction harguments).bind fun layout' hl expanded hexpanded => ?_
      split
      · exact sound_pure hexpanded
      · next hne =>
        exact sound_pure ⟨hexpanded.valid (Bool.eq_false_iff.mpr hne), hscope.mono hl⟩
    · exact sound_stepCall hrun hscope hhead htail

/-- The keys of a valid table are usable, so putting new values to them cannot fail. -/
theorem writeEntries_zip {entries : Entries} (hkeyed : Entries.Keyed entries)
    (hentries : ∀ e ∈ entries, e.1.Valid layout ∧ e.2.Valid layout) {vs : List Value}
    (h : ∀ v ∈ vs, v.Valid layout) :
    ∃ written, writeEntries [] ((Entries.keys entries).zip vs) = .ok written ∧
      (Value.ofEntries written).Valid layout := by
  have hpairs : Entries.Keyed ((Entries.keys entries).zip vs) :=
    hkeyed.of_keys (Entries.keys_zip_sublist _ vs)
  refine ⟨(Entries.keys entries).zip vs, ?_, Value.valid_ofEntries hpairs fun e he => ?_⟩
  · rw [writeEntries, Entries.insertMany_eq_insertAll, Entries.insertAll_nil hpairs]
    rfl
  · obtain ⟨hkey, hvalue⟩ := List.of_mem_zip he
    obtain ⟨f, hf, hfe⟩ := List.mem_map.mp hkey
    exact ⟨hfe ▸ (hentries f hf).1, h e.2 hvalue⟩

theorem sound_stepForm (steps : Nat) (hrun : run.IsSound home tolerant)
    (hscope : scope.Usable origin layout) {form : Value} (hform : form.Valid layout) :
    Sound origin layout false (stepForm steps run form scope)
      fun layout' step => step.Valid origin layout' := by
  cases form with
  | symbol name =>
    refine .bind_get fun store hinv => ?_
    split
    · next hlookup => exact sound_pure (.inl (hinv.fits.lookup? hlookup))
    · exact (EvalM.sound_errorOf _).bind fun _ _ v hv => sound_pure (.inr hv)
  | list items metadata identity =>
    cases items with
    | nil => exact sound_pure (.inl hform)
    | cons head tail => exact sound_stepList steps hrun hscope hform
  | vector items metadata identity =>
    have hitems := (Value.valid_vector.mp hform).2
    refine (sound_evaluateAll hrun hscope hitems).bind fun layout' hl r hr => ?_
    cases r with
    | error e => exact sound_pure hr
    | ok vs =>
      exact (EvalM.sound_identify (Value.valid_ofVector hr)).bind fun _ _ v hv =>
        sound_pure (.inl hv)
  | table entries metadata =>
    obtain ⟨hkeyed, _, hentries⟩ := Value.valid_table.mp hform
    have hvalues : ∀ v ∈ Entries.values entries, v.Valid layout :=
      List.forall_mem_map.mpr fun e he => (hentries e he).2
    refine (sound_evaluateAll hrun hscope hvalues).bind fun layout' hl r hr => ?_
    cases r with
    | error e => exact sound_pure hr
    | ok vs =>
      have hentries' : ∀ e ∈ entries, e.1.Valid layout' ∧ e.2.Valid layout' := fun e he =>
        ⟨(hentries e he).1.mono hl, (hentries e he).2.mono hl⟩
      obtain ⟨written, hwritten, hvalid⟩ := writeEntries_zip hkeyed hentries' hr
      dsimp only
      rw [hwritten]
      exact sound_pure (.inl hvalid)
  | _ => exact sound_pure (.inl hform)

theorem Task.sound_step (steps : Nat) (hrun : run.IsSound home tolerant) {task : Task}
    (h : task.Valid origin layout) :
    Sound origin layout false (task.step steps run)
      fun layout' step => step.Valid origin layout' := by
  cases task with
  | evaluate form scope => exact sound_stepForm steps hrun h.2 h.1
  | call function arguments => exact sound_applyFunction hrun h.1 h.2

theorem sound_takeSteps {step : Task → EvalM Step}
    (hstep : ∀ (layout : Layout home tolerant) (task : Task), task.Valid origin layout →
      Sound origin layout false (step task) fun layout' s => s.Valid origin layout')
    (steps : Nat) {task : Task} (h : task.Valid origin layout) :
    Sound origin layout false (takeSteps step steps task)
      fun layout' v => v.IsResult layout' := by
  induction steps generalizing layout task with
  | zero => exact EvalM.sound_abort trivial
  | succ steps ih =>
    refine (hstep layout task h).bind fun layout' hl s hs => ?_
    cases s with
    | done v => exact sound_pure hs
    | tail form scope => exact ih hs

theorem runTask_isSound (steps depth : Nat) : (runTask steps depth).IsSound home tolerant := by
  induction depth with
  | zero => exact fun _ _ _ _ => EvalM.sound_abort trivial
  | succ depth ih =>
    intro origin layout task htask
    exact sound_takeSteps (fun _ _ h => Task.sound_step steps ih h) steps htask

end SmallLisp
