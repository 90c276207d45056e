import SmallLisp.Proofs.Answers
import SmallLisp.Proofs.CallRules

/-! # Special forms among the forms that are expanded

The evaluator looks for a special form at the head of a list before it looks for an expander, but an
expansion looks for expanders only. So an expansion stops at the first special form that it meets,
unless its name is bound to an expander: then this is called, and the expansion goes on with what it
returns, which the evaluation of the form never does.
-/
namespace SmallLisp

variable {scope : Scope} {store store' : Store} {form reached function metadata : Value}
  {arguments tail : List Value} {identity : Option Identity} {name : String} {special : SpecialForm}
  {result : EStateM.Result Failure Store Value}

theorem expansionEnds_of_no_call (h : expansionOf? store scope form = none) :
    ExpansionEnds scope form store (.ok form store) := by
  refine ⟨not_false, ⟨1, 0⟩, ?_⟩
  rintro ⟨_ | steps, depth⟩ hle
  · exact absurd hle.1 (Nat.not_succ_le_zero _)
  · dsimp only
    rw [expandFully, EvalM.get_bind, h]
    rfl

theorem Met.eq_of_no_call (hmet : Met scope form store reached store')
    (h : expansionOf? store scope form = none) : reached = form ∧ store' = store := by
  induction hmet with
  | first => exact ⟨rfl, rfl⟩
  | next _ hexpansion _ _ ih =>
    obtain ⟨rfl, rfl⟩ := ih
    cases h.symm.trans hexpansion

/-- The expansion of the form gets to another one and stops there: no expander is called any more,
and this form is the value of `macroexpand`. -/
structure StopsAt (scope : Scope) (form : Value) (store : Store) (reached : Value)
    (store' : Store) : Prop where
  only : ∀ form' store'', Met scope reached store' form' store'' →
    form' = reached ∧ store'' = store'
  expansion : ∀ result, ExpansionEnds scope form store result ↔ result = .ok reached store'
  evaluation : ∀ metadata identity,
    (Task.evaluate (.list [.symbol "macroexpand", form] metadata identity) scope).Ends store
      (.ok reached store')

theorem ends_expand (h : ExpansionEnds scope form store result) :
    (Task.evaluate (.list [.symbol "macroexpand", form] metadata identity) scope).Ends store
      (settledEnd result) := by
  have hexpand : specialForm? (.symbol "macroexpand") = some .expand := by decide
  refine ends_special hexpand ?_
  exact h.bind_pure fun _ _ _ _ => rfl

theorem Met.stopsAt (hmet : Met scope form store reached store')
    (h : expansionOf? store' scope reached = none) : StopsAt scope form store reached store' := by
  have hends : ExpansionEnds scope form store (.ok reached store') :=
    hmet.expansionEnds_iff.mpr (expansionEnds_of_no_call h)
  refine ⟨fun form' store'' hfurther => hfurther.eq_of_no_call h, fun result => ?_,
    fun metadata identity => ends_expand hends⟩
  constructor
  · intro hresult
    exact hresult.unique hends
  · rintro rfl
    exact hends

/-- The expansion of the form ends as that of what the call returns, or with the call. -/
def ExpandsBy (scope : Scope) (form : Value) (store : Store) (call : Task) (store' : Store) :
    Prop :=
  ∀ result, ExpansionEnds scope form store result ↔ ∃ returned, call.Ends store' returned ∧
    ((Fails returned ∧ result = returned) ∨
      ∃ expanded store'', returned = .ok expanded store'' ∧ expanded.isError = false ∧
        ExpansionEnds scope expanded store'' result)

theorem Met.expandsBy (hmet : Met scope form store reached store')
    (h : expansionOf? store' scope reached = some (function, arguments)) :
    ExpandsBy scope form store (.call function arguments) store' := by
  intro result
  refine (hmet.expansionEnds_iff.trans (expansionEnds_iff_call h)).trans ?_
  constructor
  · intro hends
    obtain ⟨returned, hcall⟩ := hends.exists_part fun _ hexhausted => hexhausted.bind _
    refine ⟨returned, hcall, ?_⟩
    rcases fails_or_value returned with hfails | ⟨expanded, store'', rfl, hvalue⟩
    · have hresult : result = mapEnd id returned := hends.unique (hcall.stops hfails)
      exact .inl ⟨hfails, hresult.trans (mapEnd_id returned)⟩
    · have hrest := hcall.bind_iff.mp hends
      simp only [hvalue, Bool.false_eq_true, if_false] at hrest
      exact .inr ⟨expanded, store'', rfl, hvalue, hrest⟩
  · rintro ⟨returned, hcall, ⟨hfails, rfl⟩ | ⟨expanded, store'', rfl, hvalue, hrest⟩⟩
    · rw [← mapEnd_id result]
      exact hcall.stops hfails
    · exact hcall.continues hvalue hrest

theorem expansionOf?_of_not_expander
    (h : ∀ function, store.lookup? scope name = some function → function.isExpander = false) :
    expansionOf? store scope (.list (.symbol name :: tail) metadata identity) = none := by
  rw [expansionOf?]
  cases hlookup : store.lookup? scope name with
  | none => rfl
  | some function =>
    dsimp only
    rw [h function hlookup]
    rfl

theorem expansionOf?_of_expander (hlookup : store.lookup? scope name = some function)
    (hexpander : function.isExpander = true) :
    expansionOf? store scope (.list (.symbol name :: tail) metadata identity) =
      some (function, tail) := by
  rw [expansionOf?, hlookup]
  dsimp only
  rw [if_pos hexpander]

/-- An expansion stops at a special form unless the name of the form is bound to an expander, which
is called then. The evaluator carries out the special form in either case. -/
theorem Met.special_form
    (hmet : Met scope form store (.list (.symbol name :: tail) metadata identity) store')
    (hspecial : SpecialForm.ofName? name = some special) :
    ((∀ function, store'.lookup? scope name = some function → function.isExpander = false) →
      StopsAt scope form store (.list (.symbol name :: tail) metadata identity) store') ∧
    (∀ function, store'.lookup? scope name = some function → function.isExpander = true →
      ExpandsBy scope form store (.call function tail) store') ∧
    ∀ steps run, (Task.evaluate (.list (.symbol name :: tail) metadata identity) scope).step steps
      run = EvalM.settle (special.evaluate steps run tail scope) := by
  have hhead : specialForm? (.symbol name) = some special := hspecial
  refine ⟨fun h => ?_, fun function hlookup hexpander => ?_, fun steps run => ?_⟩
  · exact hmet.stopsAt (expansionOf?_of_not_expander h)
  · exact hmet.expandsBy (expansionOf?_of_expander hlookup hexpander)
  · exact Task.step_special hhead steps run tail

/-- An expander that returns the form that it is called on, and a branch as this form. -/
theorem Met.special_form_branch :
    let expander := Value.closure 0 ⟨["form"], none⟩ (.symbol "form") (.global 0) true .nil
    let store := (Store.initial .empty "" 0).addFrame [("same", expander)]
    let branch := Value.ofList [.symbol "if", .bool true, .int 1]
    let store' := store.skipIdentity.addFrame [("form", branch)]
    let form := Value.ofList [.symbol "same", branch]
    Met (.global 0) form store branch store' ∧
      StopsAt (.global 0) form store branch store' := by
  intro expander store branch store' form
  have hcall : (Task.call expander [branch]).Ends store (.ok branch store') :=
    Task.ends_of_run (rfl : runTask 3 3 _ store = _) id
  have hlookup : store.lookup? (.global 0) "same" = some expander := rfl
  have hmet : Met (.global 0) form store branch store' :=
    .next .first (expansionOf?_of_expander hlookup rfl) hcall rfl
  have hspecial : SpecialForm.ofName? "if" = some .branch := by decide
  have hunbound : store'.lookup? (.global 0) "if" = none := rfl
  refine ⟨hmet, (hmet.special_form hspecial).1 fun function hfunction => ?_⟩
  cases hunbound.symm.trans hfunction

/-- With an expander for the name of a special form, forms are expanded that the evaluator does not
expand. -/
theorem Session.expands_branch :
    ∃ session store, Session.start (Limits.runner ⟨9, 9⟩) [] [] false (.initial .empty "" 0) =
        .ok session store ∧
      ∃ store', (do
        let _ ← session.answer "(defmacro! if (fn* (& xs) 7))"
        let expanded ← session.answer "(macroexpand (if true 1 2))"
        return (expanded, ← session.answer "(if true 1 2)")) store = .ok ("7", "1") store' := by
  refine ⟨_, _, rfl, ?_⟩
  decide +kernel

end SmallLisp
