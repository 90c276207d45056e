import SmallLisp.Proofs.FailurePropagation

/-! # Instances of templates

The instance of a template is told from the template alone: what is unquoted is replaced by its
value, and what is spliced by the elements of its value, everything from left to right. The
evaluation of a quasiquoted template, which goes through code that is built from it, ends as its
instance does.
-/
namespace SmallLisp

def Value.items : Value → List Value
  | .list items _ _ => items
  | .vector items _ _ => items
  | _ => []

def Value.IsMarked (name : String) (v : Value) : Prop :=
  ∃ form metadata identity, v = .list [.symbol name, form] metadata identity

mutual

/-- Outside the forms that are unquoted or spliced, `unquote` and `splice-unquote` are heads of
lists of two elements only, and a list headed by `splice-unquote` is an element of a sequence. -/
def IsTemplate : Value → Prop
  | .symbol name => name ≠ "unquote" ∧ name ≠ "splice-unquote"
  | .list items metadata identity =>
    (Value.list items metadata identity).IsMarked "unquote" ∨ AreParts items
  | .vector items _ _ => AreParts items
  | _ => True
termination_by structural x => x

def AreParts : List Value → Prop
  | [] => True
  | item :: items => (item.IsMarked "splice-unquote" ∨ IsTemplate item) ∧ AreParts items
termination_by structural x => x

end

def Resolves (op : CollectionOp) (scope : Scope) (store : Store) : Prop :=
  ∃ id home metadata,
    store.lookup? scope op.name = some (.native id (.plain (.collection op)) home metadata)

def contribution? : CollectionOp → Value → Option (List Value)
  | .concat, v => v.elements?
  | _, v => some [v]

mutual

inductive Instance (scope : Scope) : Value → Store → EStateM.Result Failure Store Value → Prop where
  | itself {t : Value} {store : Store} (hitems : t.items = []) :
      Instance scope t store (.ok t store)
  | unquoted {form metadata : Value} {identity : Option Identity} {store : Store}
      {result : EStateM.Result Failure Store Value}
      (hform : (Task.evaluate form scope).Ends store result) :
      Instance scope (.list [.symbol "unquote", form] metadata identity) store result
  | sequence {t : Value} {store : Store} {result : EStateM.Result Failure Store Value}
      (hitems : t.items ≠ []) (hmarked : ¬ t.IsMarked "unquote")
      (hinstances : Instances scope t.items store result) : Instance scope t store result

inductive Part (scope : Scope) :
    CollectionOp → Value → Store → EStateM.Result Failure Store Value → Prop where
  | element {item : Value} {store : Store} {result : EStateM.Result Failure Store Value}
      (hmarked : ¬ item.IsMarked "splice-unquote") (hinstance : Instance scope item store result) :
      Part scope .cons item store result
  | spliced {form metadata : Value} {identity : Option Identity} {store : Store}
      {result : EStateM.Result Failure Store Value}
      (hform : (Task.evaluate form scope).Ends store result) :
      Part scope .concat (.list [.symbol "splice-unquote", form] metadata identity) store result

/-- How the list of the contributions of all parts ends. It is a new list, and the parts are gone
through once, from left to right. -/
inductive Instances (scope : Scope) :
    List Value → Store → EStateM.Result Failure Store Value → Prop where
  | nil {store : Store} : Instances scope [] store (.ok (.ofList []) store)
  | cons {op : CollectionOp} {item v metadata : Value} {items us vs : List Value}
      {identity : Option Identity} {store store' store'' : Store}
      (hresolves : Resolves op scope store) (hpart : Part scope op item store (.ok v store'))
      (hvalue : v.isError = false) (hcontribution : contribution? op v = some us)
      (hrest : Instances scope items store' (.ok (.list vs metadata identity) store'')) :
      Instances scope (item :: items) store
        (.ok (.list (us ++ vs) .nil (some store''.heap.nextIdentity)) store''.skipIdentity)
  | partStops {op : CollectionOp} {item : Value} {items : List Value} {store : Store}
      {result : EStateM.Result Failure Store Value} (hresolves : Resolves op scope store)
      (hpart : Part scope op item store result) (hstops : Stops result) :
      Instances scope (item :: items) store result
  | restStops {op : CollectionOp} {item v : Value} {items : List Value} {store store' : Store}
      {result : EStateM.Result Failure Store Value} (hresolves : Resolves op scope store)
      (hpart : Part scope op item store (.ok v store')) (hvalue : v.isError = false)
      (hrest : Instances scope items store' result) (hstops : Stops result) :
      Instances scope (item :: items) store result
  | notSpliceable {op : CollectionOp} {item v metadata : Value} {items vs : List Value}
      {identity : Option Identity} {store store' store'' : Store}
      (hresolves : Resolves op scope store) (hpart : Part scope op item store (.ok v store'))
      (hvalue : v.isError = false) (hcontribution : contribution? op v = none)
      (hrest : Instances scope items store' (.ok (.list vs metadata identity) store'')) :
      Instances scope (item :: items) store
        (EvalM.errorOf (.kind (.unexpected op.name .sequence v)) store'')

end

def Store.skipIdentities (count : Nat) (store : Store) : Store :=
  { store with heap := { store.heap with nextIdentity := store.heap.nextIdentity + count } }

/-- The code that results, evaluated in a store, ends in this way. No more than identities is
used up while the code is built. -/
def Builds (x : EvalM Value)
    (final : Scope → Store → EStateM.Result Failure Store Value → Prop) : Prop :=
  ∃ count, ∀ store, ∃ code, x store = .ok code (store.skipIdentities count) ∧
    ∀ scope store' result, final scope store' result →
      (Task.evaluate code scope).Ends store' result

variable {scope : Scope} {store store' store'' : Store} {t v metadata : Value}
  {identity : Option Identity} {result : EStateM.Result Failure Store Value}

theorem ends_quote (form : Value) :
    (Task.evaluate (.list [.symbol "quote", form] metadata identity) scope).Ends store
      (.ok form store) := by
  have hquote : specialForm? (.symbol "quote") = some .quote := by decide
  exact Task.StepEnds.last (Task.stepEnds_special hquote (ends_pure _) nofun)

theorem Resolves.ordinary {op : CollectionOp} (h : Resolves op scope store)
    (hname : SpecialForm.ofName? op.name = none) : Ordinary store scope (.symbol op.name) := by
  obtain ⟨id, home, metadata, hlookup⟩ := h
  exact ordinary_symbol hname hlookup rfl

theorem settle_fault (fault : Fault) (store : Store) :
    EvalM.settle (EvalM.fault fault) store = mapEnd Step.done (EvalM.errorOf fault store) := by
  have hsettle : EvalM.settle (EvalM.fault fault) store =
      (Step.done <$> EvalM.errorOf fault) store := rfl
  rw [hsettle]
  simp only [Functor.map, EStateM.map]
  cases EvalM.errorOf fault store with
  | ok v store' => rfl
  | error failure store' => rfl

theorem errorOf_ends (fault : Fault) (store : Store) :
    ¬ Exhausted (EvalM.errorOf fault store) ∧ Stops (EvalM.errorOf fault store) := by
  rw [EvalM.errorOf_eq]
  cases hmessage : fault.message store.heap with
  | ok message => exact ⟨id, rfl⟩
  | error reason =>
    have hprinting := fault.message_gives_up store.heap reason hmessage
    refine ⟨fun hexhausted => ?_, trivial⟩
    cases reason with
    | exhausted => exact hprinting
    | _ => exact hexhausted

section Builtins

variable {op : CollectionOp} {vs items : List Value}

/-- A call of a builtin on two forms, once both have values. -/
theorem stepEnds_builder {first rest w : Value} {step : EStateM.Result Failure Store Step}
    (hresolves : Resolves op scope store) (hname : SpecialForm.ofName? op.name = none)
    (hfirst : (Task.evaluate first scope).Ends store (.ok v store')) (hv : v.isError = false)
    (hrest : (Task.evaluate rest scope).Ends store' (.ok w store'')) (hw : w.isError = false)
    (h : ∀ run id home metadata, applyFunction run
      (.native id (.plain (.collection op)) home metadata) [v, w] store'' = step)
    (hfinal : ¬ Exhausted step) :
    (Task.evaluate (.list [.symbol op.name, first, rest] metadata identity) scope).StepEnds store
      step := by
  have hordinary := hresolves.ordinary hname
  obtain ⟨id, home, m, hlookup⟩ := hresolves
  refine Task.stepEnds_call hordinary.specialForm_eq (hordinary.expansionOf_eq _) ?_
  have hall : Evaluated scope [first, rest] store [v, w] store'' :=
    .cons hfirst hv (.cons hrest hw (.nil store''))
  refine (ends_symbol hlookup).continues rfl (hall.all.bind ?_)
  simp only [Value.isFunction, if_true]
  exact ends_of_eq hfinal fun limits => h _ _ _ _

theorem applyFunction_collection (hselects : op.selects = false)
    (happly : op.apply vs = .ok (.ofList items)) (run : Runner) (id : Identity) (home : FrameId)
    (metadata : Value) (store : Store) :
    applyFunction run (.native id (.plain (.collection op)) home metadata) vs store =
      .ok (.done (.list items .nil (some store.heap.nextIdentity))) store.skipIdentity := by
  have hcallee : Callee.ofCall (.native id (.plain (.collection op)) home metadata) vs =
      .ok (.builtin (.collection op) home, vs) := rfl
  simp only [applyFunction, hcallee, EvalM.ofFault, pure_bind, Callee.enter, PlainBuiltin.apply,
    happly, hselects, Bool.false_eq_true, if_false]
  rfl

theorem applyFunction_collection_fault {fault : Fault} (happly : op.apply vs = .error fault)
    (run : Runner) (id : Identity) (home : FrameId) (metadata : Value) (store : Store) :
    applyFunction run (.native id (.plain (.collection op)) home metadata) vs store =
      mapEnd Step.done (EvalM.errorOf fault store) := by
  have hcallee : Callee.ofCall (.native id (.plain (.collection op)) home metadata) vs =
      .ok (.builtin (.collection op) home, vs) := rfl
  rw [← settle_fault]
  simp only [applyFunction, hcallee, EvalM.ofFault, pure_bind, Callee.enter, PlainBuiltin.apply,
    happly]
  rfl

end Builtins

theorem Part.op_eq {op : CollectionOp} {item : Value} (h : Part scope op item store result) :
    op = .cons ∨ op = .concat := by
  cases h with
  | element => exact .inl rfl
  | spliced => exact .inr rfl

theorem Part.name_eq_none {op : CollectionOp} {item : Value}
    (h : Part scope op item store result) : SpecialForm.ofName? op.name = none := by
  rcases h.op_eq with rfl | rfl
  · decide
  · decide

theorem Part.selects_eq_false {op : CollectionOp} {item : Value}
    (h : Part scope op item store result) : op.selects = false := by
  rcases h.op_eq with rfl | rfl
  · rfl
  · rfl

theorem apply_contribution {op : CollectionOp} {us : List Value} (hop : op = .cons ∨ op = .concat)
    (h : contribution? op v = some us) (vs : List Value) :
    op.apply [v, .list vs metadata identity] = .ok (.ofList (us ++ vs)) := by
  rcases hop with rfl | rfl
  · cases h
    rfl
  · have hv : expectElements "concat" v = .ok us := by
      rw [expectElements, show v.elements? = some us from h]
    have hlist : expectElements "concat" (.list vs metadata identity) = .ok vs := rfl
    simp only [CollectionOp.apply, CollectionOp.name, List.mapM_cons, List.mapM_nil, hv, hlist,
      Bind.bind, Except.bind, pure, Except.pure, List.flatten_cons, List.flatten_nil,
      List.append_nil]

theorem apply_of_no_contribution {op : CollectionOp} (hop : op = .cons ∨ op = .concat)
    (h : contribution? op v = none) (rest : Value) :
    op.apply [v, rest] = .error (.kind (.unexpected op.name .sequence v)) := by
  rcases hop with rfl | rfl
  · cases h
  · have hv : expectElements CollectionOp.concat.name v =
        .error (.kind (.unexpected CollectionOp.concat.name .sequence v)) := by
      rw [expectElements, show v.elements? = none from h]
    simp only [CollectionOp.apply, List.mapM_cons, hv, Bind.bind, Except.bind]

/-- The call that puts a part in front of the others ends as the replacement of all does. -/
theorem Instances.call_ends {op : CollectionOp} {item first rest : Value} {items : List Value}
    (h : Instances scope (item :: items) store result)
    (hop : ∀ op' store result, Part scope op' item store result → op' = op)
    (hfirst : ∀ store result, Part scope op item store result →
      (Task.evaluate first scope).Ends store result)
    (hrest : ∀ store result, Instances scope items store result →
      (Task.evaluate rest scope).Ends store result) :
    (Task.evaluate (.list [.symbol op.name, first, rest] metadata identity) scope).Ends store
      result := by
  cases h with
  | cons hresolves hpart hvalue hcontribution hinstances =>
    cases hop _ _ _ hpart
    refine Task.StepEnds.last (stepEnds_builder hresolves hpart.name_eq_none (hfirst _ _ hpart)
      hvalue (hrest _ _ hinstances) rfl (fun run id home m => ?_) id)
    exact applyFunction_collection hpart.selects_eq_false
      (apply_contribution hpart.op_eq hcontribution _) run id home m _
  | partStops hresolves hpart hstops =>
    cases hop _ _ _ hpart
    have hordinary := hresolves.ordinary hpart.name_eq_none
    obtain ⟨id, home, m, hlookup⟩ := hresolves
    exact stops_argument hordinary (ends_symbol hlookup) rfl (.nil _) (hfirst _ _ hpart) hstops
  | restStops hresolves hpart hvalue hinstances hstops =>
    cases hop _ _ _ hpart
    have hordinary := hresolves.ordinary hpart.name_eq_none
    obtain ⟨id, home, m, hlookup⟩ := hresolves
    have hbefore := Evaluated.cons (hfirst _ _ hpart) hvalue (.nil _)
    exact stops_argument hordinary (ends_symbol hlookup) rfl hbefore (hrest _ _ hinstances) hstops
  | @notSpliceable _ _ v _ _ _ _ _ _ store'' hresolves hpart hvalue hcontribution hinstances =>
    cases hop _ _ _ hpart
    have hfault := apply_of_no_contribution hpart.op_eq hcontribution
    refine Task.StepEnds.last (stepEnds_builder hresolves hpart.name_eq_none (hfirst _ _ hpart)
      hvalue (hrest _ _ hinstances) rfl (fun run id home m => ?_) ?_)
    · exact applyFunction_collection_fault (hfault _) run id home m store''
    · exact mt exhausted_mapEnd.mp (errorOf_ends _ store'').1

/-! ## The code of a template -/

theorem Store.skipIdentities_skipIdentities (count count' : Nat) (store : Store) :
    (store.skipIdentities count).skipIdentities count' = store.skipIdentities (count + count') := by
  simp only [Store.skipIdentities, Nat.add_assoc]

theorem newList_eq (items : List Value) (store : Store) :
    EvalM.newList items store =
      .ok (.list items .nil (some store.heap.nextIdentity)) (store.skipIdentities 1) := rfl

theorem builds_quote (form : Value)
    {final : Scope → Store → EStateM.Result Failure Store Value → Prop}
    (h : ∀ scope store result, final scope store result → result = .ok form store) :
    Builds (quoteForm form) final := by
  refine ⟨1, fun store => ⟨_, newList_eq _ store, fun scope store' result hfinal => ?_⟩⟩
  rw [h scope store' result hfinal]
  exact ends_quote form

/-- The code of a call from the codes of its two arguments. -/
theorem Builds.call {name : String} {x y : EvalM Value}
    {first rest whole : Scope → Store → EStateM.Result Failure Store Value → Prop}
    (hx : Builds x first) (hy : Builds y rest)
    (hcall : ∀ scope code others identity store result,
      (∀ store result, first scope store result → (Task.evaluate code scope).Ends store result) →
      (∀ store result, rest scope store result → (Task.evaluate others scope).Ends store result) →
      whole scope store result →
        (Task.evaluate (.list [.symbol name, code, others] .nil identity) scope).Ends store
          result) :
    Builds (do
      let first ← x
      let others ← y
      EvalM.newList [.symbol name, first, others]) whole := by
  obtain ⟨count, hx⟩ := hx
  obtain ⟨count', hy⟩ := hy
  refine ⟨count + count' + 1, fun store => ?_⟩
  obtain ⟨code, hcode, hfirst⟩ := hx store
  obtain ⟨others, hothers, hrest⟩ := hy (store.skipIdentities count)
  rw [Store.skipIdentities_skipIdentities] at hothers
  have hlist : (do
      let first ← x
      let others ← y
      EvalM.newList [.symbol name, first, others]) store =
      .ok (.list [.symbol name, code, others] .nil
        (some (store.skipIdentities (count + count')).heap.nextIdentity))
        (store.skipIdentities (count + count' + 1)) := by
    simp only [Bind.bind, EStateM.bind, hcode, hothers, newList_eq,
      Store.skipIdentities_skipIdentities]
  exact ⟨_, hlist, fun scope store' result h =>
    hcall scope code others _ store' result (hfirst scope) (hrest scope) h⟩

/-- The code of a sequence from the code of its first part and the code of the others. -/
theorem Builds.cons {op : CollectionOp} {item : Value} {items : List Value} {x y : EvalM Value}
    (hx : Builds x (Part · op item)) (hy : Builds y (Instances · items))
    (hop : ∀ scope op' store result, Part scope op' item store result → op' = op) :
    Builds (do
      let first ← x
      let others ← y
      EvalM.newList [.symbol op.name, first, others]) (Instances · (item :: items)) :=
  hx.call hy fun scope _ _ _ _ _ hfirst hrest h => Instances.call_ends h (hop scope) hfirst hrest

theorem builds_spliced (form : Value) :
    Builds (pure form)
      (Part · .concat (.list [.symbol "splice-unquote", form] metadata identity)) := by
  refine ⟨0, fun store => ⟨form, rfl, fun scope store' result h => ?_⟩⟩
  cases h with
  | spliced hform => exact hform

theorem Builds.element {item : Value} {x : EvalM Value} (h : Builds x (Instance · item)) :
    Builds x (Part · .cons item) := by
  obtain ⟨count, h⟩ := h
  refine ⟨count, fun store => ?_⟩
  obtain ⟨code, hcode, hends⟩ := h store
  refine ⟨code, hcode, fun scope store' result hpart => ?_⟩
  cases hpart with
  | element _ hinstance => exact hends scope store' result hinstance

theorem Builds.sequence {x : EvalM Value} (h : Builds x (Instances · t.items))
    (hitems : t.items ≠ []) (hmarked : ¬ t.IsMarked "unquote") : Builds x (Instance · t) := by
  obtain ⟨count, h⟩ := h
  refine ⟨count, fun store => ?_⟩
  obtain ⟨code, hcode, hends⟩ := h store
  refine ⟨code, hcode, fun scope store' result hinstance => ?_⟩
  cases hinstance with
  | itself hempty => exact absurd hempty hitems
  | unquoted _ => exact absurd ⟨_, _, _, rfl⟩ hmarked
  | sequence _ _ hinstances => exact hends scope store' result hinstances

theorem builds_itself (hitems : t.items = []) : Builds (quoteForm t) (Instance · t) := by
  refine builds_quote t fun scope store result h => ?_
  cases h with
  | itself _ => rfl
  | unquoted _ => cases hitems
  | sequence hne _ _ => exact absurd hitems hne

theorem isSymbolNamed_iff {name : String} : v.isSymbolNamed name = true ↔ v = .symbol name := by
  cases v with
  | symbol other => simp [Value.isSymbolNamed]
  | _ => simp [Value.isSymbolNamed]

/-- No part of a sequence is one of the symbols by itself. -/
theorem AreParts.head_ne {item : Value} {items : List Value} {name : String}
    (h : AreParts (item :: items)) (hname : name = "unquote" ∨ name = "splice-unquote") :
    item.isSymbolNamed name = false := by
  refine Bool.eq_false_iff.mpr fun hsymbol => ?_
  rw [isSymbolNamed_iff] at hsymbol
  subst hsymbol
  rcases h.1 with ⟨form, metadata, identity, heq⟩ | ⟨hunquote, hsplice⟩
  · cases heq
  · exact hname.elim hunquote hsplice

theorem tailAfter_eq_none {name : String} (h : t.items.head? ≠ some (.symbol name)) :
    t.tailAfter? name = none := by
  match t with
  | .list (head :: tail) _ _ | .vector (head :: tail) _ _ =>
    have hhead : ¬ head.isSymbolNamed name = true := fun hsymbol =>
      h (congrArg some (isSymbolNamed_iff.mp hsymbol))
    exact if_neg hhead
  | .list [] _ _ | .vector [] _ _ => rfl
  | .nil | .bool _ | .int _ | .str _ | .symbol _ | .keyword _ | .table _ _ | .atom _
  | .native _ _ _ _ | .closure _ _ _ _ _ _ | .error _ _ => rfl

theorem IsTemplate.tailAfter_eq_none (h : IsTemplate t) :
    t.tailAfter? "splice-unquote" = none := by
  refine SmallLisp.tailAfter_eq_none fun hhead => ?_
  cases t with
  | list items metadata identity =>
    obtain ⟨tail, rfl⟩ := List.head?_eq_some_iff.mp hhead
    rcases h with ⟨form, metadata', identity', heq⟩ | hparts
    · simp at heq
    · exact absurd (hparts.head_ne (.inr rfl)) (by decide)
  | vector items metadata identity =>
    obtain ⟨tail, rfl⟩ := List.head?_eq_some_iff.mp hhead
    exact absurd (AreParts.head_ne h (.inr rfl)) (by decide)
  | _ => cases hhead

mutual

/-- The code of a template ends as the replacement of its parts does. -/
theorem expandTemplate_builds :
    ∀ t : Value, IsTemplate t → Builds (expandTemplate t) (Instance · t)
  | .list items metadata identity, h => by
    rcases h with ⟨form, _, _, heq⟩ | hparts
    · cases heq
      -- an unquoted form is its own code
      refine ⟨0, fun store => ⟨form, rfl, fun scope store' result hinstance => ?_⟩⟩
      cases hinstance with
      | itself hitems => cases hitems
      | unquoted hform => exact hform
      | sequence _ hmarked _ => exact absurd ⟨form, metadata, identity, rfl⟩ hmarked
    · by_cases hitems : items = []
      · subst hitems
        exact builds_itself rfl
      · refine (expandItems_builds true (.list items metadata identity) items
          (absurd · hitems) hparts).sequence hitems ?_
        rintro ⟨form, _, _, heq⟩
        cases heq
        exact absurd (hparts.head_ne (.inl rfl)) nofun
  | .vector items metadata identity, hparts => by
    by_cases hitems : items = []
    · subst hitems
      exact builds_itself rfl
    · exact (expandItems_builds false (.vector items metadata identity) items
        (absurd · hitems) hparts).sequence hitems nofun
  | .nil, _ | .bool _, _ | .int _, _ | .str _, _ | .symbol _, _ | .keyword _, _ | .table _ _, _
  | .atom _, _ | .native _ _ _ _, _ | .closure _ _ _ _ _ _, _ | .error _ _, _ => builds_itself rfl
termination_by structural x => x

theorem expandItems_builds (isList : Bool) (empty : Value) :
    ∀ items : List Value, (items = [] → empty = .ofList []) → AreParts items →
      Builds (expandItems isList empty items) (Instances · items)
  | [], hempty, _ => by
    rw [expandItems, hempty rfl]
    refine builds_quote _ fun scope store result h => ?_
    cases h
    rfl
  | item :: items, _, h => by
    have hhead : (isList && item.isSymbolNamed "unquote") = false := by
      rw [h.head_ne (.inl rfl), Bool.and_false]
    have hrest := expandItems_builds true (.ofList []) items (fun _ => rfl) h.2
    rw [expandItems, hhead, if_neg Bool.false_ne_true]
    -- which builtin joins the item depends on whether it is spliced
    rcases h.1 with ⟨form, metadata, identity, rfl⟩ | hitem
    · refine (builds_spliced form).cons hrest fun scope op' store result hpart => ?_
      cases hpart with
      | element hmarked => exact absurd ⟨form, metadata, identity, rfl⟩ hmarked
      | spliced => rfl
    · rw [hitem.tailAfter_eq_none]
      refine (expandTemplate_builds item hitem).element.cons hrest
        fun scope op' store result hpart => ?_
      cases hpart with
      | element => rfl
      | spliced => cases hitem.tailAfter_eq_none
termination_by structural x => x

end

/-- A quasiquoted template ends as the replacement of its parts does, after as many identities as
its code has lists have been given out. -/
theorem IsTemplate.quasiquote_ends (h : IsTemplate t) :
    ∃ count, ∀ scope store metadata identity result,
      Instance scope t (store.skipIdentities count) result →
        (Task.evaluate (.list [.symbol "quasiquote", t] metadata identity) scope).Ends store
          result := by
  obtain ⟨count, hbuilds⟩ := expandTemplate_builds t h
  refine ⟨count, fun scope store metadata identity result hinstance => ?_⟩
  have hquasiquote : specialForm? (.symbol "quasiquote") = some .quasiquote := by decide
  obtain ⟨code, hcode, hends⟩ := hbuilds store
  have hstep : (Task.evaluate (.list [.symbol "quasiquote", t] metadata identity) scope).StepEnds
      store (.ok (.tail code scope) (store.skipIdentities count)) := by
    refine Task.stepEnds_special hquasiquote (ends_of_eq id fun limits => ?_) nofun
    simp only [SpecialForm.evaluate, onlyForm, EvalM.ofFault, pure_bind]
    simp only [Bind.bind, EStateM.bind, hcode]
    rfl
  exact hstep.next (hends scope _ result hinstance)

/-- A symbol, an unquoted form, and a vector into which a vector is spliced. -/
theorem IsTemplate.quasiquote_ends_nested :
    let prepend := Value.native 0 (.plain (.collection .cons)) 0 .nil
    let join := Value.native 1 (.plain (.collection .concat)) 0 .nil
    let store := (Store.initial .empty "" 0).addFrame [("cons", prepend), ("concat", join),
      ("x", .keyword "k"), ("ys", .ofVector [.bool true, .bool false])]
    let inner := Value.ofVector [.ofList [.symbol "splice-unquote", .symbol "ys"]]
    let t := Value.ofList [.symbol "a", .ofList [.symbol "unquote", .symbol "x"], inner]
    IsTemplate t ∧ ∃ count,
      let built := store.skipIdentities count
      let spliced := Value.list [.bool true, .bool false] .nil (some built.heap.nextIdentity)
      let value := Value.list [.symbol "a", .keyword "k", spliced] .nil
        (some (built.skipIdentities 3).heap.nextIdentity)
      Instance (.global 0) t built (.ok value (built.skipIdentities 4)) ∧
        (Task.evaluate (.ofList [.symbol "quasiquote", t]) (.global 0)).Ends store
          (.ok value (built.skipIdentities 4)) := by
  intro prepend join store inner t
  have hinner : IsTemplate inner := ⟨.inl ⟨_, _, _, rfl⟩, trivial⟩
  have ht : IsTemplate t :=
    .inr ⟨.inr ⟨by decide, by decide⟩, .inr (.inl ⟨_, _, _, rfl⟩), .inr hinner, trivial⟩
  obtain ⟨count, hends⟩ := ht.quasiquote_ends
  refine ⟨ht, count, ?_⟩
  intro built spliced value
  have hcons : ∀ n, Resolves .cons (.global 0) (built.skipIdentities n) := fun n => ⟨_, _, _, rfl⟩
  have hconcat : Resolves .concat (.global 0) built := ⟨_, _, _, rfl⟩
  have hys : (Task.evaluate (.symbol "ys") (.global 0)).Ends built
      (.ok (.ofVector [.bool true, .bool false]) built) := ends_symbol rfl
  have hspliced : Instances (.global 0) inner.items built (.ok spliced built.skipIdentity) :=
    .cons hconcat (.spliced hys) rfl rfl .nil
  have hvector : Instance (.global 0) inner built (.ok spliced built.skipIdentity) :=
    .sequence nofun nofun hspliced
  have hx : Instance (.global 0) (.ofList [.symbol "unquote", .symbol "x"]) built
      (.ok (.keyword "k") built) := .unquoted (ends_symbol rfl)
  have hlast : Instances (.global 0) [inner] built _ :=
    .cons (hcons 0) (.element nofun hvector) rfl rfl .nil
  have hunquote : ¬ (Value.ofList [.symbol "unquote", .symbol "x"]).IsMarked "splice-unquote" := by
    simp [Value.IsMarked, Value.ofList]
  have hothers : Instances (.global 0) t.items.tail built _ :=
    .cons (hcons 0) (.element hunquote hx) rfl rfl hlast
  have hall : Instances (.global 0) t.items built _ :=
    .cons (hcons 0) (.element nofun (.itself rfl)) rfl rfl hothers
  have hplain : ¬ t.IsMarked "unquote" := by simp [Value.IsMarked, t, Value.ofList]
  have hvalue : Instance (.global 0) t built (.ok value (built.skipIdentities 4)) :=
    .sequence nofun hplain hall
  exact ⟨hvalue, hends _ _ _ _ _ hvalue⟩

end SmallLisp
