import Mathlib.Data.List.Forall2
import SmallLisp.Proofs.Answers
import SmallLisp.Proofs.BundledPrelude

/-! # Vectors as templates

A vector is a template for the list of what its elements stand for. The symbols `unquote` and
`splice-unquote` are meant to be literal in it unless they head one of its elements. But all that
follows an element counts as a list, so an `unquote` there takes the place of this list and makes
it the value of the one form behind it.
-/
namespace SmallLisp

variable {scope : Scope} {store store' : Store} {t item v metadata : Value}
  {identity : Option Identity} {items vs : List Value}
  {result : EStateM.Result Failure Store Value}

inductive Throughout (p : Value → Prop) : Value → Prop where
  | intro {t : Value} (root : p t) (items : ∀ item ∈ t.items, Throughout p item) : Throughout p t

theorem throughout_iff {p : Value → Prop} :
    Throughout p t ↔ p t ∧ ∀ item ∈ t.items, Throughout p item := by
  constructor
  · rintro ⟨root, items⟩
    exact ⟨root, items⟩
  · rintro ⟨root, items⟩
    exact ⟨root, items⟩

theorem throughout_of_no_items {p : Value → Prop} (h : p t) (hitems : t.items = []) :
    Throughout p t := by
  refine .intro h ?_
  rw [hitems]
  exact List.forall_mem_nil _

def Unmarked (t : Value) : Prop :=
  t.items.head? ≠ some (.symbol "unquote") ∧ t.items.head? ≠ some (.symbol "splice-unquote")

/-- A template that is no error value and in which `unquote` follows no element. -/
def Straight (t : Value) : Prop := t.isError = false ∧ .symbol "unquote" ∉ t.items.tail

mutual

/-- Exactly one form is behind each `unquote` that follows an element of a sequence. This form is
no template. -/
def IsComplete : Value → Prop
  | .list items _ _ | .vector items _ _ => AreComplete false items
  | _ => True
termination_by structural x => x

def AreComplete (behind : Bool) : List Value → Prop
  | [] => True
  | item :: items =>
    if behind && item.isSymbolNamed "unquote" then items.length = 1
    else IsComplete item ∧ AreComplete true items
termination_by structural x => x

end

abbrev Ending : Type := Store → EStateM.Result Failure Store Value → Prop

inductive ConsEnds (scope : Scope) (first rest : Ending) : Ending where
  | cons {v w : Value} {vs : List Value} {store store' store'' : Store}
      (hresolves : Resolves .cons scope store) (hfirst : first store (.ok v store'))
      (hv : v.isError = false) (hrest : rest store' (.ok w store'')) (hw : w.isError = false)
      (helements : w.elements? = some vs) :
      ConsEnds scope first rest store
        (.ok (.list (v :: vs) .nil (some store''.heap.nextIdentity)) store''.skipIdentity)
  | firstStops {store : Store} {result : EStateM.Result Failure Store Value}
      (hresolves : Resolves .cons scope store) (hfirst : first store result)
      (hstops : Stops result) : ConsEnds scope first rest store result
  | restStops {v : Value} {store store' : Store} {result : EStateM.Result Failure Store Value}
      (hresolves : Resolves .cons scope store) (hfirst : first store (.ok v store'))
      (hv : v.isError = false) (hrest : rest store' result) (hstops : Stops result) :
      ConsEnds scope first rest store result
  | noSequence {v w : Value} {store store' store'' : Store}
      (hresolves : Resolves .cons scope store) (hfirst : first store (.ok v store'))
      (hv : v.isError = false) (hrest : rest store' (.ok w store'')) (hw : w.isError = false)
      (helements : w.elements? = none) :
      ConsEnds scope first rest store
        (EvalM.errorOf (.kind (.unexpected "cons" .sequence w)) store'')

mutual

def TemplateEnds (scope : Scope) : Value → Ending
  | .list items metadata identity => ItemsEnd scope false (.list items metadata identity) items
  | .vector items metadata identity => ItemsEnd scope false (.vector items metadata identity) items
  | t => fun store result => result = .ok t store
termination_by structural x => x

def ItemsEnd (scope : Scope) (behind : Bool) (empty : Value) : List Value → Ending
  | [] => fun store result => result = .ok empty store
  | item :: items =>
    if behind && item.isSymbolNamed "unquote" then fun store result =>
      ∃ form, items = [form] ∧ (Task.evaluate form scope).Ends store result
    else ConsEnds scope (TemplateEnds scope item) (ItemsEnd scope true (.ofList []) items)
termination_by structural x => x

end

theorem itemsEnd_of_unquote {behind : Bool} {empty form : Value}
    (h : (behind && item.isSymbolNamed "unquote") = true) :
    ItemsEnd scope behind empty [item, form] store result ↔
      (Task.evaluate form scope).Ends store result := by
  rw [ItemsEnd, if_pos h]
  constructor
  · rintro ⟨_, ⟨⟩, hends⟩
    exact hends
  · intro hends
    exact ⟨form, rfl, hends⟩

theorem itemsEnd_of_plain {behind : Bool} {empty : Value}
    (h : ¬ (behind && item.isSymbolNamed "unquote") = true) :
    ItemsEnd scope behind empty (item :: items) =
      ConsEnds scope (TemplateEnds scope item) (ItemsEnd scope true (.ofList []) items) := by
  rw [ItemsEnd, if_neg h]

/-! ## Their code -/

theorem apply_cons_eq (first rest : Value) :
    CollectionOp.cons.apply [first, rest] = match rest.elements? with
      | some items => .ok (.ofList (first :: items))
      | none => .error (.kind (.unexpected CollectionOp.cons.name .sequence rest)) := by
  simp only [CollectionOp.apply, twoArguments, expectElements, Bind.bind, Except.bind]
  cases rest.elements? with
  | none => rfl
  | some items => rfl

theorem ConsEnds.ends {first rest : Ending} {code others : Value}
    (h : ConsEnds scope first rest store result)
    (hfirst : ∀ store result, first store result → (Task.evaluate code scope).Ends store result)
    (hrest : ∀ store result, rest store result → (Task.evaluate others scope).Ends store result) :
    (Task.evaluate (.list [.symbol "cons", code, others] metadata identity) scope).Ends store
      result := by
  have hname : SpecialForm.ofName? CollectionOp.cons.name = none := by decide
  cases h with
  | @cons v w vs _ _ store'' hresolves hv hvalue hw hwvalue helements =>
    have happly : CollectionOp.cons.apply [v, w] = .ok (.ofList (v :: vs)) := by
      rw [apply_cons_eq, helements]
    refine Task.StepEnds.last (stepEnds_builder hresolves hname (hfirst _ _ hv) hvalue
      (hrest _ _ hw) hwvalue (fun run id home m => ?_) id)
    exact applyFunction_collection rfl happly run id home m store''
  | firstStops hresolves hv hstops =>
    have hoffers : store.Offers scope (.collection .cons) := hresolves
    exact hoffers.stops (.nil _) (hfirst _ _ hv) hstops
  | restStops hresolves hv hvalue hw hstops =>
    have hoffers : store.Offers scope (.collection .cons) := hresolves
    exact hoffers.stops (.cons (hfirst _ _ hv) hvalue (.nil _)) (hrest _ _ hw) hstops
  | @noSequence v w _ _ store'' hresolves hv hvalue hw hwvalue helements =>
    have happly : CollectionOp.cons.apply [v, w] =
        .error (.kind (.unexpected CollectionOp.cons.name .sequence w)) := by
      rw [apply_cons_eq, helements]
    refine Task.StepEnds.last (stepEnds_builder hresolves hname (hfirst _ _ hv) hvalue
      (hrest _ _ hw) hwvalue (fun run id home m => ?_) ?_)
    · exact applyFunction_collection_fault happly run id home m store''
    · exact mt exhausted_mapEnd.mp (errorOf_ends _ store'').1

/-- A list that `unquote` does not head has the code of a vector. -/
theorem expandItems_list (empty : Value) (h : items.head? ≠ some (.symbol "unquote")) :
    expandItems true empty items = expandItems false empty items := by
  cases items with
  | nil => rfl
  | cons item items =>
    have hitem : item.isSymbolNamed "unquote" = false :=
      Bool.eq_false_iff.mpr fun hsymbol => h (congrArg some (isSymbolNamed_iff.mp hsymbol))
    rw [expandItems, expandItems, hitem, Bool.and_false, Bool.and_false]

mutual

theorem expandTemplate_complete :
    ∀ t : Value, Throughout Unmarked t → IsComplete t →
      Builds (expandTemplate t) (TemplateEnds · t)
  | .list items metadata identity, hliteral, hcomplete => by
    obtain ⟨hroot, hitems⟩ := throughout_iff.mp hliteral
    have hlist : expandTemplate (.list items metadata identity) =
        expandItems false (.list items metadata identity) items := expandItems_list _ hroot.1
    rw [hlist]
    exact expandItems_complete false (.list items metadata identity) items hitems hcomplete
  | .vector items metadata identity, hliteral, hcomplete => by
    rw [expandTemplate]
    exact expandItems_complete false (.vector items metadata identity) items
      (throughout_iff.mp hliteral).2 hcomplete
  | .nil, _, _ | .bool _, _, _ | .int _, _, _ | .str _, _, _ | .symbol _, _, _
  | .keyword _, _, _ | .table _ _, _, _ | .atom _, _, _ | .native _ _ _ _, _, _
  | .closure _ _ _ _ _ _, _, _ | .error _ _, _, _ => builds_quote _ fun _ _ _ h => h
termination_by structural x => x

theorem expandItems_complete (behind : Bool) (empty : Value) :
    ∀ items : List Value, (∀ item ∈ items, Throughout Unmarked item) →
      AreComplete behind items →
      Builds (expandItems behind empty items) (ItemsEnd · behind empty items)
  | [], _, _ => builds_quote _ fun _ _ _ h => h
  | item :: items, hliteral, hcomplete => by
    obtain ⟨hitem, hitems⟩ := List.forall_mem_cons.mp hliteral
    rw [AreComplete] at hcomplete
    rw [expandItems]
    split at hcomplete
    · next hunquote =>
      obtain ⟨form, rfl⟩ := List.length_eq_one_iff.mp hcomplete
      rw [if_pos hunquote]
      exact ⟨0, fun store => ⟨form, rfl, fun _ _ _ h => (itemsEnd_of_unquote hunquote).mp h⟩⟩
    · next hplain =>
      rw [if_neg hplain, tailAfter_eq_none (throughout_iff.mp hitem).1.2]
      have hfirst := expandTemplate_complete item hitem hcomplete.1
      have hrest := expandItems_complete true (.ofList []) items hitems hcomplete.2
      refine hfirst.call hrest fun scope _ _ _ _ _ hcode hothers h => ?_
      rw [itemsEnd_of_plain hplain] at h
      exact h.ends hcode hothers
termination_by structural x => x

end

def GivesUp (x : EvalM Value) : Prop :=
  ∀ store, ∃ store', x store = .error (.fault (.count (.oneForm "unquote"))) store'

theorem GivesUp.bind {x : EvalM Value} (h : GivesUp x) (f : Value → EvalM Value) :
    GivesUp (x >>= f) := by
  intro store
  obtain ⟨store', hx⟩ := h store
  refine ⟨store', ?_⟩
  simp only [Bind.bind, EStateM.bind, hx]

theorem Builds.givesUp_bind {x : EvalM Value} {f : Value → EvalM Value}
    {final : Scope → Store → EStateM.Result Failure Store Value → Prop} (h : Builds x final)
    (hf : ∀ code, GivesUp (f code)) : GivesUp (x >>= f) := by
  intro store
  obtain ⟨count, hx⟩ := h
  obtain ⟨code, hcode, -⟩ := hx store
  obtain ⟨store', hcontinued⟩ := hf code (store.skipIdentities count)
  refine ⟨store', ?_⟩
  simp only [Bind.bind, EStateM.bind, hcode, hcontinued]

mutual

theorem expandTemplate_incomplete :
    ∀ t : Value, Throughout Unmarked t → ¬ IsComplete t → GivesUp (expandTemplate t)
  | .list items metadata identity, hliteral, hincomplete => by
    obtain ⟨hroot, hitems⟩ := throughout_iff.mp hliteral
    have hlist : expandTemplate (.list items metadata identity) =
        expandItems false (.list items metadata identity) items := expandItems_list _ hroot.1
    rw [hlist]
    exact expandItems_incomplete false (.list items metadata identity) items hitems hincomplete
  | .vector items metadata identity, hliteral, hincomplete => by
    rw [expandTemplate]
    exact expandItems_incomplete false (.vector items metadata identity) items
      (throughout_iff.mp hliteral).2 hincomplete
  | .nil, _, h | .bool _, _, h | .int _, _, h | .str _, _, h | .symbol _, _, h | .keyword _, _, h
  | .table _ _, _, h | .atom _, _, h | .native _ _ _ _, _, h | .closure _ _ _ _ _ _, _, h
  | .error _ _, _, h => absurd trivial h
termination_by structural x => x

theorem expandItems_incomplete (behind : Bool) (empty : Value) :
    ∀ items : List Value, (∀ item ∈ items, Throughout Unmarked item) →
      ¬ AreComplete behind items → GivesUp (expandItems behind empty items)
  | [], _, h => absurd trivial h
  | item :: items, hliteral, hincomplete => by
    obtain ⟨hitem, hitems⟩ := List.forall_mem_cons.mp hliteral
    rw [AreComplete] at hincomplete
    rw [expandItems]
    split at hincomplete
    · next hunquote =>
      rw [if_pos hunquote]
      match items with
      | [] | _ :: _ :: _ => exact fun store => ⟨store, rfl⟩
      | [_] => exact absurd rfl hincomplete
    · next hplain =>
      rw [if_neg hplain, tailAfter_eq_none (throughout_iff.mp hitem).1.2]
      by_cases hfirst : IsComplete item
      · have hrest : ¬ AreComplete true items := fun h => hincomplete ⟨hfirst, h⟩
        have hothers := expandItems_incomplete true (.ofList []) items hitems hrest
        exact (expandTemplate_complete item hitem hfirst).givesUp_bind fun _ => hothers.bind _
      · exact (expandTemplate_incomplete item hitem hfirst).bind _
termination_by structural x => x

end

inductive TemplateValues (scope : Scope) : List Value → Store → List Value → Store → Prop where
  | nil (store : Store) : TemplateValues scope [] store [] store
  | cons {item v : Value} {items vs : List Value} {store store' store'' : Store}
      (hresolves : Resolves .cons scope store)
      (hitem : TemplateEnds scope item store (.ok v store')) (hv : v.isError = false)
      (hitems : TemplateValues scope items store' vs store'') :
      TemplateValues scope (item :: items) store (v :: vs) store''

theorem TemplateValues.itemsEnd (h : TemplateValues scope items store vs store')
    (hunquote : .symbol "unquote" ∉ items) :
    ∃ count identity, ItemsEnd scope true (.ofList []) items store
      (.ok (.list vs .nil identity) (store'.skipIdentities count)) := by
  induction h with
  | nil store => exact ⟨0, none, rfl⟩
  | @cons item _ items _ _ _ store'' hresolves hitem hv _ ih =>
    rw [List.mem_cons, not_or] at hunquote
    obtain ⟨hne, hrest⟩ := hunquote
    obtain ⟨count, identity, hitems⟩ := ih hrest
    have hplain : ¬ (true && item.isSymbolNamed "unquote") = true := fun hsymbol =>
      hne (isSymbolNamed_iff.mp hsymbol).symm
    rw [itemsEnd_of_plain hplain]
    exact ⟨count + 1, _, .cons hresolves hitem hv hitems rfl rfl⟩

/-- The first element is not asked whether it is an `unquote`. -/
theorem TemplateValues.sequenceEnd {empty : Value}
    (h : TemplateValues scope items store vs store') (hitems : items ≠ [])
    (hunquote : .symbol "unquote" ∉ items.tail) :
    ∃ count identity, ItemsEnd scope false empty items store
      (.ok (.list vs .nil identity) (store'.skipIdentities count)) := by
  cases h with
  | nil => exact absurd rfl hitems
  | cons hresolves hitem hv hrest =>
    obtain ⟨count, identity, hothers⟩ := hrest.itemsEnd hunquote
    rw [itemsEnd_of_plain (by simp)]
    exact ⟨count + 1, _, .cons hresolves hitem hv hothers rfl rfl⟩

/-- The second value is the first one where all sequences that are not empty have become lists. -/
inductive IsCopy : Value → Value → Prop where
  | itself {t : Value} (hitems : t.items = []) : IsCopy t t
  | sequence {t : Value} {vs : List Value} (identity : Option Identity) (hitems : t.items ≠ [])
      (h : List.Forall₂ IsCopy t.items vs) : IsCopy t (.list vs .nil identity)

theorem IsCopy.eq_of_no_items (h : IsCopy t v) (hitems : t.items = []) : v = t := by
  cases h with
  | itself => rfl
  | sequence _ hne => exact absurd hitems hne

theorem IsCopy.eq_list (h : IsCopy t v) (hitems : t.items ≠ []) :
    ∃ vs identity, v = .list vs .nil identity ∧ List.Forall₂ IsCopy t.items vs := by
  cases h with
  | itself hempty => exact absurd hempty hitems
  | sequence identity _ hcopies => exact ⟨_, identity, rfl, hcopies⟩

theorem templateEnds_of_items (h : t.items ≠ []) :
    TemplateEnds scope t = ItemsEnd scope false t t.items := by
  cases t with
  | list | vector => rfl
  | _ => exact absurd rfl h

theorem templateEnds_of_no_items (h : t.items = []) :
    TemplateEnds scope t store (.ok t store) := by
  match t with
  | .list [] _ _ | .vector [] _ _ => rfl
  | .nil | .bool _ | .int _ | .str _ | .symbol _ | .keyword _ | .table _ _ | .atom _
  | .native _ _ _ _ | .closure _ _ _ _ _ _ | .error _ _ => rfl

theorem areComplete_of_not_mem (hitems : ∀ item ∈ items, IsComplete item)
    (hunquote : .symbol "unquote" ∉ items) : AreComplete true items := by
  induction items with
  | nil => trivial
  | cons item items ih =>
    obtain ⟨hitem, hitems⟩ := List.forall_mem_cons.mp hitems
    rw [List.mem_cons, not_or] at hunquote
    have hplain : ¬ (true && item.isSymbolNamed "unquote") = true := fun hsymbol =>
      hunquote.1 (isSymbolNamed_iff.mp hsymbol).symm
    rw [AreComplete, if_neg hplain]
    exact ⟨hitem, ih hitems hunquote.2⟩

theorem areComplete_of_tail (hitems : ∀ item ∈ items, IsComplete item)
    (hunquote : .symbol "unquote" ∉ items.tail) : AreComplete false items := by
  cases items with
  | nil => trivial
  | cons item items =>
    obtain ⟨hitem, hitems⟩ := List.forall_mem_cons.mp hitems
    rw [AreComplete, if_neg (by simp)]
    exact ⟨hitem, areComplete_of_not_mem hitems hunquote⟩

theorem Throughout.isComplete (h : Throughout Straight t) : IsComplete t := by
  induction h with
  | @intro t root _ ih =>
    cases t with
    | list | vector => exact areComplete_of_tail ih root.2
    | _ => trivial

theorem exists_templateValues
    (h : ∀ item ∈ items, ∀ store : Store, Resolves .cons scope store →
      ∃ v count, IsCopy item v ∧ v.isError = false ∧
        TemplateEnds scope item store (.ok v (store.skipIdentities count)))
    (hcons : Resolves .cons scope store) :
    ∃ vs count, List.Forall₂ IsCopy items vs ∧
      TemplateValues scope items store vs (store.skipIdentities count) := by
  induction items generalizing store with
  | nil => exact ⟨[], 0, .nil, .nil store⟩
  | cons item items ih =>
    obtain ⟨hitem, hitems⟩ := List.forall_mem_cons.mp h
    obtain ⟨v, count, hcopy, hv, hends⟩ := hitem store hcons
    have hnext : Resolves .cons scope (store.skipIdentities count) := hcons
    obtain ⟨vs, others, hcopies, hvalues⟩ := ih hitems hnext
    rw [Store.skipIdentities_skipIdentities] at hvalues
    exact ⟨v :: vs, count + others, .cons hcopy hcopies, .cons hcons hends hv hvalues⟩

/-- Where `unquote` follows no element, nothing is evaluated. -/
theorem Throughout.exists_copy (h : Throughout Straight t) (hcons : Resolves .cons scope store) :
    ∃ v count, IsCopy t v ∧ v.isError = false ∧
      TemplateEnds scope t store (.ok v (store.skipIdentities count)) := by
  induction h generalizing store with
  | @intro t root _ ih =>
    by_cases hitems : t.items = []
    · exact ⟨t, 0, .itself hitems, root.1, templateEnds_of_no_items hitems⟩
    · obtain ⟨vs, count, hcopies, hvalues⟩ :=
        exists_templateValues (fun item hitem store hcons => ih item hitem hcons) hcons
      obtain ⟨others, identity, hends⟩ := hvalues.sequenceEnd hitems root.2
      rw [Store.skipIdentities_skipIdentities, ← templateEnds_of_items hitems] at hends
      exact ⟨_, _, .sequence identity hitems hcopies, rfl, hends⟩

/-! ## Evaluation -/

/-- A template ends as its code does, after as many identities as the code has lists. -/
theorem Builds.template_ends
    {final : Scope → Store → EStateM.Result Failure Store Value → Prop}
    (h : Builds (expandTemplate t) final) :
    ∃ count, ∀ result, final scope (store.skipIdentities count) result →
      (Task.evaluate (.list [.symbol "quasiquote", t] metadata identity) scope).Ends store
        result := by
  obtain ⟨count, hbuilds⟩ := h
  obtain ⟨code, hcode, hends⟩ := hbuilds store
  exact ⟨count, fun result h => (HandsOn.template hcode).tailReaches.ends_iff.mpr
    (hends scope _ result h)⟩

theorem GivesUp.template_ends (h : GivesUp (expandTemplate t)) :
    ∃ store', (Task.evaluate (.list [.symbol "quasiquote", t] metadata identity) scope).Ends store
      (.ok (.error "unquote expects exactly 1 argument" none) store') := by
  obtain ⟨store', hfault⟩ := h store
  have hquasiquote : specialForm? (.symbol "quasiquote") = some .quasiquote := by decide
  have hsettled : settledEnd (.error (.fault (.count (.oneForm "unquote"))) store') =
      .ok (.error "unquote expects exactly 1 argument" none) store' := rfl
  refine ⟨store', ?_⟩
  rw [← hsettled]
  refine ends_special hquasiquote (ends_of_eq id fun limits => ?_)
  simp only [SpecialForm.evaluate, onlyForm, EvalM.ofFault, pure_bind]
  simp only [Bind.bind, EStateM.bind, hfault]
  rfl

/-- A vector without marks stands for the list of what its elements stand for, if `unquote` follows
none of them: for a list of copies if it follows no element at any depth. In general, an `unquote`
behind an element takes the value of the one form behind it for the rest of the list, and is an
error if there is not exactly one. -/
theorem vector_template_ends {templateMetadata : Value} {templateIdentity : Option Identity}
    (hitems : items ≠ []) (hliteral : ∀ item ∈ items, Throughout Unmarked item)
    (hcons : Resolves .cons scope store) :
    let t := Value.vector items templateMetadata templateIdentity
    let task := Task.evaluate (.list [.symbol "quasiquote", t] metadata identity) scope
    (Throughout Straight t → ∃ vs count identity', List.Forall₂ IsCopy items vs ∧
      task.Ends store (.ok (.list vs .nil identity') (store.skipIdentities count))) ∧
    (.symbol "unquote" ∉ items.tail → (∀ item ∈ items, IsComplete item) →
      ∃ count, ∀ vs store', TemplateValues scope items (store.skipIdentities count) vs store' →
        ∃ others identity',
          task.Ends store (.ok (.list vs .nil identity') (store'.skipIdentities others))) ∧
    (IsComplete t → ∃ count, ∀ result, TemplateEnds scope t (store.skipIdentities count) result →
      task.Ends store result) ∧
    (¬ IsComplete t → ∃ store',
      task.Ends store (.ok (.error "unquote expects exactly 1 argument" none) store')) := by
  intro t task
  have hcomplete : IsComplete t → ∃ count, ∀ result,
      TemplateEnds scope t (store.skipIdentities count) result → task.Ends store result := by
    intro h
    have hbuilds : Builds (expandTemplate t) (TemplateEnds · t) :=
      expandItems_complete false t items hliteral h
    exact hbuilds.template_ends
  refine ⟨fun hstraight => ?_, fun hunquote hall => ?_, hcomplete, fun hincomplete => ?_⟩
  · obtain ⟨count, hends⟩ := hcomplete hstraight.isComplete
    have hnext : Resolves .cons scope (store.skipIdentities count) := hcons
    obtain ⟨v, others, hcopy, -, hvalue⟩ := hstraight.exists_copy hnext
    rw [Store.skipIdentities_skipIdentities] at hvalue
    obtain ⟨vs, identity', rfl, hcopies⟩ := hcopy.eq_list hitems
    exact ⟨vs, _, identity', hcopies, hends _ hvalue⟩
  · obtain ⟨count, hends⟩ := hcomplete (areComplete_of_tail hall hunquote)
    refine ⟨count, fun vs store' hvalues => ?_⟩
    obtain ⟨others, identity', hvalue⟩ := hvalues.sequenceEnd hitems hunquote
    exact ⟨others, identity', hends _ hvalue⟩
  · have hgivesUp : GivesUp (expandTemplate t) :=
      expandItems_incomplete false t items hliteral hincomplete
    exact hgivesUp.template_ends

/-- Both symbols are literal, in a vector and in a vector that is its element. -/
theorem vector_template_ends_nested :
    let items := [.symbol "unquote", .ofVector [.int 1, .symbol "splice-unquote"]]
    ∃ session store,
      Session.start (Limits.runner ⟨9, 9⟩) [] [] true (.initial .empty "" 0) = .ok session store ∧
      items ≠ [] ∧ (∀ item ∈ items, Throughout Unmarked item) ∧
      Resolves .cons session.scope store ∧ Throughout Straight (.ofVector items) ∧
      ∃ count identity identity',
        (Task.evaluate (.ofList [.symbol "quasiquote", .ofVector items]) session.scope).Ends store
          (.ok (.list [.symbol "unquote", .list [.int 1, .symbol "splice-unquote"] .nil identity]
            .nil identity') (store.skipIdentities count)) := by
  intro items
  obtain ⟨session, store, home, counter, hstart, hscope, -, hor, -⟩ := exists_start_bundled
  have hcons : Resolves .cons session.scope store :=
    hscope ▸ hor.offers (.collection .cons) (by decide)
  have hparts : ∀ p : Value → Prop, p (.symbol "unquote") → p (.int 1) →
      p (.symbol "splice-unquote") → p (.ofVector [.int 1, .symbol "splice-unquote"]) →
      ∀ item ∈ items, Throughout p item := by
    intro p hunquote hint hsplice hvector
    have hinner : ∀ item ∈ [.int 1, .symbol "splice-unquote"], Throughout p item :=
      List.forall_mem_cons.mpr ⟨throughout_of_no_items hint rfl,
        List.forall_mem_singleton.mpr (throughout_of_no_items hsplice rfl)⟩
    exact List.forall_mem_cons.mpr ⟨throughout_of_no_items hunquote rfl,
      List.forall_mem_singleton.mpr (.intro hvector hinner)⟩
  have hliteral : ∀ item ∈ items, Throughout Unmarked item := by
    apply hparts Unmarked <;> simp [Unmarked, Value.items, Value.ofVector]
  have hstraight : Throughout Straight (.ofVector items) := by
    refine .intro ?_ (hparts Straight ?_ ?_ ?_ ?_) <;>
      simp [Straight, items, Value.items, Value.ofVector, Value.isError]
  have hends : ∃ vs count identity', List.Forall₂ IsCopy items vs ∧
      (Task.evaluate (.ofList [.symbol "quasiquote", .ofVector items]) session.scope).Ends store
        (.ok (.list vs .nil identity') (store.skipIdentities count)) :=
    (vector_template_ends (List.cons_ne_nil _ _) hliteral hcons).1 hstraight
  obtain ⟨_, count, identity', hcopies, hends⟩ := hends
  obtain ⟨_, _, hsymbol, hothers, rfl⟩ := List.forall₂_cons_left_iff.mp hcopies
  obtain ⟨_, _, hvector, ⟨⟩, rfl⟩ := List.forall₂_cons_left_iff.mp hothers
  obtain ⟨_, identity, rfl, hinner⟩ := hvector.eq_list (List.cons_ne_nil _ _)
  obtain ⟨_, _, hint, hlast, rfl⟩ := List.forall₂_cons_left_iff.mp hinner
  obtain ⟨_, _, hsplice, ⟨⟩, rfl⟩ := List.forall₂_cons_left_iff.mp hlast
  cases hsymbol.eq_of_no_items rfl
  cases hint.eq_of_no_items rfl
  cases hsplice.eq_of_no_items rfl
  exact ⟨session, store, hstart, List.cons_ne_nil _ _, hliteral, hcons, hstraight, count, identity,
    identity', hends⟩

/-- The second element is taken for a mark, and the third one for its form. -/
theorem Session.vector_unquotes :
    ∃ session store, Session.start (Limits.runner ⟨19, 19⟩) [] [] true (.initial .empty "" 0) =
        .ok session store ∧
      ∃ store', session.answer "(quasiquote [1 unquote (list 2)])" store = .ok "(1 2)" store' := by
  refine ⟨_, _, start_bundled rfl rfl rfl, ?_⟩
  decide +kernel

end SmallLisp
