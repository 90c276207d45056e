import SmallLisp.Proofs.Answers
import SmallLisp.Proofs.NameGeneration
import SmallLisp.Proofs.Moments
import SmallLisp.Proofs.TailLoops

/-! # Alternatives

A call of `or` on several forms is expanded to a scope in which a generated name is bound to the
value of the first form, and in which the call with the other forms follows if that value does not
hold. So each form is evaluated in a scope inside those of the forms before it.
-/
namespace SmallLisp

variable {scope scope' : Scope} {home : FrameId} {counter : CellId}
  {store store' store'' built : Store} {name : String} {form item metadata v : Value}
  {identity : Option Identity} {forms forms' rest items vs : List Value}
  {result : EStateM.Result Failure Store Value} {arrival : Arrival}

structure Store.Templating (store : Store) (scope : Scope) (name : String) (forms : List Value) :
    Prop where
  cons : Resolves .cons scope store
  concat : Resolves .concat scope store
  first : store.Offers scope (.collection .first)
  rest : store.Offers scope (.collection .rest)
  condvar : store.lookup? scope "condvar" = some (.symbol name)
  forms : ∃ metadata identity, store.lookup? scope "xs" = some (.list forms metadata identity)

/-- Code that binds the value of the first form to the name, and goes on with the others if that
does not hold. Its lists may be any. -/
inductive BindsFirst (name : String) (form : Value) (rest : List Value) : Value → Prop where
  | intro (binding others branch whole : Option Identity) : BindsFirst name form rest
      (.list [.symbol "let*", .list [.symbol name, form] .nil binding,
        .list [.symbol "if", .symbol name, .symbol name, .list (.symbol "or" :: rest) .nil others]
          .nil branch] .nil whole)

theorem Store.Templating.skip (h : store.Templating scope name forms) (count : Nat) :
    (store.skipIdentities count).Templating scope name forms :=
  ⟨h.cons, h.concat, h.first, h.rest, h.condvar, h.forms⟩

theorem Instances.element {listMetadata : Value} {listIdentity : Option Identity}
    (hcons : Resolves .cons scope store) (hmarked : ¬ item.IsMarked "splice-unquote")
    (hitem : Instance scope item store (.ok v store')) (hv : v.isError = false)
    (hitems : Instances scope items store' (.ok (.list vs listMetadata listIdentity) store'')) :
    Instances scope (item :: items) store
      (.ok (.list (v :: vs) .nil (some store''.heap.nextIdentity)) store''.skipIdentity) :=
  .cons hcons (.element hmarked hitem) hv rfl hitems

theorem Instances.symbol {listMetadata : Value} {listIdentity : Option Identity} (name : String)
    (hcons : Resolves .cons scope store)
    (hitems : Instances scope items store (.ok (.list vs listMetadata listIdentity) store'')) :
    Instances scope (.symbol name :: items) store
      (.ok (.list (.symbol name :: vs) .nil (some store''.heap.nextIdentity))
        store''.skipIdentity) :=
  .element hcons nofun (.itself rfl) rfl hitems

theorem not_isMarked_of_head {head : Value} {tail : List Value} (h : head ≠ .symbol name) :
    ¬ (Value.ofList (head :: tail)).IsMarked name := by
  rintro ⟨form, metadata, identity, heq⟩
  cases heq
  exact h rfl

theorem not_isMarked_unquoted (form : Value) : ¬ (unquoted form).IsMarked "splice-unquote" :=
  not_isMarked_of_head (by simp)

theorem Store.Templating.instance_name (h : store.Templating scope name forms) :
    Instance scope (unquoted (.symbol "condvar")) store (.ok (.symbol name) store) :=
  .unquoted (ends_symbol h.condvar)

theorem Store.Templating.instance_binding (h : store.Templating scope name (form :: rest))
    (hform : form.isError = false) :
    ∃ identity, Instance scope orBinding store
      (.ok (.list [.symbol name, form] .nil identity) (store.skipIdentities 2)) := by
  obtain ⟨_, _, hforms⟩ := h.forms
  have hfirst : Instance scope (unquoted (.ofList [.symbol "first", .symbol "xs"])) store
      (.ok form store) := .unquoted (ends_first h.first (ends_symbol hforms))
  have hlast := Instances.element h.cons (not_isMarked_unquoted _) hfirst hform .nil
  have hall := Instances.element h.cons (not_isMarked_unquoted _) h.instance_name rfl hlast
  have hmarked : ¬ orBinding.IsMarked "unquote" :=
    not_isMarked_of_head (by simp [unquoted, Value.ofList])
  exact ⟨_, .sequence (List.cons_ne_nil _ _) hmarked hall⟩

theorem Store.Templating.instance_others (h : store.Templating scope name (form :: rest)) :
    ∃ identity, Instance scope orOthers store
      (.ok (.list (.symbol "or" :: rest) .nil identity) (store.skipIdentities 3)) := by
  obtain ⟨_, _, hforms⟩ := h.forms
  have hrest : (Task.evaluate (.ofList [.symbol "rest", .symbol "xs"]) scope).Ends store _ :=
    ends_rest h.rest (ends_symbol hforms)
  have hspliced : Instances scope
      [.ofList [.symbol "splice-unquote", .ofList [.symbol "rest", .symbol "xs"]]] store _ :=
    .cons h.concat (.spliced hrest) rfl rfl .nil
  rw [List.append_nil] at hspliced
  exact ⟨_, .sequence (List.cons_ne_nil _ _) (not_isMarked_of_head (by simp))
    (.symbol "or" h.cons hspliced)⟩

/-- The name stands in three places, the first form in one and the other forms in one. -/
theorem Store.Templating.instance_template (h : store.Templating scope name (form :: rest))
    (hform : form.isError = false) :
    ∃ code, BindsFirst name form rest code ∧
      Instance scope orTemplate store (.ok code (store.skipIdentities 12)) := by
  have hskipped := h.skip 2
  obtain ⟨binding, hbinding⟩ := h.instance_binding hform
  obtain ⟨others, hothers⟩ := hskipped.instance_others
  have hlast := Instances.element hskipped.cons (not_isMarked_of_head (by simp)) hothers rfl .nil
  have hsecond := Instances.element hskipped.cons (not_isMarked_unquoted _) hskipped.instance_name
    rfl hlast
  have hfirst := Instances.element hskipped.cons (not_isMarked_unquoted _) hskipped.instance_name
    rfl hsecond
  have hbranch : Instance scope (.ofList [.symbol "if", unquoted (.symbol "condvar"),
      unquoted (.symbol "condvar"), orOthers]) (store.skipIdentities 2) _ :=
    .sequence (List.cons_ne_nil _ _) (not_isMarked_of_head (by simp))
      (.symbol "if" hskipped.cons hfirst)
  have hbody := Instances.element hskipped.cons (not_isMarked_of_head (by simp)) hbranch rfl .nil
  have hparts := Instances.element h.cons
    (not_isMarked_of_head (by simp [unquoted, Value.ofList])) hbinding rfl hbody
  exact ⟨_, .intro binding others _ _,
    .sequence (List.cons_ne_nil _ _) (not_isMarked_of_head (by simp))
      (.symbol "let*" h.cons hparts)⟩

theorem isTemplate_orTemplate : IsTemplate orTemplate := by
  simp [IsTemplate, AreParts, orTemplate, orBinding, orOthers, unquoted, Value.ofList,
    Value.IsMarked]

/-- The code of the template has 18 lists. -/
theorem ends_quasiquoted (h : Instance scope orTemplate (store.skipIdentities 18) result) :
    (Task.evaluate (.list [.symbol "quasiquote", orTemplate] metadata identity) scope).Ends store
      result := by
  obtain ⟨count, hbuilds⟩ := expandTemplate_builds orTemplate isTemplate_orTemplate
  have hcount : count = 18 := by
    obtain ⟨code, hcode, -⟩ := hbuilds (.initial .empty "" 0)
    have hsome : ∃ code store', expandTemplate orTemplate (.initial .empty "" 0) =
        .ok code store' ∧ store'.heap.nextIdentity = 18 := ⟨_, _, rfl, rfl⟩
    obtain ⟨_, _, hsame, hlists⟩ := hsome
    cases hcode.symm.trans hsame
    exact (Nat.zero_add count).symm.trans hlists
  subst hcount
  obtain ⟨code, hcode, hends⟩ := hbuilds store
  exact (HandsOn.template hcode).tailReaches.ends_iff.mpr (hends scope _ result h)

theorem Store.Templating.ends (h : store.Templating scope name (form :: rest))
    (hform : form.isError = false) :
    ∃ code, BindsFirst name form rest code ∧
      (Task.evaluate (.ofList [.symbol "quasiquote", orTemplate]) scope).Ends store
        (.ok code (store.skipIdentities 30)) := by
  obtain ⟨code, hcode, hinstance⟩ := (h.skip 18).instance_template hform
  exact ⟨code, hcode, ends_quasiquoted hinstance⟩

/-! ## The expander -/

abbrev Store.generatingScope (store : Store) (home : FrameId) (forms : List Value) : Scope :=
  (store.expanderScope home).nest (store.expanding forms).nextFrame

def Store.generating (store : Store) (forms : List Value) : Store :=
  (store.expanding forms).addFrame []

/-- The expander has been given a name for the value of the first form, and this is the store in
which the code that it has made is evaluated. -/
def Named (counter : CellId) (forms : List Value) (store : Store) (name : String)
    (built : Store) : Prop :=
  ∃ generated, generatorEnd counter (store.generating forms) = .ok (.symbol name) generated ∧
    built = (generated.define (store.expanding forms).nextFrame "condvar"
      (.symbol name)).skipIdentities 30

theorem Store.lookup?_generating (hscope : scope.IsIn store) (forms : List Value)
    (name : String) : (store.generating forms).lookup? scope name = store.lookup? scope name := by
  have hsame : scope.IsIn store.skipIdentity := hscope
  have hexpanding : scope.IsIn (store.expanding forms) := hsame.addFrame _
  rw [Store.generating, Store.lookup?_addFrame hexpanding, Store.expanding,
    Store.lookup?_addFrame hsame]
  rfl

section Expander

variable (h : store.HasAlternatives scope home counter)
include h

theorem Store.HasAlternatives.home_isIn : (Scope.global home).IsIn store :=
  (h.offers (.collection .count) (by decide)).isIn

/-- No form: the expander goes on with `nil`. Otherwise, it asks whether there is only one. -/
theorem Store.HasAlternatives.tailReaches_isEmpty (forms : List Value) :
    (⟨orBody, store.expanderScope home, store.expanding forms⟩ : Pending).TailReaches
      ⟨if forms.isEmpty then .nil else orSome, store.expanderScope home,
        store.expanding forms⟩ := by
  have hempty : (Task.evaluate (.ofList [.symbol "empty?", .symbol "xs"])
      (store.expanderScope home)).Ends (store.expanding forms)
      (.ok (.bool forms.isEmpty) (store.expanding forms)) :=
    ((h.offers (.collection .isEmpty) (by decide)).expanding forms).ends
      (.cons (ends_forms h.home_isIn forms) rfl (.nil _)) fun _ _ => rfl
  cases forms with
  | nil => exact tailReaches_consequence (Nat.le_refl 1) hempty rfl rfl
  | cons form rest => exact tailReaches_alternative hempty rfl rfl

theorem Store.HasAlternatives.tailReaches_isSingle (forms : List Value) :
    (⟨orSome, store.expanderScope home, store.expanding forms⟩ : Pending).TailReaches
      ⟨if forms.length = 1 then .ofList [.symbol "first", .symbol "xs"] else orSeveral,
        store.expanderScope home, store.expanding forms⟩ := by
  have hcount : (Task.evaluate (.ofList [.symbol "count", .symbol "xs"])
      (store.expanderScope home)).Ends (store.expanding forms)
      (.ok (.int forms.length) (store.expanding forms)) :=
    ends_count ((h.offers (.collection .count) (by decide)).expanding forms)
      (ends_forms h.home_isIn forms)
  have hsingle : (Task.evaluate (.ofList [.symbol "=", .int 1,
      .ofList [.symbol "count", .symbol "xs"]]) (store.expanderScope home)).Ends
      (store.expanding forms)
      (.ok (.bool ((1 : Int) == forms.length)) (store.expanding forms)) :=
    ((h.offers (.collection .equal) (by decide)).expanding forms).ends
      (.cons (ends_constant rfl) rfl (.cons hcount rfl (.nil _)))
      fun run home => apply_equal 1 forms.length run home _
  by_cases hlength : forms.length = 1
  · rw [if_pos hlength]
    exact tailReaches_consequence (Nat.le_refl 1) hsingle rfl (by simp [hlength, Value.isTruthy])
  · rw [if_neg hlength]
    have hfalse : ((1 : Int) == forms.length) = false := by
      rw [beq_eq_false_iff_ne]
      omega
    exact tailReaches_alternative hsingle rfl (by rw [hfalse]; rfl)

theorem Store.HasAlternatives.ends_none :
    (Task.evaluate orBody (store.expanderScope home)).Ends (store.expanding [])
      (.ok .nil (store.expanding [])) :=
  (h.tailReaches_isEmpty []).ends_iff.mpr (ends_constant rfl)

/-- A single form takes the place of the call. -/
theorem Store.HasAlternatives.ends_single (form : Value) :
    (Task.evaluate orBody (store.expanderScope home)).Ends (store.expanding [form])
      (.ok form (store.expanding [form])) := by
  have hfirst : (Task.evaluate (.ofList [.symbol "first", .symbol "xs"])
      (store.expanderScope home)).Ends (store.expanding [form])
      (.ok form (store.expanding [form])) :=
    ends_first ((h.offers (.collection .first) (by decide)).expanding [form])
      (ends_forms h.home_isIn [form])
  exact (h.tailReaches_isEmpty [form]).ends_iff.mpr
    ((h.tailReaches_isSingle [form]).ends_iff.mpr hfirst)

/-- Several forms need a name. -/
theorem Store.HasAlternatives.tailReaches_several (hrest : rest ≠ []) (form : Value) :
    (⟨orBody, store.expanderScope home, store.expanding (form :: rest)⟩ : Pending).TailReaches
      ⟨orSeveral, store.expanderScope home, store.expanding (form :: rest)⟩ := by
  have hlength : ¬ (form :: rest).length = 1 := by
    rw [List.length_cons, Nat.succ_inj, List.length_eq_zero_iff]
    exact hrest
  have hsingle := h.tailReaches_isSingle (form :: rest)
  rw [if_neg hlength] at hsingle
  exact Relation.ReflTransGen.trans (h.tailReaches_isEmpty (form :: rest)) hsingle

theorem Store.HasAlternatives.lookup?_generatingScope (forms : List Value) (name : String) :
    (store.generating forms).lookup? (store.generatingScope home forms) name =
      (Frame.find? name [("xs", .list forms .nil (some store.heap.nextIdentity))]).or
        (store.lookup? (.global home) name) := by
  have hexpander : (store.expanderScope home).IsIn (store.expanding forms) := h.home_isIn.nest _
  rw [Store.generating, Store.lookup?_nest hexpander, Frame.find?, Option.none_or,
    Store.lookup?_expanding h.home_isIn]

theorem Store.HasAlternatives.ends_generating (forms : List Value) :
    (Task.evaluate (.ofList [.symbol "gensym"]) (store.generatingScope home forms)).Ends
      (store.generating forms) (generatorEnd counter (store.generating forms)) := by
  have hgenerator : (store.generating forms).HasGenerator home counter :=
    h.toHasGenerator.of_lookup (Store.lookup?_generating h.home_isIn forms)
  obtain ⟨id, m, hlookup⟩ := h.generator
  have hvisible : (store.generating forms).lookup? (store.generatingScope home forms) "gensym" =
      some (.closure id ⟨[], none⟩ generatorBody (.global home) false m) :=
    (h.lookup?_generatingScope forms "gensym").trans hlookup
  exact ends_application (ordinary_symbol (by decide) hvisible rfl)
    (.cons (ends_symbol hvisible) rfl (.nil _)) rfl hgenerator.ends

/-- With a name, the expander makes the code that binds it. -/
theorem Store.HasAlternatives.ends_named (hrest : rest ≠ []) (hform : form.isError = false)
    (hnamed : Named counter (form :: rest) store name built) :
    ∃ code, BindsFirst name form rest code ∧
      (Task.evaluate orBody (store.expanderScope home)).Ends (store.expanding (form :: rest))
        (.ok code built) := by
  obtain ⟨generated, hend, rfl⟩ := hnamed
  have hexpander : (store.expanderScope home).IsIn (store.expanding (form :: rest)) :=
    h.home_isIn.nest _
  have hinner := hexpander.nest []
  have hlookup : ∀ other, other ≠ "condvar" →
      (generated.define (store.expanding (form :: rest)).nextFrame "condvar" (.symbol name)).lookup?
        (store.generatingScope home (form :: rest)) other =
        (Frame.find? other [("xs", .list (form :: rest) .nil (some store.heap.nextIdentity))]).or
          (store.lookup? (.global home) other) := by
    intro other hother
    rw [Store.lookup?_define_of_ne hother, generatorEnd_lookup? hend hinner,
      h.lookup?_generatingScope]
  have hoffers : ∀ op ∈ orBuiltins, (generated.define (store.expanding (form :: rest)).nextFrame
      "condvar" (.symbol name)).Offers (store.generatingScope home (form :: rest)) op := by
    intro op hop
    have hname : ∀ op ∈ orBuiltins, op.name ≠ "condvar" := by decide
    rw [Store.Offers, hlookup op.name (hname op hop), Frame.find?, if_neg (name_ne_xs op),
      Frame.find?, Option.none_or]
    exact h.offers op hop
  have htemplating : (generated.define (store.expanding (form :: rest)).nextFrame "condvar"
      (.symbol name)).Templating (store.generatingScope home (form :: rest)) name
      (form :: rest) := by
    refine ⟨hoffers (.collection .cons) (by decide), hoffers (.collection .concat) (by decide),
      hoffers (.collection .first) (by decide), hoffers (.collection .rest) (by decide), ?_, ?_⟩
    · exact Store.lookup?_define_self (hinner.of_le (generatorEnd_nextFrame_le hend)) _
    · exact ⟨_, _, hlookup "xs" (by decide)⟩
  obtain ⟨code, hcode, htemplate⟩ := htemplating.ends hform
  have hgenerated := h.ends_generating (form :: rest)
  rw [hend] at hgenerated
  refine ⟨code, hcode, (h.tailReaches_several hrest form).ends_iff.mpr ?_⟩
  exact (tailReaches_letIn hgenerated rfl).ends_iff.mpr htemplate

/-- Without a name, the expander ends as the generator does. -/
theorem Store.HasAlternatives.ends_unnamed (hrest : rest ≠ []) (form : Value)
    (hstops : Stops (generatorEnd counter (store.generating (form :: rest)))) :
    (Task.evaluate orBody (store.expanderScope home)).Ends (store.expanding (form :: rest))
      (generatorEnd counter (store.generating (form :: rest))) := by
  refine (h.tailReaches_several hrest form).ends_iff.mpr ?_
  rw [← settledEnd_of_stops hstops]
  exact ends_letIn_of_fails (h.ends_generating (form :: rest)) hstops.isError _

end Expander

/-! ## Rounds -/

/-- The forms that come first have been evaluated, each in a scope inside that of the one before,
and their values have been bound to generated names there. None of them held. -/
inductive AlternativesPassed (counter : CellId) :
    Scope → List Value → Store → Scope → List Value → Store → Prop where
  | refl (scope : Scope) (forms : List Value) (store : Store) :
      AlternativesPassed counter scope forms store scope forms store
  | step {scope scope' : Scope} {form v : Value} {rest forms' : List Value} {name : String}
      {store built store' store'' : Store} (hmore : rest ≠ [])
      (hnamed : Named counter (form :: rest) store name built)
      (hform : (Task.evaluate form (scope.nest built.nextFrame)).Ends (built.addFrame [])
        (.ok v store'))
      (hv : v.isError = false) (hfalse : v.isTruthy = false)
      (hrest : AlternativesPassed counter (scope.nest built.nextFrame) rest
        (store'.define built.nextFrame name v) scope' forms' store'') :
      AlternativesPassed counter scope (form :: rest) store scope' forms' store''

inductive AlternativeArrives (counter : CellId) (scope : Scope) :
    List Value → Store → Arrival → Prop where
  | none (store : Store) :
      AlternativeArrives counter scope [] store (.final (.ok .nil (store.expanding [])))
  | last (form : Value) (store : Store) :
      AlternativeArrives counter scope [form] store (.tail ⟨form, scope, store.expanding [form]⟩)
  | unnamed {form : Value} {rest : List Value} {store : Store} (hmore : rest ≠ [])
      (hstops : Stops (generatorEnd counter (store.generating (form :: rest)))) :
      AlternativeArrives counter scope (form :: rest) store
        (.final (generatorEnd counter (store.generating (form :: rest))))
  | failed {form : Value} {rest : List Value} {name : String} {store built : Store}
      {result : EStateM.Result Failure Store Value} (hmore : rest ≠ [])
      (hnamed : Named counter (form :: rest) store name built)
      (hform : (Task.evaluate form (scope.nest built.nextFrame)).Ends (built.addFrame []) result)
      (hfails : Fails result) :
      AlternativeArrives counter scope (form :: rest) store (.final (settledEnd result))
  | selected {form v : Value} {rest : List Value} {name : String} {store built store' : Store}
      (hmore : rest ≠ []) (hnamed : Named counter (form :: rest) store name built)
      (hform : (Task.evaluate form (scope.nest built.nextFrame)).Ends (built.addFrame [])
        (.ok v store'))
      (hv : v.isError = false) (htrue : v.isTruthy = true) :
      AlternativeArrives counter scope (form :: rest) store
        (.final (.ok v (store'.define built.nextFrame name v)))

theorem or_not_special : SpecialForm.ofName? "or" = none := by decide

theorem ends_bound (name : String)
    (hvalue : (Task.evaluate form (scope.nest built.nextFrame)).Ends (built.addFrame [])
      (.ok v store')) :
    (Task.evaluate (.symbol name) (scope.nest built.nextFrame)).Ends
      (store'.define built.nextFrame name v) (.ok v (store'.define built.nextFrame name v)) := by
  have hhere : (scope.nest built.nextFrame).here < store'.nextFrame := by
    have hle := hvalue.nextFrame_le
    rw [Store.nextFrame_addFrame] at hle
    exact hle
  exact ends_symbol (Store.lookup?_define_here hhere v)

section Round

variable (h : store.HasAlternatives scope home counter) (hmore : rest ≠ [])
include h hmore

/-- The first of several forms comes to a binding in the store that has been built. -/
theorem Store.HasAlternatives.tailReaches_binding (hform : form.isError = false)
    (hnamed : Named counter (form :: rest) store name built) :
    ∃ code, BindsFirst name form rest code ∧
      (⟨.list (.symbol "or" :: form :: rest) metadata identity, scope, store⟩ :
        Pending).TailReaches ⟨code, scope, built⟩ := by
  obtain ⟨code, hcode, hends⟩ := h.ends_named hmore hform hnamed
  have hvalue : code.isError = false := by
    cases hcode
    rfl
  exact ⟨code, hcode, h.expands.handsOn or_not_special hends hvalue⟩

/-- The value of the form is bound to the name, and decides which of the two comes next. -/
theorem Store.HasAlternatives.tailReaches_choice (hform : form.isError = false)
    (hnamed : Named counter (form :: rest) store name built)
    (hvalue : (Task.evaluate form (scope.nest built.nextFrame)).Ends (built.addFrame [])
      (.ok v store')) (hv : v.isError = false) (metadata : Value) (identity : Option Identity) :
    ∃ others : Option Identity,
      (⟨.list (.symbol "or" :: form :: rest) metadata identity, scope, store⟩ :
        Pending).TailReaches
        ⟨if v.isTruthy then .symbol name else .list (.symbol "or" :: rest) .nil others,
          scope.nest built.nextFrame, store'.define built.nextFrame name v⟩ := by
  obtain ⟨_, ⟨_, others, _, _⟩, hbinding⟩ := h.tailReaches_binding hmore hform hnamed
  have hbound := hbinding.trans (tailReaches_letIn hvalue hv)
  have hname := ends_bound name hvalue
  refine ⟨others, ?_⟩
  cases htruthy : v.isTruthy with
  | true => exact hbound.trans (tailReaches_consequence (Nat.le_refl 1) hname hv htruthy)
  | false => exact hbound.trans (tailReaches_alternative hname hv htruthy)

end Round

theorem Store.HasAlternatives.arrivesAt (h : store.HasAlternatives scope home counter)
    (hforms : ∀ form ∈ forms, form.isError = false)
    (harrives : AlternativeArrives counter scope forms store arrival) :
    (⟨.list (.symbol "or" :: forms) metadata identity, scope, store⟩ : Pending).ArrivesAt
      arrival := by
  cases harrives with
  | none =>
    have hnil : (Task.evaluate .nil scope).Ends (store.expanding [])
        (.ok .nil (store.expanding [])) := ends_constant rfl
    exact (h.expands.handsOn or_not_special h.ends_none rfl).ends_iff.mpr hnil
  | last form =>
    exact h.expands.handsOn or_not_special (h.ends_single form)
      (hforms form (List.mem_singleton_self form))
  | unnamed hmore hstops =>
    exact h.expands.ends_of_fails or_not_special (h.ends_unnamed hmore _ hstops) hstops.isError
  | failed hmore hnamed hform hfails =>
    have hfirst := hforms _ List.mem_cons_self
    obtain ⟨_, ⟨⟩, hbinding⟩ := h.tailReaches_binding hmore hfirst hnamed
    exact hbinding.ends_iff.mpr (ends_letIn_of_fails hform hfails _)
  | selected hmore hnamed hform hv htrue =>
    have hfirst := hforms _ List.mem_cons_self
    obtain ⟨_, hchoice⟩ := h.tailReaches_choice hmore hfirst hnamed hform hv metadata identity
    rw [if_pos htrue] at hchoice
    exact hchoice.ends_iff.mpr (ends_bound _ hform)

theorem AlternativesPassed.tailReaches
    (h : AlternativesPassed counter scope forms store scope' forms' store')
    (hforms : ∀ form ∈ forms, form.isError = false)
    (hor : ∀ scope' forms' store', AlternativesPassed counter scope forms store scope' forms'
      store' → store'.HasAlternatives scope' home counter)
    (metadata : Value) (identity : Option Identity) :
    ∃ metadata' identity', (⟨.list (.symbol "or" :: forms) metadata identity, scope, store⟩ :
      Pending).TailReaches ⟨.list (.symbol "or" :: forms') metadata' identity', scope', store'⟩ ∧
      ∀ form ∈ forms', form.isError = false := by
  induction h generalizing metadata identity with
  | refl => exact ⟨metadata, identity, .refl, hforms⟩
  | step hmore hnamed hform hv hfalse _ ih =>
    obtain ⟨hfirst, hrest⟩ := List.forall_mem_cons.mp hforms
    have hnow := hor _ _ _ (.refl _ _ _)
    obtain ⟨others, hchoice⟩ := hnow.tailReaches_choice hmore hfirst hnamed hform hv metadata
      identity
    rw [if_neg (Bool.eq_false_iff.mp hfalse)] at hchoice
    obtain ⟨_, _, hothers, hforms'⟩ := ih hrest
      (fun _ _ _ hpassed => hor _ _ _ (.step hmore hnamed hform hv hfalse hpassed)) .nil others
    exact ⟨_, _, hchoice.trans hothers, hforms'⟩

/-- A call that has an end gets somewhere by way of one of its forms. -/
theorem exists_alternativeArrives :
    ∀ {forms : List Value} {scope : Scope} {store : Store} {metadata : Value}
      {identity : Option Identity}, (∀ form ∈ forms, form.isError = false) →
      (∀ scope' forms' store', AlternativesPassed counter scope forms store scope' forms' store' →
        store'.HasAlternatives scope' home counter) →
      (⟨.list (.symbol "or" :: forms) metadata identity, scope, store⟩ : Pending).Ends result →
      ∃ scope' forms' store' arrival,
        AlternativesPassed counter scope forms store scope' forms' store' ∧
        AlternativeArrives counter scope' forms' store' arrival
  | [], _, store, _, _, _, _, _ => ⟨_, _, _, _, .refl _ _ _, .none store⟩
  | [form], _, store, _, _, _, _, _ => ⟨_, _, _, _, .refl _ _ _, .last form store⟩
  | form :: next :: rest, scope, store, metadata, identity, hforms, hor, hends => by
    obtain ⟨hfirst, hrest⟩ := List.forall_mem_cons.mp hforms
    have hmore : next :: rest ≠ [] := List.cons_ne_nil _ _
    have hnow := hor _ _ _ (.refl _ _ _)
    rcases generatorEnd_cases counter (store.generating (form :: next :: rest)) with
      ⟨name, generated, hend⟩ | hstops
    · have hnamed : Named counter (form :: next :: rest) store name _ := ⟨generated, hend, rfl⟩
      obtain ⟨_, ⟨⟩, hbinding⟩ := hnow.tailReaches_binding hmore hfirst hnamed
      obtain ⟨final, hform⟩ := exists_ends_binding (hbinding.ends_iff.mp hends)
      rcases fails_or_value final with hfails | ⟨v, store', rfl, hv⟩
      · exact ⟨_, _, _, _, .refl _ _ _, .failed hmore hnamed hform hfails⟩
      · cases hv' : v.isTruthy with
        | true => exact ⟨_, _, _, _, .refl _ _ _, .selected hmore hnamed hform hv hv'⟩
        | false =>
          obtain ⟨others, hchoice⟩ := hnow.tailReaches_choice hmore hfirst hnamed hform hv
            metadata identity
          rw [hv', if_neg Bool.false_ne_true] at hchoice
          obtain ⟨_, _, _, _, hpassed, harrives⟩ := exists_alternativeArrives hrest
            (fun _ _ _ hpassed => hor _ _ _ (.step hmore hnamed hform hv hv' hpassed))
            (hchoice.ends_iff.mp hends)
          exact ⟨_, _, _, _, .step hmore hnamed hform hv hv' hpassed, harrives⟩
    · exact ⟨_, _, _, _, .refl _ _ _, .unnamed hmore hstops⟩

def Store.bound (built : Store) (name : String) (v : Value) : Store :=
  (built.addFrame []).define built.nextFrame name v

section Unchanged

variable (h : Named counter forms store name built)
include h

theorem Named.ne_or : name ≠ "or" := by
  obtain ⟨generated, hend, -⟩ := h
  obtain ⟨n, text, -, -, rfl, -⟩ := generatorEnd_eq_name hend
  intro heq
  have hchars := congrArg String.toList heq
  simp at hchars

theorem Named.nextFrame_le : store.nextFrame ≤ built.nextFrame := by
  obtain ⟨generated, hend, rfl⟩ := h
  have hgenerating : store.nextFrame + 1 + 1 = (store.generating forms).nextFrame := by
    rw [Store.generating, Store.nextFrame_addFrame, Store.expanding, Store.nextFrame_addFrame]
    rfl
  have hdefined := Store.nextFrame_define generated (store.expanding forms).nextFrame "condvar"
    (.symbol name)
  calc store.nextFrame
      ≤ store.nextFrame + 1 + 1 := Nat.le_add_right _ 2
    _ = (store.generating forms).nextFrame := hgenerating
    _ ≤ generated.nextFrame := generatorEnd_nextFrame_le hend
    _ = _ := hdefined.symm

theorem Named.lookup? (hscope : scope.IsIn store) (other : String) :
    built.lookup? scope other = store.lookup? scope other := by
  obtain ⟨generated, hend, rfl⟩ := h
  have hsame : scope.IsIn store.skipIdentity := hscope
  have hgenerating : scope.IsIn (store.generating forms) := (hsame.addFrame _).addFrame _
  have houtside : (store.expanding forms).nextFrame ∉ scope.frames := by
    intro hmem
    have hlt := hscope _ hmem
    rw [Store.expanding, Store.nextFrame_addFrame] at hlt
    exact Nat.not_succ_lt_self hlt
  calc ((generated.define (store.expanding forms).nextFrame "condvar" (.symbol name)).skipIdentities
        30).lookup? scope other
      = (generated.define (store.expanding forms).nextFrame "condvar" (.symbol name)).lookup? scope
        other := rfl
    _ = generated.lookup? scope other := Store.lookup?_define_of_not_mem houtside _ _
    _ = (store.generating forms).lookup? scope other := generatorEnd_lookup? hend hgenerating other
    _ = store.lookup? scope other := Store.lookup?_generating hscope forms other

theorem Named.lookup?_bound (hscope : scope.IsIn store) (v : Value) (other : String) :
    (built.bound name v).lookup? (scope.nest built.nextFrame) other =
      if other = name then some v else store.lookup? scope other := by
  have hbuilt : scope.IsIn built := hscope.of_le h.nextFrame_le
  split
  · next heq =>
    subst heq
    exact Store.lookup?_define_self (hbuilt.nest []) v
  · next hne =>
    rw [Store.bound, Store.lookup?_define_of_ne hne, Store.lookup?_nest hbuilt, Frame.find?,
      Option.none_or, h.lookup? hscope]

theorem Named.lookup?_outside (hscope : scope.IsIn store) (v : Value) (other : String) :
    (built.bound name v).lookup? scope other = store.lookup? scope other := by
  have hbuilt : scope.IsIn built := hscope.of_le h.nextFrame_le
  have houtside : built.nextFrame ∉ scope.frames := fun hmem => Nat.lt_irrefl _ (hbuilt _ hmem)
  rw [Store.bound, Store.lookup?_define_of_not_mem houtside, Store.lookup?_addFrame hbuilt,
    h.lookup? hscope]

theorem Named.isIn_bound (hscope : scope.IsIn store) (v : Value) :
    (scope.nest built.nextFrame).IsIn (built.bound name v) := by
  have hbuilt : scope.IsIn built := hscope.of_le h.nextFrame_le
  exact (hbuilt.nest []).of_le (Nat.le_of_eq (Store.nextFrame_define _ _ _ _).symm)

theorem Named.hasAlternatives_bound (hor : store.HasAlternatives scope home counter)
    (hscope : scope.IsIn store) (v : Value) :
    (built.bound name v).HasAlternatives (scope.nest built.nextFrame) home counter := by
  refine hor.of_lookup ?_ (h.lookup?_outside hor.home_isIn v)
  rw [h.lookup?_bound hscope, if_neg h.ne_or.symm]

end Unchanged

/-- There is a name if the counter holds a number whose successor can be written. -/
theorem exists_named {n : Int} {text : List Char} (hcontent : store.heap.content counter = .int n)
    (hnumeral : numeralText (1 + n) = .ok text) (forms : List Value) :
    ∃ built, Named counter forms store ("G__" ++ String.ofList text) built ∧
      built.heap.content counter = .int (1 + n) := by
  have hgenerating : (store.generating forms).heap.content counter = .int n := hcontent
  obtain ⟨generated, hend, hcounted⟩ := exists_generatorEnd hgenerating hnumeral
  exact ⟨_, ⟨generated, hend, rfl⟩, hcounted⟩

/-- Forms are evaluated in order, each once, in a new scope inside that of the form before and only
after the forms before it have not held. The call ends as the first form that holds or fails, or
gets to the last form. It has no other end, except that it ends as the generator does if that makes
no name. -/
theorem or_arrives (hforms : ∀ form ∈ forms, form.isError = false)
    (hor : ∀ scope' forms' store', AlternativesPassed counter scope forms store scope' forms'
      store' → store'.HasAlternatives scope' home counter) :
    (∀ scope' forms' store' arrival,
      AlternativesPassed counter scope forms store scope' forms' store' →
      AlternativeArrives counter scope' forms' store' arrival →
      (⟨.list (.symbol "or" :: forms) metadata identity, scope, store⟩ : Pending).ArrivesAt
        arrival) ∧
    ((∃ result, (⟨.list (.symbol "or" :: forms) metadata identity, scope, store⟩ :
      Pending).Ends result) →
      ∃ scope' forms' store' arrival,
        AlternativesPassed counter scope forms store scope' forms' store' ∧
        AlternativeArrives counter scope' forms' store' arrival) := by
  refine ⟨fun scope' forms' store' arrival hpassed harrives => ?_, fun ⟨_, hends⟩ =>
    exists_alternativeArrives hforms hor hends⟩
  obtain ⟨_, _, hreaches, hrest⟩ := hpassed.tailReaches hforms hor metadata identity
  exact hreaches.arrivesAt ((hor _ _ _ hpassed).arrivesAt hrest harrives)

/-- The second of three forms holds, and the third one is not evaluated. -/
theorem or_arrives_second :
    let forms := [.bool false, .str "x", .symbol "y"]
    ∃ session store home counter,
      Session.start (Limits.runner ⟨9, 9⟩) [] [] true (.initial .empty "" 0) = .ok session store ∧
      (∀ form ∈ forms, form.isError = false) ∧
      (∀ scope' forms' store', AlternativesPassed counter session.scope forms store scope' forms'
        store' → store'.HasAlternatives scope' home counter) ∧
      ∃ store', (⟨.ofList (.symbol "or" :: forms), session.scope, store⟩ : Pending).ArrivesAt
        (.final (.ok (.str "x") store')) := by
  intro forms
  obtain ⟨session, store, home, counter, hstart, hscope, -, hor, hzero⟩ := exists_start_bundled
  have hforms : ∀ form ∈ forms, form.isError = false := by decide
  have hisIn : session.scope.IsIn store := hscope ▸ hor.home_isIn
  have hfalse : ∀ (scope : Scope) (store : Store), (Task.evaluate (.bool false) scope).Ends store
      (.ok (.bool false) store) := fun _ _ => ends_constant rfl
  have hpassed : ∀ scope' forms' store', AlternativesPassed counter session.scope
      [.bool false, .str "x", .symbol "y"] store scope' forms' store' →
      store'.HasAlternatives scope' home counter := by
    intro scope' forms' store' hpassed
    cases hpassed with
    | refl => exact hor
    | step hmore hnamed hform _ _ hrest =>
      cases hform.unique (hfalse _ _)
      cases hrest with
      | refl => exact hnamed.hasAlternatives_bound hor hisIn _
      | step _ _ hform _ hholds _ =>
        cases hform.unique (ends_constant rfl)
        cases hholds
  obtain ⟨one, hone⟩ := exists_numeralText_digit (by decide : (1 + 0 : Int).natAbs < 10)
  obtain ⟨two, htwo⟩ := exists_numeralText_digit (by decide : (1 + 1 : Int).natAbs < 10)
  obtain ⟨built, hnamed, hcounted⟩ := exists_named hzero hone forms
  have hcontent : (built.bound ("G__" ++ String.ofList one) (.bool false)).heap.content counter =
      .int 1 := hcounted
  obtain ⟨built', hnamed', -⟩ := exists_named hcontent htwo [.str "x", .symbol "y"]
  have hfirst : AlternativesPassed counter session.scope forms store _ _ _ :=
    .step nofun hnamed (hfalse _ _) rfl rfl (.refl _ _ _)
  have hsecond : AlternativeArrives counter (session.scope.nest built.nextFrame)
      [.str "x", .symbol "y"] _ (.final _) := .selected nofun hnamed' (ends_constant rfl) rfl rfl
  exact ⟨session, store, home, counter, hstart, hforms, hpassed, _,
    (or_arrives hforms hpassed).1 _ _ _ _ hfirst hsecond⟩

/-- A program may set the counter to something else than a number. -/
theorem Session.or_miscounted :
    ∃ session store, Session.start (Limits.runner ⟨9, 9⟩) [] [] true (.initial .empty "" 0) =
        .ok session store ∧
      ∃ home counter store', session.evaluate "(reset! *gensym-counter* \"a\")" store =
          .ok (.str "a") store' ∧
        store'.HasAlternatives session.scope home counter ∧
        ∃ store'', session.answer "(or 1 2)" store' =
          .ok "Error: All arguments to + must be numbers" store'' := by
  refine ⟨_, _, start_bundled rfl rfl rfl, _, _, _, rfl,
    ⟨⟨⟨_, _, rfl⟩, rfl, ?_⟩, ⟨_, _, rfl⟩⟩, ?_⟩
  · decide +kernel
  · decide +kernel

end SmallLisp
