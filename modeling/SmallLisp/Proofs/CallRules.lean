import SmallLisp.Proofs.CallPropagation
import SmallLisp.Proofs.Lookups
import SmallLisp.Proofs.TemplateInstances

/-! # Rules of calls

How the calls of builtins and of expanders end, and where a form gets to by way of its tail
positions: to another form that it ends as, or to an end of its own.
-/
namespace SmallLisp

variable {scope : Scope} {store store' store'' : Store} {head function form v metadata : Value}
  {arguments vs : List Value} {identity : Option Identity}
  {result final : EStateM.Result Failure Store Value}

def settledEnd : EStateM.Result Failure Store Value → EStateM.Result Failure Store Value
  | .error (.fault f) store => EvalM.errorOf f store
  | result => result

theorem settledEnd_of_stops (h : Stops result) : settledEnd result = result := by
  cases result with
  | ok v store => rfl
  | error failure store =>
    cases failure with
    | fault f => exact h.elim
    | thrown payload => rfl
    | abort reason => rfl

theorem settle_mapEnd {x : EvalM Step} (h : x store = mapEnd .done result) :
    EvalM.settle x store = mapEnd .done (settledEnd result) := by
  unfold EvalM.settle
  rw [h]
  cases result with
  | ok v store => rfl
  | error failure store =>
    cases failure with
    | fault f => exact settle_fault f store
    | thrown payload => rfl
    | abort reason => rfl

theorem not_exhausted_settledEnd (h : ¬ Exhausted result) : ¬ Exhausted (settledEnd result) := by
  cases result with
  | ok v store => exact h
  | error failure store =>
    cases failure with
    | fault f => exact (errorOf_ends f store).1
    | thrown payload => exact h
    | abort reason => exact h

/-! ## Calls of builtins -/

theorem PlainBuiltin.mem_all (op : PlainBuiltin) : .plain op ∈ Builtin.all := by
  cases op with
  | number op => cases op <;> decide
  | test op => cases op <;> decide
  | collection op => cases op <;> decide
  | label op => cases op <;> decide
  | text op => cases op <;> decide
  | state op => cases op <;> decide
  | call op => cases op <;> decide

theorem ofName_builtin (op : PlainBuiltin) : SpecialForm.ofName? op.name = none := by
  have hall : ∀ op ∈ Builtin.all, SpecialForm.ofName? op.name = none := by decide
  exact hall _ op.mem_all

theorem name_ne_xs (op : PlainBuiltin) : op.name ≠ "xs" := by
  have hall : ∀ op ∈ Builtin.all, op.name ≠ "xs" := by decide
  exact hall _ op.mem_all

def Store.Offers (store : Store) (scope : Scope) (op : PlainBuiltin) : Prop :=
  ∃ id home metadata, store.lookup? scope op.name = some (.native id (.plain op) home metadata)

theorem Evaluated.append {before after us ws : List Value}
    (hbefore : Evaluated scope before store us store')
    (hafter : Evaluated scope after store' ws store'') :
    Evaluated scope (before ++ after) store (us ++ ws) store'' := by
  induction hbefore with
  | nil => exact hafter
  | cons hform hv _ ih => exact .cons hform hv (ih hafter)

def Value.isBuiltin (op : PlainBuiltin) : Value → Bool
  | .native _ (.plain other) _ _ => other == op
  | _ => false

theorem Store.offers_iff {op : PlainBuiltin} :
    store.Offers scope op ↔ (store.lookup? scope op.name).any (·.isBuiltin op) = true := by
  rw [Store.Offers, Option.any_eq_true]
  constructor
  · rintro ⟨id, home, metadata, hlookup⟩
    exact ⟨_, hlookup, beq_self_eq_true op⟩
  · rintro ⟨v, hlookup, hv⟩
    unfold Value.isBuiltin at hv
    split at hv
    · next id other home metadata =>
      rw [beq_iff_eq.mp hv] at hlookup
      exact ⟨id, home, metadata, hlookup⟩
    · cases hv

instance (store : Store) (scope : Scope) (op : PlainBuiltin) : Decidable (store.Offers scope op) :=
  decidable_of_iff _ Store.offers_iff.symm

theorem Store.Offers.of_lookup {op : PlainBuiltin} (h : store.Offers scope op)
    (hlookup : store'.lookup? scope op.name = store.lookup? scope op.name) :
    store'.Offers scope op := by
  rw [Store.Offers, hlookup]
  exact h

/-- A frame that does not bind the name of the builtin does not hide it. -/
theorem Store.Offers.nest {op : PlainBuiltin} {frame : Frame} (h : store.Offers scope op)
    (hscope : scope.IsIn store) (hframe : frame.find? op.name = none) :
    (store.addFrame frame).Offers (scope.nest store.nextFrame) op := by
  rw [Store.Offers, Store.lookup?_nest hscope, hframe, Option.none_or]
  exact h

theorem ends_body {inner : Pending} (h : GoesOn function vs store inner)
    (hinner : inner.Ends result) : (Task.call function vs).Ends store result := by
  have hstep : (Task.call function vs).StepEnds store (.ok (.tail inner.form inner.scope)
      inner.store) := ends_of_eq id fun limits => h.applyFunction_eq limits.runner
  exact hstep.next hinner

theorem Store.Offers.ends_call {op : PlainBuiltin} (h : store.Offers scope op)
    (harguments : Evaluated scope arguments store vs store')
    (hcall : ∀ id home metadata, (Task.call (.native id (.plain op) home metadata) vs).Ends store'
      result) :
    (Task.evaluate (.list (.symbol op.name :: arguments) metadata identity) scope).Ends store
      result := by
  obtain ⟨id, home, m, hlookup⟩ := h
  exact ends_application (ordinary_symbol (ofName_builtin op) hlookup rfl)
    (.cons (ends_symbol hlookup) rfl harguments) rfl (hcall id home m)

theorem ends_builtin {op : PlainBuiltin} {home : FrameId}
    (hcallee : Callee.ofCall function vs = .ok (.builtin op home, arguments))
    (h : Ends (fun limits => op.apply limits.runner home arguments) store (mapEnd .done result)) :
    (Task.call function vs).Ends store (settledEnd result) := by
  obtain ⟨hfinal, enough, heq⟩ := h
  have hstep : (Task.call function vs).StepEnds store (mapEnd .done (settledEnd result)) := by
    refine ⟨?_, enough, fun limits hle => ?_⟩
    · exact mt exhausted_mapEnd.mp (not_exhausted_settledEnd (mt exhausted_mapEnd.mpr hfinal))
    · refine settle_mapEnd ?_
      simp only [hcallee, EvalM.ofFault, pure_bind, Callee.enter]
      exact heq limits hle
  exact hstep.last

theorem ends_plain {op : PlainBuiltin} {id : Identity} {home : FrameId}
    (hfinal : ¬ Exhausted result)
    (happly : ∀ run home, op.apply run home vs store = mapEnd .done result) :
    (Task.call (.native id (.plain op) home metadata) vs).Ends store (settledEnd result) :=
  ends_builtin rfl (ends_of_eq (mt exhausted_mapEnd.mp hfinal) fun limits =>
    happly limits.runner home)

theorem ends_swap {callee : Value} {cell : CellId} {rest : List Value} {home : FrameId}
    (hcallee : Callee.ofCall callee vs =
      .ok (.builtin (.call .swap) home, .atom cell :: function :: rest))
    (hfunction : function.isFunction = true)
    (h : Ends (fun limits => CallOp.swapContent limits.runner cell function rest) store
      (mapEnd id result)) : (Task.call callee vs).Ends store (settledEnd result) := by
  refine ends_builtin hcallee ?_
  simp only [apply_swap hfunction]
  exact h.bind_map fun _ _ _ _ => rfl

theorem EvalM.identify_eq (v : Value) (store : Store) :
    EvalM.identify v store = .ok (v.identified store.heap.nextIdentity)
      (if v.isSequential then store.skipIdentity else store) := by
  cases v with
  | list => rfl
  | vector => rfl
  | _ => rfl

def CollectionOp.ending (op : CollectionOp) (vs : List Value) (store : Store) :
    EStateM.Result Failure Store Value :=
  match op.apply vs with
  | .ok v => if op.selects then .ok v store else EvalM.identify v store
  | .error fault => EvalM.errorOf fault store

theorem ends_collection (op : CollectionOp) (vs : List Value) (store : Store) (id : Identity)
    (home : FrameId) (metadata : Value) :
    (Task.call (.native id (.plain (.collection op)) home metadata) vs).Ends store
      (op.ending vs store) := by
  unfold CollectionOp.ending
  cases happly : op.apply vs with
  | error fault =>
    have hfinal : ¬ Exhausted (.error (.fault fault) store : EStateM.Result Failure Store Value) :=
      not_false
    refine ends_plain hfinal fun run home => ?_
    simp only [PlainBuiltin.apply, happly]
    rfl
  | ok v =>
    have hfinal : ∀ u store', ¬ Exhausted (.ok u store' : EStateM.Result Failure Store Value) :=
      fun _ _ => not_false
    cases hselects : op.selects with
    | true =>
      refine ends_plain (hfinal v store) fun run home => ?_
      simp only [PlainBuiltin.apply, happly, hselects]
      rfl
    | false =>
      simp only [Bool.false_eq_true, if_false, EvalM.identify_eq]
      refine ends_plain (hfinal _ _) fun run home => ?_
      simp only [PlainBuiltin.apply, happly, hselects, EvalM.ofFault, Bool.false_eq_true, if_false,
        Bind.bind, EStateM.bind, EvalM.identify_eq]
      rfl

theorem Store.Offers.ends {op : PlainBuiltin} (h : store.Offers scope op)
    (harguments : Evaluated scope arguments store vs store')
    (happly : ∀ run home, op.apply run home vs store' = .ok (.done v) store'') :
    (Task.evaluate (.list (.symbol op.name :: arguments) metadata identity) scope).Ends store
      (.ok v store'') := by
  have hfinal : ¬ Exhausted (.ok v store'' : EStateM.Result Failure Store Value) := id
  exact h.ends_call harguments fun _ _ _ => ends_plain hfinal happly

/-- An argument of a builtin that stops is the end of the call. -/
theorem Store.Offers.stops {op : PlainBuiltin} (h : store.Offers scope op)
    {before after : List Value} (hbefore : Evaluated scope before store vs store')
    (hpart : (Task.evaluate form scope).Ends store' result) (hstops : Stops result) :
    (Task.evaluate (.list (.symbol op.name :: (before ++ form :: after)) metadata identity)
      scope).Ends store result := by
  obtain ⟨id, home, m, hlookup⟩ := h
  exact stops_argument (ordinary_symbol (ofName_builtin op) hlookup rfl) (ends_symbol hlookup) rfl
    hbefore hpart hstops

def Value.isConstant : Value → Bool
  | .symbol _ | .list (_ :: _) _ _ | .vector _ _ _ | .table _ _ | .error _ _ => false
  | _ => true

theorem ends_constant (h : form.isConstant = true) :
    (Task.evaluate form scope).Ends store (.ok form store) := by
  refine Task.ends_of_run (?_ : runTask 1 1 _ store = _) id
  match form with
  | .nil | .bool _ | .int _ | .str _ | .keyword _ | .list [] _ _ | .atom _ => rfl
  | .native _ _ _ _ | .closure _ _ _ _ _ _ => rfl

section Lists

variable {listMetadata : Value} {listIdentity : Option Identity}

theorem ends_count (h : store.Offers scope (.collection .count))
    (hform : (Task.evaluate form scope).Ends store
      (.ok (.list vs listMetadata listIdentity) store')) :
    (Task.evaluate (.list [.symbol "count", form] metadata identity) scope).Ends store
      (.ok (.int vs.length) store') :=
  h.ends (.cons hform rfl (.nil _)) fun _ _ => rfl

theorem ends_first (h : store.Offers scope (.collection .first))
    (hform : (Task.evaluate form scope).Ends store
      (.ok (.list vs listMetadata listIdentity) store')) :
    (Task.evaluate (.list [.symbol "first", form] metadata identity) scope).Ends store
      (.ok (vs.headD .nil) store') :=
  h.ends (.cons hform rfl (.nil _)) fun _ _ => rfl

theorem ends_rest (h : store.Offers scope (.collection .rest))
    (hform : (Task.evaluate form scope).Ends store
      (.ok (.list vs listMetadata listIdentity) store')) :
    (Task.evaluate (.list [.symbol "rest", form] metadata identity) scope).Ends store
      (.ok (.list vs.tail .nil (some store'.heap.nextIdentity)) store'.skipIdentity) :=
  h.ends (.cons hform rfl (.nil _)) fun _ _ => rfl

theorem ends_list {forms : List Value} (h : store.Offers scope (.collection .list))
    (hforms : Evaluated scope forms store vs store') :
    (Task.evaluate (.list (.symbol "list" :: forms) metadata identity) scope).Ends store
      (.ok (.list vs .nil (some store'.heap.nextIdentity)) store'.skipIdentity) :=
  h.ends hforms fun _ _ => rfl

theorem ends_greater {m : Int} (h : store.Offers scope (.number .greater))
    (hform : (Task.evaluate form scope).Ends store (.ok (.int m) store')) (n : Int) :
    (Task.evaluate (.list [.symbol ">", form, .int n] metadata identity) scope).Ends store
      (.ok (.bool (m > n)) store') := by
  refine h.ends (.cons hform rfl (.cons (ends_constant rfl) rfl (.nil _))) fun run home => ?_
  simp only [PlainBuiltin.apply, NumberOp.apply, NumberOp.needsArgument, integers?,
    NumberOp.onIntegers, chained, EvalM.ofFault, Bool.and_true, Bool.false_and, Option.map_some,
    Bool.false_eq_true, if_false]
  rfl

end Lists

/-! ## Parts without a value -/

def Fails (result : EStateM.Result Failure Store Value) : Prop :=
  ∀ v store', result = .ok v store' → v.isError = true

theorem fails_or_value (result : EStateM.Result Failure Store Value) :
    Fails result ∨ ∃ v store', result = .ok v store' ∧ v.isError = false := by
  cases result with
  | ok v store =>
    cases hv : v.isError with
    | true => exact .inl fun u store' h => by cases h; exact hv
    | false => exact .inr ⟨v, store, rfl, hv⟩
  | error failure store => exact .inl nofun

theorem ends_special {special : SpecialForm} {parts : List Value}
    (hhead : specialForm? head = some special)
    (h : Ends (fun limits => special.evaluate limits.steps limits.runner parts scope) store
      (mapEnd .done result)) :
    (Task.evaluate (.list (head :: parts) metadata identity) scope).Ends store
      (settledEnd result) := by
  obtain ⟨hfinal, enough, heq⟩ := h
  have hstep : (Task.evaluate (.list (head :: parts) metadata identity) scope).StepEnds store
      (mapEnd .done (settledEnd result)) := by
    refine ⟨?_, enough, fun limits hle => ?_⟩
    · exact mt exhausted_mapEnd.mp (not_exhausted_settledEnd (mt exhausted_mapEnd.mpr hfinal))
    · exact (congrFun (Task.step_special hhead _ _ _) store).trans
        (settle_mapEnd (heq limits hle))
  exact hstep.last

section Parts

variable {part consequence : Value} {others : List Value}

theorem exists_alternative (hothers : others.length ≤ 1) :
    ∃ alternative : Option Value, others = alternative.toList := by
  match others with
  | [] => exact ⟨none, rfl⟩
  | [alternative] => exact ⟨some alternative, rfl⟩
  | _ :: _ :: _ => simp at hothers

theorem ends_branch_of_fails (hothers : others.length ≤ 1)
    (h : (Task.evaluate part scope).Ends store result) (hfails : Fails result) :
    (Task.evaluate (.list (.symbol "if" :: part :: consequence :: others) metadata identity)
      scope).Ends store (settledEnd result) := by
  obtain ⟨alternative, rfl⟩ := exists_alternative hothers
  have hif : specialForm? (.symbol "if") = some .branch := by decide
  refine ends_special hif ?_
  simp only [evaluate_branch]
  exact h.stops hfails

/-- Without an alternative, a condition that does not hold makes `nil`. -/
theorem ends_branch_of_false (h : (Task.evaluate part scope).Ends store (.ok v store'))
    (hv : v.isError = false) (hfalse : v.isTruthy = false) :
    (Task.evaluate (.list [.symbol "if", part, consequence] metadata identity) scope).Ends store
      (.ok .nil store') := by
  have hif : specialForm? (.symbol "if") = some .branch := by decide
  have hbranch : Ends (fun limits => SpecialForm.branch.evaluate limits.steps limits.runner
      [part, consequence] scope) store (mapEnd .done (.ok .nil store')) := by
    refine h.continues hv (ends_of_eq not_false fun limits => ?_)
    simp only [hfalse, Bool.false_eq_true, if_false]
    rfl
  exact ends_special hif hbranch

theorem ends_letIn_of_fails {name : String} {metadata' : Value} {identity' : Option Identity}
    (h : (Task.evaluate part (scope.nest store.nextFrame)).Ends (store.addFrame []) result)
    (hfails : Fails result) (body : List Value) :
    (Task.evaluate (.list (.symbol "let*" :: .list [.symbol name, part] metadata' identity' :: body)
      metadata identity) scope).Ends store (settledEnd result) := by
  have hlet : specialForm? (.symbol "let*") = some .letIn := by decide
  have heven : [Value.symbol name, part].length % 2 = 0 := length_flatBindings [(name, part)]
  refine ends_special hlet (ends_letIn rfl rfl heven ?_)
  have hbound : Ends (fun limits => SpecialForm.bindInOrder limits.runner
      (scope.nest store.nextFrame) [.symbol name, part]) (store.addFrame [])
      (mapEnd some result) := h.stops hfails
  exact hbound.bind_map fun _ _ _ _ => rfl

/-- What an end relies on has an end itself. -/
theorem Ends.exists_part {β : Type} {x : Limits → EvalM β} {end' : EStateM.Result Failure Store β}
    {part : Task} (h : Ends x store end')
    (hpart : ∀ limits : Limits, Exhausted (limits.runner part store') →
      Exhausted (x limits store)) : ∃ result, part.Ends store' result := by
  obtain ⟨hfinal, enough, heq⟩ := h
  have hrun : ¬ Exhausted (enough.runner part store') := by
    intro hexhausted
    have hwhole := heq enough ⟨Nat.le_refl _, Nat.le_refl _⟩
    rw [← hwhole] at hfinal
    exact hfinal (hpart enough hexhausted)
  exact ⟨_, Task.ends_of_run rfl hrun⟩

theorem Task.Ends.exists_part {task part : Task} (h : task.Ends store final)
    (hpart : ∀ limits : Limits, Exhausted (limits.runner part store') →
      Exhausted (task.step limits.steps limits.runner store)) :
    ∃ result, part.Ends store' result := by
  obtain ⟨step, hstep⟩ := h.exists_step
  exact hstep.exists_part hpart

theorem exists_ends_condition
    (h : (Task.evaluate (.list (.symbol "if" :: part :: consequence :: others) metadata identity)
      scope).Ends store final) (hothers : others.length ≤ 1) :
    ∃ result, (Task.evaluate part scope).Ends store result := by
  obtain ⟨alternative, rfl⟩ := exists_alternative hothers
  refine h.exists_part fun limits hexhausted => ?_
  have hif : specialForm? (.symbol "if") = some .branch := by decide
  rw [Task.step_special hif]
  refine Exhausted.settle ?_
  rw [evaluate_branch]
  exact hexhausted.bind _

theorem exists_ends_binding {name : String} {body : List Value} {metadata' : Value}
    {identity' : Option Identity}
    (h : (Task.evaluate (.list (.symbol "let*" :: .list [.symbol name, part] metadata' identity' ::
      body) metadata identity) scope).Ends store final) :
    ∃ result,
      (Task.evaluate part (scope.nest store.nextFrame)).Ends (store.addFrame []) result := by
  refine h.exists_part fun limits hexhausted => ?_
  have hlet : specialForm? (.symbol "let*") = some .letIn := by decide
  rw [Task.step_special hlet]
  refine Exhausted.settle ?_
  have hbound : Exhausted (SpecialForm.bindInOrder limits.runner (scope.nest store.nextFrame)
      [.symbol name, part] (store.addFrame [])) := hexhausted.bind _
  have heven : [Value.symbol name, part].length % 2 = 0 := length_flatBindings [(name, part)]
  rw [evaluate_letIn rfl rfl heven]
  exact hbound.bind _

end Parts

/-- The evaluation of the first form comes to the second one by way of tail positions only. -/
def Pending.TailReaches : Pending → Pending → Prop :=
  Relation.ReflTransGen fun outer inner => ∃ parts, HandsOn outer parts inner

theorem HandsOn.tailReaches {outer inner : Pending} {parts : List Pending}
    (h : HandsOn outer parts inner) : outer.TailReaches inner :=
  .single ⟨parts, h⟩

theorem Pending.TailReaches.ends_iff {outer inner : Pending} (h : outer.TailReaches inner) :
    outer.Ends result ↔ inner.Ends result := by
  induction h with
  | refl => exact Iff.rfl
  | tail _ hstep ih =>
    obtain ⟨_, hstep⟩ := hstep
    exact ih.trans hstep.stepNeeds.stepEnds.next_iff

section Branches

variable {part consequence alternative : Value}

theorem tailReaches_consequence {others : List Value} (hothers : others.length ≤ 1)
    (hpart : (Task.evaluate part scope).Ends store (.ok v store')) (hv : v.isError = false)
    (htrue : v.isTruthy = true) :
    (⟨.list (.symbol "if" :: part :: consequence :: others) metadata identity, scope, store⟩ :
      Pending).TailReaches ⟨consequence, scope, store'⟩ := by
  obtain ⟨alternative, rfl⟩ := exists_alternative hothers
  exact (HandsOn.branch hpart hv (if_pos htrue)).tailReaches

theorem tailReaches_alternative (hpart : (Task.evaluate part scope).Ends store (.ok v store'))
    (hv : v.isError = false) (hfalse : v.isTruthy = false) :
    (⟨.list [.symbol "if", part, consequence, alternative] metadata identity, scope, store⟩ :
      Pending).TailReaches ⟨alternative, scope, store'⟩ := by
  have hselected : (if v.isTruthy then some consequence else some alternative) =
      some alternative := if_neg (Bool.eq_false_iff.mp hfalse)
  exact (HandsOn.branch hpart hv hselected).tailReaches

end Branches

theorem tailReaches_letIn {part metadata' : Value} {name : String} {body : List Value}
    {identity' : Option Identity}
    (h : (Task.evaluate part (scope.nest store.nextFrame)).Ends (store.addFrame [])
      (.ok v store')) (hv : v.isError = false) :
    (⟨.list (.symbol "let*" :: .list [.symbol name, part] metadata' identity' :: body) metadata
      identity, scope, store⟩ : Pending).TailReaches
      ⟨SpecialForm.bodyOf body, scope.nest store.nextFrame,
        store'.define store.nextFrame name v⟩ := by
  have hbindings : (Value.list [.symbol name, part] metadata' identity').elements? =
      some (flatBindings [(name, part)]) := rfl
  exact (HandsOn.letIn rfl hbindings (.cons h hv (.nil _))).tailReaches

inductive Arrival where
  | tail (next : Pending)
  | final (result : EStateM.Result Failure Store Value)

def Pending.ArrivesAt (p : Pending) : Arrival → Prop
  | .tail next => p.TailReaches next
  | .final result => p.Ends result

theorem Pending.TailReaches.arrivesAt {outer inner : Pending} (h : outer.TailReaches inner)
    {arrival : Arrival} (harrival : inner.ArrivesAt arrival) : outer.ArrivesAt arrival := by
  cases arrival with
  | tail next => exact Relation.ReflTransGen.trans h harrival
  | final result => exact h.ends_iff.mpr harrival

/-! ## Calls of expanders -/

/-- The name is bound to an expander with this body that takes all the forms of a call as `xs`. -/
def Store.Expands (store : Store) (scope : Scope) (name : String) (home : FrameId)
    (body : Value) : Prop :=
  ∃ id metadata, store.lookup? scope name =
    some (.closure id ⟨[], some "xs"⟩ body (.global home) true metadata)

abbrev Store.expanderScope (store : Store) (home : FrameId) : Scope :=
  (Scope.global home).nest store.nextFrame

def Store.expanding (store : Store) (forms : List Value) : Store :=
  store.skipIdentity.addFrame [("xs", .list forms .nil (some store.heap.nextIdentity))]

section Expanders

variable {name : String} {home : FrameId} {body expanded : Value} {forms : List Value}

theorem Store.Offers.isIn {op : PlainBuiltin} (h : store.Offers (.global home) op) :
    (Scope.global home).IsIn store := by
  obtain ⟨id, home', m, hlookup⟩ := h
  rw [Store.lookup?_global] at hlookup
  exact Scope.isIn_global hlookup

theorem Store.lookup?_expanding (h : (Scope.global home).IsIn store) (forms : List Value)
    (name : String) :
    (store.expanding forms).lookup? (store.expanderScope home) name =
      (Frame.find? name [("xs", .list forms .nil (some store.heap.nextIdentity))]).or
        (store.lookup? (.global home) name) :=
  Store.lookup?_nest h _ name

theorem ends_forms (h : (Scope.global home).IsIn store) (forms : List Value) :
    (Task.evaluate (.symbol "xs") (store.expanderScope home)).Ends (store.expanding forms)
      (.ok (.list forms .nil (some store.heap.nextIdentity)) (store.expanding forms)) := by
  refine ends_symbol ?_
  rw [Store.lookup?_expanding h]
  rfl

/-- The parameter of an expander hides no builtin. -/
theorem Store.Offers.expanding {op : PlainBuiltin} (h : store.Offers (.global home) op)
    (forms : List Value) :
    (store.expanding forms).Offers (store.expanderScope home) op := by
  have hsame : store.skipIdentity.Offers (.global home) op := h
  exact hsame.nest h.isIn (if_neg (name_ne_xs op))

theorem Store.Expands.expansion (h : store.Expands scope name home body)
    (hname : SpecialForm.ofName? name = none) (forms : List Value) :
    ∃ expander, expansionOf? store scope (.list (.symbol name :: forms) metadata identity) =
        some (expander, forms) ∧
      ¬ Clashes store scope (.list (.symbol name :: forms) metadata identity) ∧
      GoesOn expander forms store ⟨body, store.expanderScope home, store.expanding forms⟩ := by
  obtain ⟨id, m, hlookup⟩ := h
  have hbind : Parameters.bind ⟨[], some "xs"⟩ store.heap.nextIdentity forms =
      .ok [("xs", .list forms .nil (some store.heap.nextIdentity))] := rfl
  have hgoesOn : GoesOn (.closure id ⟨[], some "xs"⟩ body (.global home) true m) forms store
      ⟨body, store.expanderScope home, store.expanding forms⟩ := .body rfl hbind
  refine ⟨_, ?_, ?_, hgoesOn⟩
  · unfold expansionOf?
    simp only [hlookup, Value.isExpander, if_true]
  · rintro ⟨_, _, _, _, _, hform, hspecial, _⟩
    cases hform
    exact hspecial hname

/-- An expansion is followed by the evaluation of its form in the scope of the call. -/
theorem Store.Expands.handsOn (h : store.Expands scope name home body)
    (hname : SpecialForm.ofName? name = none)
    (hbody : (Task.evaluate body (store.expanderScope home)).Ends
      (store.expanding forms) (.ok expanded store')) (hvalue : expanded.isError = false) :
    (⟨.list (.symbol name :: forms) metadata identity, scope, store⟩ : Pending).TailReaches
      ⟨expanded, scope, store'⟩ := by
  obtain ⟨expander, hexpansion, hclash, hgoesOn⟩ := h.expansion hname forms
  exact (HandsOn.expansion hexpansion hclash hgoesOn hbody hvalue).tailReaches

theorem Store.Expands.ends_of_fails (h : store.Expands scope name home body)
    (hname : SpecialForm.ofName? name = none)
    (hbody : (Task.evaluate body (store.expanderScope home)).Ends
      (store.expanding forms) result) (hfails : Fails result) :
    (Task.evaluate (.list (.symbol name :: forms) metadata identity) scope).Ends store result := by
  obtain ⟨expander, hexpansion, hclash, hgoesOn⟩ := h.expansion hname forms
  exact evaluate_of_stopped hexpansion hclash (ends_body hgoesOn hbody) hfails

end Expanders

end SmallLisp
