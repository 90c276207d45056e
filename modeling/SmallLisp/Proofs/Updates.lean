import SmallLisp.Proofs.CallRules
import SmallLisp.Proofs.Moments

/-! # Updates write once

A definition first evaluates its expression, and `swap!` first calls its function. After a failure
of this run nothing is written. After a value it is stored by one write, to the frame or the cell
in question, whatever the run itself has written there before.
-/
namespace SmallLisp

structure Store.Rebound (store : Store) (id : FrameId) (name : String) (v : Value)
    (store' : Store) : Prop where
  value : (store'.frame id).find? name = some v
  others : ∀ other ≠ name, (store'.frame id).find? other = (store.frame id).find? other
  /-- The names keep their places, and a new one is the last. -/
  names : (store.frame id).names <+: (store'.frame id).names
  frames : ∀ f ≠ id, store'.frame f = store.frame f
  nextFrame : store'.nextFrame = store.nextFrame
  rest : { store' with frames := store.frames } = store

structure Store.Refilled (store : Store) (cell : CellId) (v : Value) (store' : Store) : Prop where
  content : store'.heap.content cell = v
  others : ∀ other ≠ cell, store'.heap.content other = store.heap.content other
  nextCell : store'.heap.nextCell = store.heap.nextCell
  rest : { store' with heap := { store'.heap with cells := store.heap.cells } } = store

inductive PassedOn : EStateM.Result Failure Store Value → EStateM.Result Failure Store Value →
    Prop where
  | errorValue (message : String) (cause : Option Value) (store : Store) :
      PassedOn (.ok (.error message cause) store) (.ok (.error message cause) store)
  | thrown (payload : Value) (store : Store) :
      PassedOn (.error (.thrown payload) store) (.error (.thrown payload) store)
  | givenUp (reason : Abort) (store : Store) :
      PassedOn (.error (.abort reason) store) (.error (.abort reason) store)
  | fault {fault : Fault} {message : String} {store : Store}
      (h : fault.message store.heap = .ok message) :
      PassedOn (.error (.fault fault) store) (.ok (.error message none) store)
  | nameless {fault : Fault} {reason : Abort} {store : Store}
      (h : fault.message store.heap = .error reason) :
      PassedOn (.error (.fault fault) store) (.error (.abort reason) store)

inductive DefinitionEnds (scope : Scope) (name : String) :
    EStateM.Result Failure Store Value → EStateM.Result Failure Store Value → Prop where
  | fails {result final : EStateM.Result Failure Store Value} (h : PassedOn result final) :
      DefinitionEnds scope name result final
  | writes {v : Value} {store store' : Store} (hv : v.isError = false)
      (h : store.Rebound scope.here name v store') :
      DefinitionEnds scope name (.ok v store) (.ok v store')

/-- How the definition of an expander ends after the run of its expression. What is bound is a copy
of the function, which has an identity of its own. -/
inductive ExpanderEnds (scope : Scope) (name : String) :
    EStateM.Result Failure Store Value → EStateM.Result Failure Store Value → Prop where
  | fails {result final : EStateM.Result Failure Store Value} (h : PassedOn result final) :
      ExpanderEnds scope name result final
  | refuses {v : Value} {store : Store} (hv : v.isError = false)
      (hclosure : ∀ id parameters body outer expands metadata,
        v ≠ .closure id parameters body outer expands metadata) :
      ExpanderEnds scope name (.ok v store)
        (.ok (.error "defmacro! requires a function defined with fn*" none) store)
  | writes {id : Identity} {parameters : Parameters} {body metadata : Value} {outer : Scope}
      {expands : Bool} {copy : Value} {store store' : Store}
      (hcopy : copy =
        .closure store.heap.nextIdentity parameters body outer true metadata)
      (h : store.skipIdentity.Rebound scope.here name copy store') :
      ExpanderEnds scope name (.ok (.closure id parameters body outer expands metadata) store)
        (.ok copy store')

inductive SwapEnds (cell : CellId) :
    EStateM.Result Failure Store Value → EStateM.Result Failure Store Value → Prop where
  | fails {result final : EStateM.Result Failure Store Value} (h : PassedOn result final) :
      SwapEnds cell result final
  | writes {v : Value} {store store' : Store} (hv : v.isError = false)
      (h : store.Refilled cell v store') : SwapEnds cell (.ok v store) (.ok v store')

/-- The task ends just if the run that it starts with does, and its end is related to that of the
run. -/
structure Running.EndsAfter (whole first : Running)
    (finish : EStateM.Result Failure Store Value → EStateM.Result Failure Store Value → Prop) :
    Prop where
  ends_iff : (∃ final, whole.Ends final) ↔ ∃ result, first.Ends result
  finishes : ∀ result final, first.Ends result → whole.Ends final → finish result final

variable {scope : Scope} {store store' : Store} {name : String} {v part metadata : Value}
  {identity : Option Identity} {cell : CellId} {whole first : Running}
  {result final : EStateM.Result Failure Store Value}
  {finish : EStateM.Result Failure Store Value → EStateM.Result Failure Store Value → Prop}

theorem Running.EndsAfter.intro
    (hfirst : ∀ final, whole.Ends final → ∃ result, first.Ends result)
    (hwhole : ∀ result, first.Ends result → ∃ final, whole.Ends final ∧ finish result final) :
    whole.EndsAfter first finish := by
  refine ⟨⟨?_, ?_⟩, ?_⟩
  · rintro ⟨final, hends⟩
    exact hfirst final hends
  · rintro ⟨result, hends⟩
    obtain ⟨final, hfinal, _⟩ := hwhole result hends
    exact ⟨final, hfinal⟩
  · intro result final hends hfinal
    obtain ⟨final', hfinal', hfinish⟩ := hwhole result hends
    rw [Ends.unique hfinal hfinal']
    exact hfinish

theorem Store.rebound_define {id : FrameId} (h : id < store.nextFrame) (name : String)
    (v : Value) : store.Rebound id name v (store.define id name v) := by
  have hframe : (store.define id name v).frame id = (store.frame id).bind name v := by
    rw [Store.frame_define, if_pos ⟨rfl, h⟩]
  refine ⟨?_, ?_, ?_, ?_, Store.nextFrame_define store id name v, rfl⟩
  · rw [hframe, Frame.find?_bind_self]
  · intro other hother
    rw [hframe, Frame.find?_bind_of_ne hother]
  · rw [hframe]
    exact Frame.names_bind _ name v
  · intro f hf
    rw [Store.frame_define, if_neg fun h => hf h.1.symm]

theorem Store.refilled_setCell (h : cell < store.heap.nextCell) (v : Value) :
    store.Refilled cell v (store.setCell cell v) := by
  refine ⟨Heap.content_setCell_self h v, ?_, ?_, rfl⟩
  · intro other hother
    exact Heap.content_setCell_of_ne hother v
  · exact Array.size_setIfInBounds

theorem passedOn_of_fails (h : Fails result) : PassedOn result (settledEnd result) := by
  cases result with
  | ok v store =>
    have hv : v.isError = true := h v store rfl
    cases v with
    | error message cause => exact .errorValue message cause store
    | _ => cases hv
  | error failure store =>
    cases failure with
    | thrown payload => exact .thrown payload store
    | abort reason => exact .givenUp reason store
    | fault f =>
      rw [settledEnd, EvalM.errorOf_eq]
      cases hmessage : f.message store.heap with
      | ok message => exact .fault hmessage
      | error reason => exact .nameless hmessage

theorem ends_definition (h : (Task.evaluate part scope).Ends store result) (form : SpecialForm)
    (name : String) :
    Ends (fun limits => SpecialForm.definition limits.runner form [.symbol name, part] scope) store
      (mapEnd (name, ·) result) :=
  h.bind_pure fun _ _ _ _ => rfl

theorem ends_define_of_fails (h : (Task.evaluate part scope).Ends store result)
    (hfails : Fails result) :
    (Task.evaluate (.list [.symbol "def!", .symbol name, part] metadata identity) scope).Ends store
      (settledEnd result) := by
  have hdef : specialForm? (.symbol "def!") = some .define := by decide
  refine ends_special hdef ((ends_definition h .define name).bind_map fun v store' hv limits => ?_)
  exact if_pos (hfails v store' hv)

theorem ends_define (h : (Task.evaluate part scope).Ends store (.ok v store'))
    (hv : v.isError = false) :
    (Task.evaluate (.list [.symbol "def!", .symbol name, part] metadata identity) scope).Ends store
      (.ok v (store'.define scope.here name v)) := by
  have hdef : specialForm? (.symbol "def!") = some .define := by decide
  have hwritten : Ends (fun limits => SpecialForm.define.evaluate limits.steps limits.runner
      [.symbol name, part] scope) store (mapEnd .done (.ok v (store'.define scope.here name v))) := by
    refine (ends_definition h .define name).bind (ends_of_eq id fun _ => ?_)
    simp only [hv, Bool.false_eq_true, if_false]
    rfl
  exact ends_special hdef hwritten

theorem ends_defineExpander_of_fails (h : (Task.evaluate part scope).Ends store result)
    (hfails : Fails result) :
    (Task.evaluate (.list [.symbol "defmacro!", .symbol name, part] metadata identity) scope).Ends
      store (settledEnd result) := by
  have hdef : specialForm? (.symbol "defmacro!") = some .defineExpander := by decide
  refine ends_special hdef ((ends_definition h .defineExpander name).bind_map
    fun v store' hv limits => ?_)
  have herror := hfails v store' hv
  cases v with
  | error message cause => rfl
  | _ => cases herror

theorem ends_defineExpander {id : Identity} {parameters : Parameters} {body metadata' : Value}
    {outer : Scope} {expands : Bool}
    (h : (Task.evaluate part scope).Ends store
      (.ok (.closure id parameters body outer expands metadata') store')) :
    let copy := Value.closure store'.heap.nextIdentity parameters body outer true metadata'
    (Task.evaluate (.list [.symbol "defmacro!", .symbol name, part] metadata identity) scope).Ends
      store (.ok copy (store'.skipIdentity.define scope.here name copy)) := by
  intro copy
  have hdef : specialForm? (.symbol "defmacro!") = some .defineExpander := by decide
  have hwritten : Ends (fun limits => SpecialForm.defineExpander.evaluate limits.steps
      limits.runner [.symbol name, part] scope) store
      (mapEnd .done (.ok copy (store'.skipIdentity.define scope.here name copy))) :=
    (ends_definition h .defineExpander name).bind (ends_of_eq not_false fun _ => rfl)
  exact ends_special hdef hwritten

theorem ends_defineExpander_of_other (h : (Task.evaluate part scope).Ends store (.ok v store'))
    (hv : v.isError = false)
    (hclosure : ∀ id parameters body outer expands metadata,
      v ≠ .closure id parameters body outer expands metadata) :
    (Task.evaluate (.list [.symbol "defmacro!", .symbol name, part] metadata identity) scope).Ends
      store (.ok (.error "defmacro! requires a function defined with fn*" none) store') := by
  have hdef : specialForm? (.symbol "defmacro!") = some .defineExpander := by decide
  have hrefused : Ends (fun limits => SpecialForm.defineExpander.evaluate limits.steps
      limits.runner [.symbol name, part] scope) store
      (mapEnd .done (.error (.fault (.kind .expanderNotClosure)) store')) := by
    refine (ends_definition h .defineExpander name).bind (ends_of_eq not_false fun _ => ?_)
    cases v with
    | error message cause => cases hv
    | closure id parameters body outer expands metadata =>
      exact absurd rfl (hclosure id parameters body outer expands metadata)
    | _ => rfl
  exact ends_special hdef hrefused

/-- A definition goes on only after its expression has ended. -/
theorem exists_ends_expression {special : SpecialForm} {head : Value}
    (hhead : specialForm? head = some special)
    (hspecial : special = .define ∨ special = .defineExpander)
    (h : (Task.evaluate (.list [head, .symbol name, part] metadata identity) scope).Ends store
      final) : ∃ result, (Task.evaluate part scope).Ends store result := by
  refine h.exists_part fun limits hexhausted => ?_
  rw [Task.step_special hhead]
  refine Exhausted.settle ?_
  have hdefinition : Exhausted (SpecialForm.definition limits.runner special
      [.symbol name, part] scope store) := hexhausted.bind _
  rcases hspecial with rfl | rfl
  · exact hdefinition.bind _
  · exact hdefinition.bind _

theorem endsAfter_define (hscope : scope.here < store.nextFrame) :
    Running.EndsAfter
      ⟨.evaluate (.list [.symbol "def!", .symbol name, part] metadata identity) scope, store⟩
      ⟨.evaluate part scope, store⟩ (DefinitionEnds scope name) := by
  have hdef : specialForm? (.symbol "def!") = some .define := by decide
  refine .intro (fun final h => exists_ends_expression hdef (.inl rfl) h) fun result h => ?_
  rcases fails_or_value result with hfails | ⟨v, store', rfl, hv⟩
  · exact ⟨_, ends_define_of_fails h hfails, .fails (passedOn_of_fails hfails)⟩
  · have hhere := Nat.lt_of_lt_of_le hscope (Task.Ends.nextFrame_le h)
    exact ⟨_, ends_define h hv, .writes hv (Store.rebound_define hhere name v)⟩

theorem endsAfter_defineExpander (hscope : scope.here < store.nextFrame) :
    Running.EndsAfter
      ⟨.evaluate (.list [.symbol "defmacro!", .symbol name, part] metadata identity) scope, store⟩
      ⟨.evaluate part scope, store⟩ (ExpanderEnds scope name) := by
  have hdef : specialForm? (.symbol "defmacro!") = some .defineExpander := by decide
  refine .intro (fun final h => exists_ends_expression hdef (.inr rfl) h) fun result h => ?_
  rcases fails_or_value result with hfails | ⟨v, store', rfl, hv⟩
  · exact ⟨_, ends_defineExpander_of_fails h hfails, .fails (passedOn_of_fails hfails)⟩
  · have hhere := Nat.lt_of_lt_of_le hscope (Task.Ends.nextFrame_le h)
    cases v with
    | closure id parameters body outer expands metadata =>
      have hskipped : scope.here < store'.skipIdentity.nextFrame := hhere
      exact ⟨_, ends_defineExpander h, .writes rfl (Store.rebound_define hskipped name _)⟩
    | _ => exact ⟨_, ends_defineExpander_of_other h hv nofun, .refuses hv nofun⟩

section Swap

variable {function callee : Value} {vs rest : List Value} {home : FrameId}

theorem endsAfter_swap
    (hcallee : Callee.ofCall callee vs =
      .ok (.builtin (.call .swap) home, .atom cell :: function :: rest))
    (hfunction : function.isFunction = true) (hcell : cell < store.heap.nextCell) :
    Running.EndsAfter ⟨.call callee vs, store⟩
      ⟨.call function (store.heap.content cell :: rest), store⟩ (SwapEnds cell) := by
  refine .intro (fun final h => ?_) fun result h => ?_
  · refine Task.Ends.exists_part h fun limits hexhausted => Exhausted.settle ?_
    simp only [hcallee, EvalM.ofFault, pure_bind, Callee.enter, apply_swap hfunction]
    refine Exhausted.bind ?_ _
    rw [CallOp.swapContent, EvalM.get_bind]
    exact hexhausted.bind _
  · rcases fails_or_value result with hfails | ⟨v, store', rfl, hv⟩
    · exact ⟨_, ends_swap hcallee hfunction (swapContent_stops h hfails),
        .fails (passedOn_of_fails hfails)⟩
    · have hthere := Nat.lt_of_lt_of_le hcell (Task.Ends.extends h).2
      have hwritten := swapContent_ends h hv
      rw [← mapEnd_id (.ok v (store'.setCell cell v))] at hwritten
      exact ⟨_, ends_swap hcallee hfunction hwritten, .writes hv (Store.refilled_setCell hthere v)⟩

end Swap

theorem Running.EndsAfter.congr {whole' : Running} (h : whole.EndsAfter first finish)
    (hsame : ∀ final, whole'.Ends final ↔ whole.Ends final) : whole'.EndsAfter first finish := by
  refine ⟨?_, ?_⟩
  · rw [exists_congr hsame]
    exact h.ends_iff
  · intro result final hfirst hwhole
    exact h.finishes result final hfirst ((hsame final).mp hwhole)

/-- In every store, `def!` and `defmacro!` first evaluate their expression and `swap!` first calls
its function. Each of them ends if this run does, and after that it writes once or not at all. -/
theorem updates_write_once (store : Store) :
    (∀ scope name expression metadata identity, scope.here < store.nextFrame →
      Running.EndsAfter ⟨.evaluate (.list [.symbol "def!", .symbol name, expression] metadata
          identity) scope, store⟩
        ⟨.evaluate expression scope, store⟩ (DefinitionEnds scope name)) ∧
    (∀ scope name expression metadata identity, scope.here < store.nextFrame →
      Running.EndsAfter ⟨.evaluate (.list [.symbol "defmacro!", .symbol name, expression] metadata
          identity) scope, store⟩
        ⟨.evaluate expression scope, store⟩ (ExpanderEnds scope name)) ∧
    ∀ scope head forms metadata identity id home metadata' cell function vs store',
      Ordinary store scope head →
      Evaluated scope (head :: forms) store (.native id (.plain (.call .swap)) home metadata' ::
        .atom cell :: function :: vs) store' →
      function.isFunction = true → cell < store'.heap.nextCell →
      Running.EndsAfter ⟨.evaluate (.list (head :: forms) metadata identity) scope, store⟩
        ⟨.call function (store'.heap.content cell :: vs), store'⟩ (SwapEnds cell) := by
  refine ⟨?_, ?_, ?_⟩
  · intro scope name expression metadata identity hscope
    exact endsAfter_define hscope
  · intro scope name expression metadata identity hscope
    exact endsAfter_defineExpander hscope
  · intro scope head forms metadata identity id home metadata' cell function vs store' hordinary
      hforms hfunction hcell
    have hcallee : Callee.ofCall (.native id (.plain (.call .swap)) home metadata')
        (.atom cell :: function :: vs) =
          .ok (.builtin (.call .swap) home, .atom cell :: function :: vs) := rfl
    refine (endsAfter_swap hcallee hfunction hcell).congr fun final => ?_
    exact ends_application_iff hordinary hforms rfl

/-- In an inner scope, a name that the outer frame binds is defined, a number is refused as an
expander, and a cell is swapped by a function that resets it on the way. -/
theorem updates_write_once_shadowed :
    let swap := Value.native 0 (.plain (.call .swap)) 0 .nil
    let reset := Value.native 1 (.plain (.state .reset)) 0 .nil
    let change := Value.closure 2 ⟨["y"], none⟩ (.ofList [.symbol "do",
      .ofList [.symbol "reset!", .symbol "a", .int 5], .int 7]) (.global 0) false .nil
    let outer := [("swap!", swap), ("reset!", reset), ("f", change), ("a", .atom 0), ("x", .nil)]
    let store := (((Store.initial .empty "" 0).addCell (.int 1)).addFrame outer).addFrame []
    let scope := (Scope.global 0).nest 1
    (∃ store', (Task.evaluate (.ofList [.symbol "def!", .symbol "x", .int 2]) scope).Ends store
        (.ok (.int 2) store') ∧ store.Rebound 1 "x" (.int 2) store') ∧
      (Task.evaluate (.ofList [.symbol "defmacro!", .symbol "x", .int 2]) scope).Ends store
        (.ok (.error "defmacro! requires a function defined with fn*" none) store) ∧
      ∃ changed store', (Task.call change [.int 1]).Ends store (.ok (.int 7) changed) ∧
        changed.heap.content 0 = .int 5 ∧
        (Task.evaluate (.ofList [.symbol "swap!", .symbol "a", .symbol "f"]) scope).Ends store
          (.ok (.int 7) store') ∧ changed.Refilled 0 (.int 7) store' := by
  intro swap reset change outer store scope
  obtain ⟨hdefine, hexpander, hswap⟩ := updates_write_once store
  have hscope : scope.here < store.nextFrame := by decide
  have htwo : (Task.evaluate (.int 2) scope).Ends store (.ok (.int 2) store) := ends_constant rfl
  refine ⟨?_, ?_, ?_⟩
  · have hafter := hdefine scope "x" (.int 2) .nil none hscope
    obtain ⟨final, hfinal⟩ := hafter.ends_iff.mpr ⟨_, htwo⟩
    cases hafter.finishes _ final htwo hfinal with
    | fails h => cases h
    | writes hv h => exact ⟨_, hfinal, h⟩
  · have hafter := hexpander scope "x" (.int 2) .nil none hscope
    obtain ⟨final, hfinal⟩ := hafter.ends_iff.mpr ⟨_, htwo⟩
    cases hafter.finishes _ final htwo hfinal with
    | fails h => cases h
    | refuses hv hclosure => exact hfinal
  · have hordinary : Ordinary store scope (.symbol "swap!") :=
      ordinary_symbol (by decide) rfl rfl
    have hforms : Evaluated scope [.symbol "swap!", .symbol "a", .symbol "f"] store
        [swap, .atom 0, change] store :=
      .cons (ends_symbol rfl) rfl (.cons (ends_symbol rfl) rfl
        (.cons (ends_symbol rfl) rfl (.nil store)))
    have hcell : 0 < store.heap.nextCell := by decide
    obtain ⟨changed, hcall, hcontent⟩ : ∃ changed, (Task.call change [.int 1]).Ends store
        (.ok (.int 7) changed) ∧ changed.heap.content 0 = .int 5 :=
      ⟨_, Task.ends_of_run (rfl : runTask 4 4 _ store = _) id, rfl⟩
    have hafter := hswap scope _ _ .nil none _ _ _ _ _ _ store hordinary hforms rfl hcell
    obtain ⟨final, hfinal⟩ := hafter.ends_iff.mpr ⟨_, hcall⟩
    cases hafter.finishes _ final hcall hfinal with
    | fails h => cases h
    | writes hv h => exact ⟨changed, _, hcall, hcontent, hfinal, h⟩

end SmallLisp
