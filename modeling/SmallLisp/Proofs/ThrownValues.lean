import SmallLisp.Proofs.Answers
import SmallLisp.Proofs.CallPropagation
import SmallLisp.Proofs.PrintableValues

/-! # Thrown values reach their handler

The builtin that throws takes the representation of what it throws. So a value with a
representation arrives unchanged at the handler, through every form and every call in between, and a
value without one ends the evaluation instead, and no handler is asked.
-/
namespace SmallLisp

def thrownEnd (v : Value) (store : Store) : EStateM.Result Failure Store Value :=
  match representValue store.heap v with
  | .ok _ => .error (.thrown v) store
  | .error reason => .error (.abort reason) store

variable {scope : Scope} {store store' : Store} {function v : Value} {vs : List Value}
  {home : FrameId}

theorem thrownEnd_of_ok {text : String} (h : representValue store.heap v = .ok text) :
    thrownEnd v store = .error (.thrown v) store := by
  rw [thrownEnd, h]

theorem thrownEnd_of_error {reason : Abort} (h : representValue store.heap v = .error reason) :
    thrownEnd v store = .error (.abort reason) store := by
  rw [thrownEnd, h]

theorem stops_thrownEnd (v : Value) (store : Store) : Stops (thrownEnd v store) := by
  unfold thrownEnd
  split
  · trivial
  · trivial

theorem not_exhausted_thrownEnd (v : Value) (store : Store) : ¬ Exhausted (thrownEnd v store) := by
  unfold thrownEnd
  split
  · exact id
  · next reason hreason =>
    intro hexhausted
    have hprinting := representValue_gives_up store.heap v reason hreason
    cases reason with
    | exhausted => exact hprinting
    | _ => exact hexhausted

theorem apply_throw (v : Value) (store : Store) (run : Runner) (home : FrameId) :
    PlainBuiltin.apply run home (.state .throwValue) [v] store =
      mapEnd .done (thrownEnd v store) := by
  have hthrow : StateOp.apply .throwValue [v] store = thrownEnd v store := by
    simp only [StateOp.apply, onlyArgument, EvalM.ofFault, pure_bind, EvalM.represent, bind_assoc]
    rw [EvalM.get_bind, thrownEnd]
    cases representValue store.heap v with
    | ok text => rfl
    | error reason => rfl
  simp only [PlainBuiltin.apply, Bind.bind, EStateM.bind, hthrow]
  cases thrownEnd v store with
  | ok v store' => rfl
  | error failure store' => rfl

/-- The builtin may be called by way of `apply`. -/
theorem throw_ends (hcallee : Callee.ofCall function vs =
    .ok (.builtin (.state .throwValue) home, [v])) :
    (Task.call function vs).Ends store (thrownEnd v store) := by
  refine Task.StepEnds.last (Task.stepEnds_builtin hcallee ?_
    ((stops_thrownEnd v store).no_fault .done))
  exact ends_of_eq (mt exhausted_mapEnd.mp (not_exhausted_thrownEnd v store)) fun limits =>
    apply_throw v store limits.runner home

section Guard

variable {body metadata metadata' : Value} {identity identity' : Option Identity}
  {caught : String}

/-- What a guarded form throws is the value of a handler that returns it. -/
theorem guarded_of_thrown (h : (Task.evaluate body scope).Ends store (.error (.thrown v) store')) :
    (Task.evaluate (.list [.symbol "try*", body, .list [.symbol "catch*", .symbol caught,
      .symbol caught] metadata' identity'] metadata identity) scope).Ends store
      (.ok v (store'.addFrame [(caught, v)])) := by
  have hhandler : HandsOn ⟨.list [.symbol "try*", body, .list [.symbol "catch*", .symbol caught,
      .symbol caught] metadata' identity'] metadata identity, scope, store⟩ [⟨body, scope, store⟩]
      ⟨.symbol caught, scope.nest store'.nextFrame, store'.addFrame [(caught, v)]⟩ :=
    .handler rfl h ⟨rfl, rfl⟩
  have hopen : EvalM.openScope scope [(caught, v)] store' =
      .ok (scope.nest store'.nextFrame) (store'.addFrame [(caught, v)]) := rfl
  exact hhandler.stepNeeds.stepEnds.next (ends_symbol (openScope_binds hopen))

/-- No handler is asked when an evaluation is given up. -/
theorem guarded_of_abort {clause handler : Value} {reason : Abort}
    (hclause : SpecialForm.catchClause clause = .ok (caught, handler))
    (h : (Task.evaluate body scope).Ends store (.error (.abort reason) store')) :
    (Task.evaluate (.list [.symbol "try*", body, clause] metadata identity) scope).Ends store
      (.error (.abort reason) store') := by
  obtain ⟨hfinal, enough, heq⟩ := h
  have hguarded : Ends (fun limits => SpecialForm.evaluateGuarded limits.runner body caught handler
      scope) store (.error (.abort reason) store') := by
    refine ⟨hfinal, enough, fun limits hle => ?_⟩
    simp only [SpecialForm.evaluateGuarded, EvalM.catchThrown, Bind.bind, EStateM.bind,
      heq limits hle]
  have hfault : ∀ fault final, EStateM.Result.error (.abort reason) store' ≠
      (.error (.fault fault) final : EStateM.Result Failure Store Step) := by
    intro fault final h
    cases h
  have hstep : (Task.evaluate (.list [.symbol "try*", body, clause] metadata identity)
      scope).StepEnds store (mapEnd .done (.error (.abort reason) store')) :=
    (hguarded.settle hfault).congr fun limits => step_attempt hclause
  exact hstep.last

end Guard

/-- A value that is thrown arrives at the handler of a `try*` whose form leads to the throw, if the
value has a representation, as everything printable has. Otherwise the evaluation is given up. -/
theorem throw_arrives {body metadata metadata' : Value} {identity identity' : Option Identity}
    {caught : String}
    (hleads : Relation.ReflTransGen Enters ⟨.evaluate body scope, store⟩
      ⟨.call function vs, store'⟩)
    (hcallee : Callee.ofCall function vs = .ok (.builtin (.state .throwValue) home, [v])) :
    let guarded := Task.evaluate (.list [.symbol "try*", body, .list [.symbol "catch*",
      .symbol caught, .symbol caught] metadata' identity'] metadata identity) scope
    (∀ text, representValue store'.heap v = .ok text →
      (Task.call function vs).Ends store' (.error (.thrown v) store') ∧
      guarded.Ends store (.ok v (store'.addFrame [(caught, v)]))) ∧
    (∀ reason, representValue store'.heap v = .error reason →
      (Task.call function vs).Ends store' (.error (.abort reason) store') ∧
      guarded.Ends store (.error (.abort reason) store')) ∧
    (Printable store'.heap v → ∃ text, representValue store'.heap v = .ok text) := by
  intro guarded
  have hthrow : (Task.call function vs).Ends store' (thrownEnd v store') := throw_ends hcallee
  have hbody : (Task.evaluate body scope).Ends store (thrownEnd v store') :=
    stops_of_enters hleads hthrow (stops_thrownEnd v store')
  refine ⟨fun text htext => ?_, fun reason hreason => ?_, fun h => h.exists_representValue⟩
  · rw [thrownEnd_of_ok htext] at hthrow hbody
    exact ⟨hthrow, guarded_of_thrown hbody⟩
  · rw [thrownEnd_of_error hreason] at hthrow hbody
    exact ⟨hthrow, guarded_of_abort rfl hbody⟩

/-- A function that throws is called by `map`. -/
theorem throw_arrives_map :
    let scope := Scope.global 0
    let thrower := Value.closure 2 ⟨["x"], none⟩ (.ofList [.symbol "throw", .symbol "x"]) scope
      false .nil
    let throw := Value.native 1 (.plain (.state .throwValue)) 0 .nil
    let store := (Store.initial .empty "" 0).addFrame
      [("map", .native 0 (.plain (.call .map)) 0 .nil), ("throw", throw), ("thrower", thrower)]
    let body := Value.ofList [.symbol "map", .symbol "thrower", .ofVector [.bool true]]
    let store' := store.skipIdentity.skipIdentity.addFrame [("x", .bool true)]
    Relation.ReflTransGen Enters ⟨.evaluate body scope, store⟩ ⟨.call throw [.bool true], store'⟩ ∧
      representValue store'.heap (.bool true) = .ok "True" ∧
      (Task.evaluate (.ofList [.symbol "try*", body, .ofList [.symbol "catch*", .symbol "e",
        .symbol "e"]]) scope).Ends store (.ok (.bool true) (store'.addFrame [("e", .bool true)])) := by
  intro scope thrower throw store body store'
  have hmap : Enters ⟨.evaluate body scope, store⟩ ⟨.call (.native 0 (.plain (.call .map)) 0 .nil)
      [thrower, .vector [.bool true] .nil (some 0)], store.skipIdentity⟩ := by
    refine .application (ordinary_symbol (by decide) rfl rfl) ?_ rfl
    refine .cons (ends_symbol rfl) rfl (.cons (ends_symbol rfl) rfl (.cons ?_ rfl (.nil _)))
    exact Task.ends_of_run (rfl : runTask 2 2 _ store = _) id
  have hmapped : Enters ⟨.call (.native 0 (.plain (.call .map)) 0 .nil)
      [thrower, .vector [.bool true] .nil (some 0)], store.skipIdentity⟩
      ⟨.call thrower [.bool true], store.skipIdentity⟩ := .mapped rfl rfl rfl (.nil _)
  have hgoesOn : GoesOn thrower [.bool true] store.skipIdentity
      ⟨.ofList [.symbol "throw", .symbol "x"], scope.nest 1, store'⟩ := by
    have hbind : Parameters.bind ⟨["x"], none⟩ store.skipIdentity.heap.nextIdentity [.bool true] =
        .ok [("x", .bool true)] := rfl
    exact .body rfl hbind
  have hbody : Enters ⟨.call thrower [.bool true], store.skipIdentity⟩
      ⟨.evaluate (.ofList [.symbol "throw", .symbol "x"]) (scope.nest 1), store'⟩ := .body hgoesOn
  have hthrow : Enters ⟨.evaluate (.ofList [.symbol "throw", .symbol "x"]) (scope.nest 1), store'⟩
      ⟨.call throw [.bool true], store'⟩ := by
    refine .application (ordinary_symbol (by decide) rfl rfl) ?_ rfl
    exact .cons (ends_symbol rfl) rfl (.cons (ends_symbol rfl) rfl (.nil _))
  have hleads := (((Relation.ReflTransGen.single hmap).tail hmapped).tail hbody).tail hthrow
  have htrue : representValue store'.heap (.bool true) = .ok "True" := rfl
  exact ⟨hleads, htrue, ((throw_arrives hleads rfl).1 "True" htrue).2⟩

/-- A cell that holds itself is thrown, and the handler is not asked. -/
theorem Session.throw_endless :
    let limits : Limits := ⟨9, 9⟩
    ∃ session store, Session.start limits.runner [] [] false (.initial .empty "" 0) =
        .ok session store ∧
      ∃ store', session.answer
        "(let* (a (atom nil)) (do (reset! a a) (try* (throw a) (catch* e :caught))))" store =
        .ok "Error: maximum recursion depth exceeded" store' := by
  intro limits
  refine ⟨_, _, rfl, ?_⟩
  decide +kernel

end SmallLisp
