import SmallLisp.Proofs.BundledPrelude

/-! # Generated names

The generator of the prelude adds one to its counter and makes a name of the number. It relies on
what the counter holds, which a program may have changed: it ends in an error value if that is no
integer, and is given up if the number is too long to be written.
-/
namespace SmallLisp

variable {scope : Scope} {home : FrameId} {counter : CellId} {store store' : Store}
  {content v metadata : Value} {identity : Option Identity}

def successorOf : Value → Value
  | .int n => .int (1 + n)
  | .error message cause => .error message cause
  | _ => .error "All arguments to + must be numbers" none

def Store.asked (counter : CellId) (store : Store) : Store :=
  store.skipIdentity.skipIdentity.addFrame [("x", store.heap.content counter)]

def Store.counted (counter : CellId) (store : Store) : Store :=
  match successorOf (store.heap.content counter) with
  | .int n => (store.asked counter).setCell counter (.int n)
  | _ => store.asked counter

def nameEnd (store : Store) : Except Abort (List Char) → EStateM.Result Failure Store Value
  | .ok text => .ok (.symbol ("G__" ++ String.ofList text)) store
  | .error reason => .error (.abort reason) store

def generatorEnd (counter : CellId) (store : Store) : EStateM.Result Failure Store Value :=
  let store' := (store.skipIdentity.addFrame []).counted counter
  match successorOf (store.heap.content counter) with
  | .int n => nameEnd store' (numeralText n)
  | v => .ok v store'

def generatorBuiltins : List PlainBuiltin :=
  [.label .symbol, .text .printPlain, .call .swap, .number .add]

/-- What the generator uses has its first meaning in the scope, and the cell is its counter. -/
structure Store.CanGenerate (store : Store) (scope : Scope) (counter : CellId) : Prop where
  counter : store.lookup? scope "*gensym-counter*" = some (.atom counter)
  offers : ∀ op ∈ generatorBuiltins, store.Offers scope op

theorem Store.CanGenerate.isIn (h : store.CanGenerate (.global home) counter) :
    (Scope.global home).IsIn store := (h.offers (.number .add) (by decide)).isIn

theorem Store.HasGenerator.canGenerate (h : store.HasGenerator home counter) :
    store.CanGenerate (.global home) counter :=
  ⟨h.counter, fun op hop => h.offers op (List.mem_of_mem_drop (i := 7) hop)⟩

theorem ends_sum (hadd : store.Offers scope (.number .add))
    (hx : store.lookup? scope "x" = some content) :
    (Task.evaluate successorBody scope).Ends store (.ok (successorOf content) store) := by
  have hone : Evaluated scope [.int 1] store [.int 1] store :=
    .cons (ends_constant rfl) rfl (.nil _)
  cases herror : content.isError with
  | true =>
    have hsame : successorOf content = content := by
      cases content with
      | error => rfl
      | _ => cases herror
    rw [hsame]
    exact hadd.stops hone (ends_symbol hx) herror
  | false =>
    refine hadd.ends_call (hone.append (.cons (ends_symbol hx) herror (.nil _))) fun id home m => ?_
    have hsum : ∀ n : Int, settledEnd (.ok (.int (0 + 1 + n)) store) =
        .ok (successorOf (.int n)) store := fun n => rfl
    have hfault : settledEnd (.error (.fault (.kind (.notNumbers "+"))) store) =
        .ok (.error "All arguments to + must be numbers" none) store := rfl
    cases content with
    | int n =>
      rw [← hsum]
      exact ends_plain not_false fun _ _ => rfl
    | error => cases herror
    | _ =>
      rw [successorOf, ← hfault]
      · exact ends_plain not_false fun _ _ => rfl
      all_goals nofun

theorem successorOf_cases (content : Value) :
    (∃ n, content = .int n) ∨ (successorOf content).isError = true := by
  cases content with
  | int n => exact .inl ⟨n, rfl⟩
  | _ => exact .inr rfl

/-- A call of the successor in a scope that the call does not hide. -/
theorem ends_successor {id : Identity} (hscope : scope.IsIn store)
    (hadd : store.Offers scope (.number .add)) (content : Value) :
    (Task.call (.closure id ⟨["x"], none⟩ successorBody scope false .nil) [content]).Ends store
      (.ok (successorOf content) (store.skipIdentity.addFrame [("x", content)])) := by
  have hbind : Parameters.bind ⟨["x"], none⟩ store.heap.nextIdentity [content] =
      .ok [("x", content)] := rfl
  have hsame : store.skipIdentity.Offers scope (.number .add) := hadd
  have hisIn : scope.IsIn store.skipIdentity := hscope
  exact ends_body (.body rfl hbind) (ends_sum (hsame.nest hscope rfl)
    (Store.lookup?_nest hisIn [("x", content)] "x"))

theorem ends_swap_counter {change : Value} {id : Identity} (hchange : change.isFunction = true)
    (h : Ends (fun limits => CallOp.swapContent limits.runner counter change []) store
      (.ok v store')) :
    (Task.call (.native id (.plain (.call .swap)) home metadata) [.atom counter, change]).Ends store
      (.ok v store') := by
  rw [← mapEnd_id (.ok v store')] at h
  exact ends_swap rfl hchange h

theorem Store.counted_of_number {n : Int} (h : store.heap.content counter = .int n) :
    store.counted counter = (store.asked counter).setCell counter (.int (1 + n)) := by
  rw [Store.counted, h, successorOf]

theorem Store.counted_of_isError
    (h : (successorOf (store.heap.content counter)).isError = true) :
    store.counted counter = store.asked counter := by
  unfold Store.counted
  split
  · next n hn =>
    rw [hn] at h
    cases h
  · rfl

/-- What the evaluation of the arguments of `swap!` ends in. -/
theorem evaluated_counting
    (h : store.lookup? scope "*gensym-counter*" = some (.atom counter)) :
    Evaluated scope [.symbol "*gensym-counter*", successor] store
      [.atom counter, .closure store.heap.nextIdentity ⟨["x"], none⟩ successorBody scope false .nil]
      store.skipIdentity := by
  have hchange : (Task.evaluate successor scope).Ends store
      (.ok (.closure store.heap.nextIdentity ⟨["x"], none⟩ successorBody scope false .nil)
        store.skipIdentity) :=
    Task.ends_of_run (rfl : runTask 1 1 _ store = _) id
  exact .cons (ends_symbol h) rfl (.cons hchange rfl (.nil _))

/-- The counter is set to its successor, unless that is an error value. -/
theorem ends_counted (hscope : scope.IsIn store) (hadd : store.Offers scope (.number .add))
    (hswap : store.Offers scope (.call .swap))
    (hcounter : store.lookup? scope "*gensym-counter*" = some (.atom counter)) :
    (Task.evaluate countingForm scope).Ends store
      (.ok (successorOf (store.heap.content counter)) (store.counted counter)) := by
  have hcall : (Task.call (.closure store.heap.nextIdentity ⟨["x"], none⟩ successorBody scope false
      .nil) [store.heap.content counter]).Ends store.skipIdentity
      (.ok (successorOf (store.heap.content counter)) (store.asked counter)) := by
    have hisIn : scope.IsIn store.skipIdentity := hscope
    exact ends_successor hisIn hadd _
  refine hswap.ends_call (evaluated_counting hcounter) fun _ _ _ => ends_swap_counter rfl ?_
  rcases successorOf_cases (store.heap.content counter) with ⟨n, hn⟩ | herror
  · rw [Store.counted_of_number hn]
    have hvalue : successorOf (store.heap.content counter) = .int (1 + n) :=
      congrArg successorOf hn
    rw [hvalue] at hcall ⊢
    exact swapContent_ends hcall rfl
  · rw [Store.counted_of_isError herror]
    have hchanged : (Task.call _ (store.skipIdentity.heap.content counter :: [])).Ends _ _ := hcall
    exact swapContent_stops hchanged (Stops.isError herror)

theorem printJoined_generated (heap : Heap) (n : Int) :
    printJoined heap false "" [.str "G__", .int n] =
      (numeralText n).map fun text => "G__" ++ String.ofList text := by
  rw [printJoined, Value.renderAll, Value.renderAll, Value.renderAll, Value.render, Value.render]
  cases numeralText n with
  | error reason => rfl
  | ok text =>
    have hjoined : String.ofList ("".toList.intercalate ["G__".toList, text]) =
        "G__" ++ String.ofList text := by
      rw [← String.toList_inj]
      simp
    exact congrArg Except.ok hjoined

theorem evaluated_heading : Evaluated scope [.str "G__"] store [.str "G__"] store :=
  .cons (ends_constant rfl) rfl (.nil _)

theorem not_exhausted_nameEnd (store : Store) (n : Int) :
    ¬ Exhausted (nameEnd store (numeralText n)) := by
  cases h : numeralText n with
  | ok text => exact id
  | error reason =>
    have hprinting := numeralText_gives_up n reason h
    cases reason with
    | exhausted => exact hprinting.elim
    | _ => exact id

/-- The name of a number, once the number has been computed. -/
theorem ends_named {form : Value} {n : Int} (hsymbol : store.Offers scope (.label .symbol))
    (hstr : store.Offers scope (.text .printPlain))
    (hform : (Task.evaluate form scope).Ends store (.ok (.int n) store')) :
    (Task.evaluate (.ofList [.symbol "symbol", .ofList [.symbol "str", .str "G__", form]])
      scope).Ends store (nameEnd store' (numeralText n)) := by
  have hall := evaluated_heading.append (.cons hform rfl (.nil _))
  have hprinted : ∀ run home, PlainBuiltin.apply run home (.text .printPlain)
      [.str "G__", .int n] store' = mapEnd .done (match numeralText n with
        | .ok text => .ok (.str ("G__" ++ String.ofList text)) store'
        | .error reason => .error (.abort reason) store') := by
    intro run home
    simp only [PlainBuiltin.apply, TextOp.apply, EvalM.printAll, bind_assoc]
    rw [EvalM.get_bind, printJoined_generated]
    cases numeralText n with
    | ok text => rfl
    | error reason => rfl
  have hfinal := not_exhausted_nameEnd store' n
  cases hnumeral : numeralText n with
  | ok text =>
    rw [hnumeral] at hprinted
    exact hsymbol.ends (.cons (hstr.ends hall hprinted) rfl (.nil _)) fun _ _ => rfl
  | error reason =>
    rw [hnumeral] at hprinted hfinal
    exact hsymbol.stops (.nil _) (hstr.ends_call hall fun _ _ _ => ends_plain hfinal hprinted)
      trivial

theorem generatorEnd_of_number {n : Int} (h : store.heap.content counter = .int n) :
    generatorEnd counter store =
      nameEnd ((store.skipIdentity.addFrame []).counted counter) (numeralText (1 + n)) := by
  rw [generatorEnd, h, successorOf]

theorem generatorEnd_of_isError
    (h : (successorOf (store.heap.content counter)).isError = true) :
    generatorEnd counter store = .ok (successorOf (store.heap.content counter))
      ((store.skipIdentity.addFrame []).counted counter) := by
  unfold generatorEnd
  dsimp only
  split
  · next n hn =>
    rw [hn] at h
    cases h
  · rfl

theorem Store.CanGenerate.nest (h : store.CanGenerate (.global home) counter) :
    (store.skipIdentity.addFrame []).CanGenerate ((Scope.global home).nest store.nextFrame)
      counter := by
  have hscope : (Scope.global home).IsIn store.skipIdentity := h.isIn
  refine ⟨(Store.lookup?_nest hscope [] _).trans h.counter, fun op hop => ?_⟩
  have hsame : store.skipIdentity.Offers (.global home) op := h.offers op hop
  exact hsame.nest hscope rfl

/-- The body of the generator ends as `generatorEnd` says, whatever the counter holds. -/
theorem Store.CanGenerate.ends_body (h : store.CanGenerate (.global home) counter) :
    (Task.evaluate generatorBody ((Scope.global home).nest store.nextFrame)).Ends
      (store.skipIdentity.addFrame []) (generatorEnd counter store) := by
  have hscope : (Scope.global home).IsIn store.skipIdentity := h.isIn
  have hinner := hscope.nest []
  have hnested := h.nest
  have hsymbol := hnested.offers (.label .symbol) (by decide)
  have hstr := hnested.offers (.text .printPlain) (by decide)
  have hcounted := ends_counted hinner (hnested.offers (.number .add) (by decide))
    (hnested.offers (.call .swap) (by decide)) hnested.counter
  rcases successorOf_cases (store.heap.content counter) with ⟨n, hn⟩ | herror
  · have hnumber : (Task.evaluate countingForm ((Scope.global home).nest store.nextFrame)).Ends
        (store.skipIdentity.addFrame [])
        (.ok (.int (1 + n)) ((store.skipIdentity.addFrame []).counted counter)) := by
      have hsame : successorOf ((store.skipIdentity.addFrame []).heap.content counter) =
          .int (1 + n) := congrArg successorOf hn
      rw [← hsame]
      exact hcounted
    rw [generatorEnd_of_number hn]
    exact ends_named hsymbol hstr hnumber
  · rw [generatorEnd_of_isError herror]
    exact hsymbol.stops (.nil _) (hstr.stops evaluated_heading hcounted herror) herror

/-- The generator ends as `generatorEnd` says, whatever its counter holds. -/
theorem Store.HasGenerator.ends (h : store.HasGenerator home counter) {id : Identity} :
    (Task.call (.closure id ⟨[], none⟩ generatorBody (.global home) false metadata) []).Ends store
      (generatorEnd counter store) :=
  ends_body (.body rfl rfl) h.canGenerate.ends_body

/-- What is generated is a name. Otherwise the end is that of every evaluation around it. -/
theorem generatorEnd_cases (counter : CellId) (store : Store) :
    (∃ name store', generatorEnd counter store = .ok (.symbol name) store') ∨
      Stops (generatorEnd counter store) := by
  rcases successorOf_cases (store.heap.content counter) with ⟨n, hn⟩ | herror
  · rw [generatorEnd_of_number hn]
    cases numeralText (1 + n) with
    | ok text => exact .inl ⟨_, _, rfl⟩
    | error reason => exact .inr trivial
  · rw [generatorEnd_of_isError herror]
    exact .inr herror

theorem Store.frames_counted (counter : CellId) (store : Store) :
    (store.counted counter).frames =
      (store.addFrame [("x", store.heap.content counter)]).frames := by
  unfold Store.counted
  split
  · rfl
  · rfl

/-- The generator leaves all frames as they are, and adds those of its calls. -/
theorem generatorEnd_frames (h : generatorEnd counter store = .ok v store') :
    store'.frames =
      ((store.addFrame []).addFrame [("x", store.heap.content counter)]).frames := by
  have hcounted := Store.frames_counted counter (store.skipIdentity.addFrame [])
  rcases successorOf_cases (store.heap.content counter) with ⟨n, hn⟩ | herror
  · rw [generatorEnd_of_number hn] at h
    cases hnumeral : numeralText (1 + n) with
    | ok text =>
      rw [hnumeral] at h
      cases h
      exact hcounted
    | error reason =>
      rw [hnumeral] at h
      cases h
  · rw [generatorEnd_of_isError herror] at h
    cases h
    exact hcounted

theorem generatorEnd_lookup? (h : generatorEnd counter store = .ok v store')
    (hscope : scope.IsIn store) (name : String) :
    store'.lookup? scope name = store.lookup? scope name := by
  rw [Store.lookup?_of_frames (generatorEnd_frames h), Store.lookup?_addFrame (hscope.addFrame []),
    Store.lookup?_addFrame hscope]

theorem generatorEnd_nextFrame_le (h : generatorEnd counter store = .ok v store') :
    store.nextFrame ≤ store'.nextFrame := by
  have hsize := congrArg Array.size (generatorEnd_frames h)
  simp only [Store.addFrame, Array.size_push] at hsize
  have hle : store.frames.size ≤ store'.frames.size := by omega
  exact hle

/-- A name comes from a number, and the counter has been set to it. -/
theorem generatorEnd_eq_name {name : String}
    (h : generatorEnd counter store = .ok (.symbol name) store') :
    ∃ n text, store.heap.content counter = .int n ∧ numeralText (1 + n) = .ok text ∧
      name = "G__" ++ String.ofList text ∧
      store' = (store.skipIdentity.addFrame []).counted counter := by
  rcases successorOf_cases (store.heap.content counter) with ⟨n, hn⟩ | herror
  · rw [generatorEnd_of_number hn] at h
    cases hnumeral : numeralText (1 + n) with
    | ok text =>
      rw [hnumeral] at h
      cases h
      exact ⟨n, text, hn, hnumeral, rfl, rfl⟩
    | error reason =>
      rw [hnumeral] at h
      cases h
  · rw [generatorEnd_of_isError herror] at h
    injection h with hv
    rw [hv] at herror
    cases herror

theorem exists_numeralText_digit {n : Int} (h : n.natAbs < 10) :
    ∃ text, numeralText n = .ok text := by
  have hlimit : Text.digitLimit ≠ 0 := by decide
  rw [exists_numeralText_iff]
  unfold Text.numeralBound
  generalize Text.digitLimit = limit at hlimit ⊢
  exact Nat.lt_of_lt_of_le h (Nat.le_self_pow hlimit 10)

theorem lt_nextCell_of_number {n : Int} (h : store.heap.content counter = .int n) :
    counter < store.heap.nextCell := by
  refine Nat.lt_of_not_le fun hle => ?_
  rw [Heap.content_of_size_le hle] at h
  cases h

/-- A number that can be written makes a name, and is what the counter holds after that. -/
theorem exists_generatorEnd {n : Int} {text : List Char}
    (hcontent : store.heap.content counter = .int n) (hnumeral : numeralText (1 + n) = .ok text) :
    ∃ store', generatorEnd counter store = .ok (.symbol ("G__" ++ String.ofList text)) store' ∧
      store'.heap.content counter = .int (1 + n) := by
  refine ⟨_, by rw [generatorEnd_of_number hcontent, hnumeral, nameEnd], ?_⟩
  have hopened : (store.skipIdentity.addFrame []).heap.content counter = .int n := hcontent
  rw [Store.counted_of_number hopened]
  exact Heap.content_setCell_self (lt_nextCell_of_number hcontent) _

end SmallLisp
