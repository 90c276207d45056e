import SmallLisp.Proofs.PartsInOrder

/-! # What evaluations do to the store

Apart from writing cells, the operations of an evaluation only add something to the store. So
whatever additions keep, every step of every task keeps between its parts, unless it writes a cell.
-/
namespace SmallLisp

inductive Store.Change : Store → Store → Prop where
  | addFrame (store : Store) (frame : Frame) : Change store (store.addFrame frame)
  | define (store : Store) (id : FrameId) (name : String) (v : Value) :
      Change store (store.define id name v)
  | addCell (store : Store) (content : Value) : Change store (store.addCell content)
  | skipIdentity (store : Store) : Change store store.skipIdentity
  | write (store : Store) (text : String) : Change store (store.write text)
  | skipReply (store : Store) : Change store store.skipReply

/-- A relation between earlier and later stores that additions keep. -/
class Store.Lasting (R : Store → Store → Prop) : Prop extends Store.Order R where
  change : ∀ {store store'}, store.Change store' → R store store'

variable {R : Store → Store → Prop} [Store.Lasting R] {scope : Scope}

theorem proceeds_modify {g : Store → Store} (h : ∀ store : Store, store.Change (g store)) :
    Proceeds R fun _ => (modify g : EvalM PUnit) :=
  fun _ store => proceedsFrom_free (Store.Lasting.change (h store))

namespace EvalM

theorem proceeds_openScope (outer : Scope) (bindings : List (String × Value)) :
    Proceeds R fun _ => openScope outer bindings :=
  proceeds_get.bind fun _ => (proceeds_modify fun store => .addFrame store _).bind fun _ =>
    proceeds_pure _

theorem proceeds_define (scope : Scope) (name : String) (v : Value) :
    Proceeds R fun _ => define scope name v :=
  proceeds_modify fun store => .define store _ _ _

theorem proceeds_newIdentity : Proceeds R fun _ => newIdentity :=
  proceeds_get.bind fun _ => (proceeds_modify fun store => .skipIdentity store).bind fun _ =>
    proceeds_pure _

theorem proceeds_identify (v : Value) : Proceeds R fun _ => identify v := by
  unfold identify
  split
  · exact proceeds_newIdentity.bind fun _ => proceeds_pure _
  · exact proceeds_pure v

theorem proceeds_newList (items : List Value) : Proceeds R fun _ => newList items :=
  proceeds_newIdentity.bind fun _ => proceeds_pure _

theorem proceeds_write (text : String) : Proceeds R fun _ => write text := by
  refine proceeds_get.bind fun store => ?_
  dsimp only
  split
  · exact proceeds_throw _
  · exact proceeds_modify fun store => .write store text

theorem proceeds_readLine : Proceeds R fun _ => readLine := by
  refine proceeds_get.bind fun store => ?_
  refine (proceeds_modify fun store => .skipReply store).bind fun _ => ?_
  cases store.console.reply with
  | line text => exact proceeds_pure _
  | ended => exact proceeds_pure _
  | failed fault => exact proceeds_throw _

end EvalM

open EvalM

theorem proceeds_mapItems (function : Value) (items : List Value) :
    Proceeds R fun run => mapItems run function items := by
  induction items with
  | nil => exact proceeds_pure _
  | cons item items ih =>
    refine (proceeds_run _).bind fun v => ?_
    split
    · exact proceeds_pure _
    · refine ih.bind fun r => ?_
      cases r with
      | error e => exact proceeds_pure _
      | ok vs => exact proceeds_pure _

theorem proceeds_evaluateAll (forms : List Value) :
    Proceeds R fun run => evaluateAll run scope forms := by
  induction forms with
  | nil => exact proceeds_pure _
  | cons form forms ih =>
    refine (proceeds_run _).bind fun v => ?_
    split
    · exact proceeds_pure _
    · refine ih.bind fun r => ?_
      cases r with
      | error e => exact proceeds_pure _
      | ok vs => exact proceeds_pure _

theorem proceeds_expandFully (steps : Nat) (form : Value) :
    Proceeds R fun run => expandFully run scope steps form := by
  induction steps generalizing form with
  | zero => exact proceeds_throw _
  | succ steps ih =>
    refine proceeds_get.bind fun store => ?_
    split
    · exact proceeds_pure _
    · refine (proceeds_run _).bind fun expanded => ?_
      split
      · exact proceeds_pure _
      · exact ih expanded

theorem TextOp.proceeds_apply (op : TextOp) (arguments : List Value) :
    Proceeds R fun _ => op.apply arguments := by
  cases op with
  | printReadable => exact (proceeds_printAll _ _ _).bind fun _ => proceeds_pure _
  | printPlain => exact (proceeds_printAll _ _ _).bind fun _ => proceeds_pure _
  | printLineReadable =>
    exact (proceeds_printAll _ _ _).bind fun _ => (proceeds_write _).bind fun _ => proceeds_pure _
  | printLinePlain =>
    exact (proceeds_printAll _ _ _).bind fun _ => (proceeds_write _).bind fun _ => proceeds_pure _
  | readForm =>
    refine (proceeds_ofFault _).bind fun v => (proceeds_ofFault _).bind fun source => ?_
    unfold readData
    split
    · exact proceeds_pure _
    · exact proceeds_errorOf _
    · exact proceeds_throw _
  | readFile =>
    refine (proceeds_ofFault _).bind fun v => (proceeds_ofFault _).bind fun text =>
      Proceeds.bind ?_ fun _ => proceeds_pure _
    unfold readFileText
    split
    · exact (proceeds_throw _).bind fun _ => proceeds_get.bind fun _ => by
        split
        · exact proceeds_ofAbort _
        · exact proceeds_throw _
    · exact proceeds_get.bind fun _ => by
        split
        · exact proceeds_ofAbort _
        · exact proceeds_throw _
  | readLine =>
    refine (proceeds_ofFault _).bind fun v => (proceeds_ofFault _).bind fun prompt =>
      (proceeds_write prompt).bind fun _ => proceeds_readLine.bind fun line => ?_
    cases line with
    | none => exact proceeds_pure _
    | some line => exact proceeds_pure _

theorem StateOp.proceeds_withMetadataOf (v metadata : Value) :
    Proceeds R fun _ => withMetadataOf v metadata := by
  unfold withMetadataOf
  split
  · exact proceeds_newIdentity.bind fun _ => proceeds_pure _
  · exact proceeds_newIdentity.bind fun _ => proceeds_pure _
  · exact proceeds_pure _
  · exact proceeds_newIdentity.bind fun _ => proceeds_pure _
  · exact proceeds_newIdentity.bind fun _ => proceeds_pure _
  · exact proceeds_throw _

theorem StateOp.proceeds_apply {op : StateOp} (h : op ≠ .reset) (arguments : List Value) :
    Proceeds R fun _ => op.apply arguments := by
  cases op with
  | atom =>
    exact (proceeds_ofFault _).bind fun _ => proceeds_get.bind fun _ =>
      (proceeds_modify fun store => .addCell store _).bind fun _ => proceeds_pure _
  | deref =>
    exact (proceeds_ofFault _).bind fun _ => (proceeds_ofFault _).bind fun _ =>
      proceeds_get.bind fun _ => proceeds_pure _
  | reset => exact absurd rfl h
  | withMetadata => exact (proceeds_ofFault _).bind fun r => proceeds_withMetadataOf r.1 r.2
  | throwValue =>
    exact (proceeds_ofFault _).bind fun _ => (proceeds_get.bind fun _ => proceeds_ofAbort _).bind
      fun _ => proceeds_throw _
  | time =>
    unfold apply
    dsimp only
    split
    · exact proceeds_get.bind fun _ => proceeds_pure _
    · exact proceeds_throw _

/-! ## Writing cells -/

inductive Callee.Writes (run : Runner) :
    Callee → List Value → Store → CellId → Value → Store → Prop where
  | reset {home : FrameId} {cell : CellId} {v : Value} {store : Store} :
      Writes run (.builtin (.state .reset) home) [.atom cell, v] store cell v store
  | swap {home : FrameId} {cell : CellId} {function v : Value} {rest : List Value}
      {store store' : Store} (hfunction : function.isFunction = true)
      (hcall : run (.call function (store.heap.content cell :: rest)) store = .ok v store')
      (hv : v.isError = false) :
      Writes run (.builtin (.call .swap) home) (.atom cell :: function :: rest) store cell v store'

variable {run : Runner} {store store' : Store}

theorem ofFault_eq_ok {α : Type} {y : Except Fault α} {a : α}
    (h : EvalM.ofFault y store = .ok a store') : y = .ok a ∧ store' = store := by
  cases y with
  | ok b =>
    cases h
    exact ⟨rfl, rfl⟩
  | error f => cases h

/-- After a check that fails or has a result, what follows may take the result for granted. -/
theorem proceedsFrom_ofFault {α β : Type} {y : Except Fault α} {f : Runner → α → EvalM β}
    (h : ∀ a, y = .ok a → ProceedsFrom R (fun run => f run a) run store) :
    ProceedsFrom R (fun run => EvalM.ofFault y >>= f run) run store := by
  refine (proceeds_ofFault y run store).bind fun a store' hok => ?_
  obtain ⟨hy, rfl⟩ := ofFault_eq_ok hok
  exact h a hy

theorem twoArguments_eq_ok {name : String} {arguments : List Value} {r : Value × Value}
    (h : twoArguments name arguments = .ok r) : arguments = [r.1, r.2] := by
  unfold twoArguments at h
  split at h
  · cases h
    rfl
  · cases h

theorem expectAtom_eq_ok {name : String} {v : Value} {cell : CellId}
    (h : expectAtom name v = .ok cell) : v = .atom cell := by
  unfold expectAtom at h
  split at h
  · cases h
    rfl
  · cases h

theorem expectFunction_eq_ok {name : String} {v : Value} {u : Unit}
    (h : expectFunction name v = .ok u) : v.isFunction = true := by
  unfold expectFunction at h
  split at h
  · next hfunction => exact hfunction
  · cases h

theorem proceedsFrom_reset {arguments : List Value}
    (hwrite : ∀ cell v, arguments = [.atom cell, v] → R store (store.setCell cell v)) :
    ProceedsFrom R (fun _ => StateOp.apply .reset arguments) run store := by
  refine proceedsFrom_ofFault fun r hr => proceedsFrom_ofFault fun cell hcell => ?_
  have harguments := twoArguments_eq_ok hr
  rw [expectAtom_eq_ok hcell] at harguments
  exact proceedsFrom_free (hwrite cell r.2 harguments)

theorem proceedsFrom_swapContent {cell : CellId} {function : Value} {rest : List Value}
    (hwrite : ∀ v store', run (.call function (store.heap.content cell :: rest)) store =
      .ok v store' → v.isError = false → R store' (store'.setCell cell v)) :
    ProceedsFrom R (fun run => CallOp.swapContent run cell function rest) run store := by
  refine ((proceeds_get run store).bind fun store₁ _ hget => ?_)
  cases hget
  refine (proceeds_run _ run store).bind fun v store' hcall => ?_
  split
  · exact proceeds_pure _ run store'
  · next hv => exact proceedsFrom_free (hwrite v store' hcall (Bool.eq_false_iff.mpr hv))

theorem CallOp.proceedsFrom_apply {home : FrameId} {op : CallOp} {arguments : List Value}
    (hwrite : ∀ cell v store', Callee.Writes run (.builtin (.call op) home) arguments store cell v
      store' → R store' (store'.setCell cell v)) :
    ProceedsFrom R (fun run => op.apply run home arguments) run store := by
  cases op with
  | map =>
    have hmap : Proceeds R fun run => CallOp.apply run home .map arguments := by
      refine (proceeds_ofFault _).bind fun r => (proceeds_ofFault _).bind fun _ =>
        (proceeds_ofFault _).bind fun items => (proceeds_mapItems r.1 items).bind fun r => ?_
      cases r with
      | error e => exact proceeds_pure _
      | ok vs => exact (proceeds_identify _).bind fun _ => proceeds_pure _
    exact hmap run store
  | swap =>
    match arguments with
    | [] => exact proceeds_throw _ run store
    | [_] => exact proceeds_throw _ run store
    | v :: function :: rest =>
      refine proceedsFrom_ofFault fun cell hcell => proceedsFrom_ofFault fun _ hfunction => ?_
      rw [expectAtom_eq_ok hcell] at hwrite
      refine (proceedsFrom_swapContent fun v store' hcall hv => ?_).bind fun v store' _ =>
        proceeds_pure _ run store'
      exact hwrite cell v store' (.swap (expectFunction_eq_ok hfunction) hcall hv)
  | eval =>
    have heval : Proceeds R fun run => CallOp.apply run home .eval arguments :=
      (proceeds_ofFault _).bind fun _ => proceeds_pure _
    exact heval run store

theorem PlainBuiltin.proceedsFrom_apply {home : FrameId} {op : PlainBuiltin}
    {arguments : List Value} (hwrite : ∀ cell v store', Callee.Writes run (.builtin op home)
      arguments store cell v store' → R store' (store'.setCell cell v)) :
    ProceedsFrom R (fun run => op.apply run home arguments) run store := by
  have hfree : ∀ y : Except Fault Value, Proceeds R fun _ => do
      return Step.done (← EvalM.ofFault y) :=
    fun y => (proceeds_ofFault y).bind fun _ => proceeds_pure _
  cases op with
  | number op => exact hfree _ run store
  | test op => exact hfree _ run store
  | label op => exact hfree _ run store
  | collection op =>
    refine proceedsFrom_ofFault fun v _ => ?_
    dsimp only
    split
    · exact (proceeds_pure v).bind (fun _ => proceeds_pure _) run store
    · exact (proceeds_identify v).bind (fun _ => proceeds_pure _) run store
  | text op => exact (op.proceeds_apply arguments).bind (fun _ => proceeds_pure _) run store
  | state op =>
    by_cases hop : op = .reset
    · subst hop
      refine ProceedsFrom.bind (proceedsFrom_reset ?_) fun _ store' _ => proceeds_pure _ run store'
      rintro cell v rfl
      exact hwrite cell v store .reset
    · exact (StateOp.proceeds_apply hop arguments).bind (fun _ => proceeds_pure _) run store
  | call op => exact op.proceedsFrom_apply hwrite

theorem Callee.proceedsFrom_enter {callee : Callee} {arguments : List Value}
    (hwrite : ∀ cell v store', callee.Writes run arguments store cell v store' →
      R store' (store'.setCell cell v)) :
    ProceedsFrom R (fun run => callee.enter run arguments) run store := by
  cases callee with
  | builtin op home => exact op.proceedsFrom_apply hwrite
  | body parameters form scope =>
    have hbody : Proceeds R fun run => (Callee.body parameters form scope).enter run arguments :=
      proceeds_newIdentity.bind fun _ => (proceeds_ofFault _).bind fun _ =>
        (proceeds_openScope _ _).bind fun _ => proceeds_pure _
    exact hbody run store

theorem proceedsFrom_applyFunction {function : Value} {arguments : List Value}
    (hwrite : ∀ callee vs cell v store', Callee.ofCall function arguments = .ok (callee, vs) →
      callee.Writes run vs store cell v store' → R store' (store'.setCell cell v)) :
    ProceedsFrom R (fun run => applyFunction run function arguments) run store :=
  (proceedsFrom_ofFault fun r hr =>
    r.1.proceedsFrom_enter fun cell v store' => hwrite r.1 r.2 cell v store' hr).settle

mutual

theorem proceeds_expandTemplate : ∀ form : Value,
    Proceeds R fun _ => expandTemplate form
  | .list items metadata identity => proceeds_expandItems true (.list items metadata identity) items
  | .vector items metadata identity =>
    proceeds_expandItems false (.vector items metadata identity) items
  | .nil | .bool _ | .int _ | .str _ | .symbol _ | .keyword _ | .table _ _ | .atom _
  | .native _ _ _ _ | .closure _ _ _ _ _ _ | .error _ _ => proceeds_newList _
termination_by structural x => x

theorem proceeds_expandItems (isList : Bool) (empty : Value) :
    ∀ items : List Value,
    Proceeds R fun _ => expandItems isList empty items
  | [] => proceeds_newList _
  | head :: tail => by
    have htail := proceeds_expandItems true (.ofList []) tail
    rw [expandItems]
    split
    · exact proceeds_ofFault _
    · split
      · exact (proceeds_ofFault _).bind fun _ => htail.bind fun _ => proceeds_newList _
      · exact (proceeds_expandTemplate head).bind fun _ => htail.bind fun _ => proceeds_newList _
termination_by structural x => x

end

namespace SpecialForm

theorem proceeds_definition (form : SpecialForm) (parts : List Value) :
    Proceeds R fun run => definition run form parts scope := by
  unfold definition
  split
  · exact (proceeds_run _).bind fun _ => proceeds_pure _
  · exact proceeds_throw _
  · exact proceeds_throw _

theorem proceeds_bindInOrder (bindings : List Value) :
    Proceeds R fun run => bindInOrder run scope bindings := by
  induction bindings using bindInOrder.induct with
  | case1 expression rest bound ih =>
    refine (proceeds_run _).bind fun v => ?_
    split
    · exact proceeds_pure _
    · exact (proceeds_define _ _ _).bind fun _ => ih
  | case2 name expression rest hname =>
    have hfault : ∀ run : Runner, bindInOrder run scope (name :: expression :: rest) =
        EvalM.fault (.kind (.boundNotSymbol name)) := fun run => by
      rw [bindInOrder]
      exact hname
    simp only [hfault]
    exact proceeds_throw _
  | case3 bindings hne =>
    have hnone : ∀ run : Runner, bindInOrder run scope bindings = pure none := fun run => by
      rw [bindInOrder]
      exact hne
    simp only [hnone]
    exact proceeds_pure _

theorem proceeds_evaluateSequence (forms : List Value) :
    Proceeds R fun run => evaluateSequence run scope forms := by
  induction forms using evaluateSequence.induct with
  | case1 => exact proceeds_pure _
  | case2 form => exact proceeds_pure _
  | case3 form forms hne ih =>
    have hcons : ∀ run : Runner, evaluateSequence run scope (form :: forms) =
        run (.evaluate form scope) >>= fun v =>
          if v.isError then pure (.done v) else evaluateSequence run scope forms := fun run => by
      rw [evaluateSequence]
      exact hne
    simp only [hcons]
    refine (proceeds_run _).bind fun v => ?_
    split
    · exact proceeds_pure _
    · exact ih

theorem proceeds_letIn (bindings body : List Value) :
    Proceeds R fun run => (openScope scope [] >>= fun inner =>
      bindInOrder run inner bindings >>= fun r =>
        match r with
        | some e => pure (.done e)
        | none => pure (.tail (bodyOf body) inner) : EvalM Step) := by
  refine (proceeds_openScope _ _).bind fun inner => (proceeds_bindInOrder _).bind fun r => ?_
  cases r with
  | none => exact proceeds_pure _
  | some e => exact proceeds_pure _

theorem proceeds_branch (condition consequence : Value)
    (alternative : Option Value) :
    Proceeds R fun run => (run (.evaluate condition scope) >>= fun v =>
      if v.isError then pure (.done v)
      else if v.isTruthy then pure (.tail consequence scope)
      else match alternative with
        | some form => pure (.tail form scope)
        | none => pure (.done .nil) : EvalM Step) := by
  refine (proceeds_run _).bind fun v => ?_
  split
  · exact proceeds_pure _
  · split
    · exact proceeds_pure _
    · cases alternative with
      | none => exact proceeds_pure _
      | some form => exact proceeds_pure _

theorem proceeds_evaluateGuarded (form : Value) (caught : String)
    (handler : Value) : Proceeds R fun run => evaluateGuarded run form caught handler scope := by
  have hguarded : Proceeds R fun run => EvalM.catchThrown (run (.evaluate form scope)) :=
    fun run store => (proceeds_run _ run store).catchThrown
  refine hguarded.bind fun r => ?_
  split
  · exact (proceeds_openScope _ _).bind fun _ => proceeds_pure _
  · exact proceeds_pure _
  · exact (proceeds_openScope _ _).bind fun _ => proceeds_pure _

theorem proceeds_evaluate (steps : Nat) (form : SpecialForm)
    (parts : List Value) : Proceeds R fun run => form.evaluate steps run parts scope := by
  cases form with
  | define =>
    refine (proceeds_definition define parts).bind fun r => ?_
    dsimp only
    split
    · exact proceeds_pure _
    · exact (proceeds_define _ _ _).bind fun _ => proceeds_pure _
  | defineExpander =>
    refine (proceeds_definition defineExpander parts).bind fun r => ?_
    dsimp only
    split
    · exact proceeds_pure _
    · exact proceeds_newIdentity.bind fun _ => (proceeds_define _ _ _).bind fun _ => proceeds_pure _
    · exact proceeds_throw _
  | letIn =>
    unfold evaluate
    dsimp only
    split
    · exact proceeds_throw _
    · split
      · exact proceeds_letIn _ _
      · exact proceeds_throw _
    · split
      · exact proceeds_letIn _ _
      · exact proceeds_throw _
    · exact proceeds_throw _
  | sequence => exact proceeds_evaluateSequence parts
  | branch =>
    unfold evaluate
    dsimp only
    split
    · exact proceeds_branch _ _ none
    · exact proceeds_branch _ _ (some _)
    · exact proceeds_throw _
  | function =>
    unfold evaluate
    dsimp only
    split
    · exact proceeds_throw _
    · exact (proceeds_ofFault _).bind fun _ => proceeds_newIdentity.bind fun _ => proceeds_pure _
  | quote => exact (proceeds_ofFault _).bind fun _ => proceeds_pure _
  | quasiquote =>
    exact (proceeds_ofFault _).bind fun _ =>
      (proceeds_expandTemplate _).bind fun _ => proceeds_pure _
  | quasiquoteExpand =>
    exact (proceeds_ofFault _).bind fun _ =>
      (proceeds_expandTemplate _).bind fun _ => proceeds_pure _
  | expand =>
    exact (proceeds_ofFault _).bind fun _ => (proceeds_expandFully steps _).bind fun _ =>
      proceeds_pure _
  | attempt =>
    unfold evaluate
    dsimp only
    split
    · exact proceeds_pure _
    · exact (proceeds_ofFault _).bind fun r => proceeds_evaluateGuarded _ r.1 r.2
    · exact proceeds_throw _

end SpecialForm

/-! ## The evaluator -/

inductive Task.Applies (run : Runner) : Task → Store → Callee → List Value → Store → Prop where
  | call {function : Value} {arguments vs : List Value} {callee : Callee} {store : Store}
      (hcallee : Callee.ofCall function arguments = .ok (callee, vs)) :
      Applies run (.call function arguments) store callee vs store
  | evaluate {head function metadata : Value} {arguments vs vs' : List Value} {callee : Callee}
      {identity : Option Identity} {scope : Scope} {store store' store'' : Store}
      (hspecial : specialForm? head = none)
      (hexpansion :
        expansionOf? store scope (.list (head :: arguments) metadata identity) = none)
      (hhead : run (.evaluate head scope) store = .ok function store')
      (harguments : evaluateAll run scope arguments store' = .ok (.ok vs) store'')
      (hfunction : function.isFunction = true)
      (hcallee : Callee.ofCall function vs = .ok (callee, vs')) :
      Applies run (.evaluate (.list (head :: arguments) metadata identity) scope) store callee vs'
        store''

def Task.Writes (run : Runner) (task : Task) (store : Store) (cell : CellId) (v : Value)
    (store' : Store) : Prop :=
  ∃ callee vs store₀, task.Applies run store callee vs store₀ ∧
    callee.Writes run vs store₀ cell v store'

theorem proceedsFrom_stepCall {head metadata : Value} {arguments : List Value}
    {identity : Option Identity} (hspecial : specialForm? head = none)
    (hexpansion : expansionOf? store scope (.list (head :: arguments) metadata identity) = none)
    (hwrite : ∀ cell v store', Task.Writes run
      (.evaluate (.list (head :: arguments) metadata identity) scope) store cell v store' →
      R store' (store'.setCell cell v)) :
    ProceedsFrom R (fun run => stepCall run head arguments scope) run store := by
  refine (proceeds_run _ run store).bind fun function store₁ hhead => ?_
  split
  · exact proceeds_pure _ run store₁
  · refine (proceeds_evaluateAll arguments run store₁).bind fun r store₂ harguments => ?_
    cases r with
    | error e => exact proceeds_pure _ run store₂
    | ok vs =>
      dsimp only
      split
      · next hfunction =>
        refine proceedsFrom_applyFunction fun callee vs' cell v store' hcallee hwrites => ?_
        exact hwrite cell v store' ⟨callee, vs', store₂,
          .evaluate hspecial hexpansion hhead harguments hfunction hcallee, hwrites⟩
      · have hprinted : Proceeds R fun _ => do
            return Step.done (.error ((← EvalM.print true function) ++ " is not a function") none) :=
          (proceeds_get.bind fun _ => proceeds_ofAbort _).bind fun _ => proceeds_pure _
        exact hprinted run store₂

theorem proceedsFrom_stepList {steps : Nat} {head metadata : Value} {tail : List Value}
    {identity : Option Identity}
    (hwrite : ∀ cell v store', Task.Writes run
      (.evaluate (.list (head :: tail) metadata identity) scope) store cell v store' →
      R store' (store'.setCell cell v)) :
    ProceedsFrom R (fun run =>
      stepList steps run (.list (head :: tail) metadata identity) head tail scope) run store := by
  unfold stepList
  split
  · next special _ => exact (special.proceeds_evaluate steps tail run store).settle
  · next hspecial =>
    refine (proceeds_get run store).bind fun store₁ _ hget => ?_
    cases hget
    split
    · refine (proceeds_run _ run store).bind fun expanded store' _ => ?_
      split
      · exact proceeds_pure _ run store'
      · exact proceeds_pure _ run store'
    · next hexpansion => exact proceedsFrom_stepCall hspecial hexpansion hwrite

/-- A step keeps the relation between its parts, if what it writes to cells does. -/
theorem Task.proceedsFrom_step {steps : Nat} {task : Task}
    (hwrite : ∀ cell v store', task.Writes run store cell v store' →
      R store' (store'.setCell cell v)) :
    ProceedsFrom R (fun run => task.step steps run) run store := by
  cases task with
  | call function arguments =>
    refine proceedsFrom_applyFunction fun callee vs cell v store' hcallee hwrites => ?_
    exact hwrite cell v store' ⟨callee, vs, store, .call hcallee, hwrites⟩
  | evaluate form scope =>
    unfold Task.step stepForm
    dsimp only
    split
    · refine (proceeds_get run store).bind fun store₁ _ hget => ?_
      cases hget
      split
      · exact proceeds_pure _ run store
      · exact (proceeds_errorOf _).bind (fun _ => proceeds_pure _) run store
    · exact proceedsFrom_stepList hwrite
    · refine (proceeds_evaluateAll _ run store).bind fun r store₁ _ => ?_
      cases r with
      | error e => exact proceeds_pure _ run store₁
      | ok vs => exact (proceeds_identify _).bind (fun _ => proceeds_pure _) run store₁
    · refine (proceeds_evaluateAll _ run store).bind fun r store₁ _ => ?_
      cases r with
      | error e => exact proceeds_pure _ run store₁
      | ok vs => exact (proceeds_ofFault _).bind (fun _ => proceeds_pure _) run store₁
    · exact proceeds_pure _ run store

end SmallLisp
