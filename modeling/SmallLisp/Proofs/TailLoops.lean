import Mathlib.Tactic.Ring
import SmallLisp.Proofs.Lookups
import SmallLisp.Proofs.TailPositions

/-! # Loops in tail position

A function that calls itself in tail position runs at one depth, however often it does so. The
loop here adds up the numbers from one to its argument.
-/
namespace SmallLisp

variable {store store' : Store} {scope : Scope} {name : String}

/-- The form has this value, leaves the store as it is and is at most so deep. -/
structure Pending.Yields (p : Pending) (v : Value) (bound : Nat) : Prop where
  ends : p.Ends (.ok v p.store)
  depth_le : p.depth ≤ bound

theorem yields_of_done {form v : Value}
    (h : ∀ steps run, (Task.evaluate form scope).step steps run store = .ok (.done v) store) :
    (⟨form, scope, store⟩ : Pending).Yields v 1 := by
  have hstep : (Task.evaluate form scope).StepNeeds store [] (mapEnd .done (.ok v store)) :=
    needs_of_eq id fun _ _ => h _ _
  have hdepth : (⟨form, scope, store⟩ : Pending).depth = nestedDepth [] 1 := hstep.depth_done
  exact ⟨hstep.stepEnds.last, Nat.le_of_eq hdepth⟩

theorem yields_int (n : Int) : (⟨.int n, scope, store⟩ : Pending).Yields (.int n) 1 :=
  yields_of_done fun _ _ => rfl

theorem yields_symbol {v : Value} (h : store.lookup? scope name = some v) :
    (⟨.symbol name, scope, store⟩ : Pending).Yields v 1 := by
  refine yields_of_done fun steps run => ?_
  rw [Task.step, stepForm, EvalM.get_bind, h]
  rfl

theorem Pending.Yields.mono {p : Pending} {v : Value} {bound bound' : Nat} (h : p.Yields v bound)
    (hle : bound ≤ bound') : p.Yields v bound' :=
  ⟨h.ends, h.depth_le.trans hle⟩

def YieldAll (store : Store) (scope : Scope) (bound : Nat) : List Value → List Value → Prop :=
  List.Forall₂ fun form v => v.isError = false ∧ (⟨form, scope, store⟩ : Pending).Yields v bound

theorem YieldAll.exists_inTurn {bound : Nat} {forms vs : List Value}
    (h : YieldAll store scope bound forms vs) :
    ∃ parts, InTurn scope forms store parts vs store ∧ ∀ q ∈ parts, q.depth ≤ bound := by
  induction h with
  | nil => exact ⟨[], .nil store, nofun⟩
  | cons hform _ ih =>
    obtain ⟨parts, hparts, hdepth⟩ := ih
    exact ⟨_, .cons hform.2.ends hform.1 hparts,
      List.forall_mem_cons.mpr ⟨hform.2.depth_le, hdepth⟩⟩

theorem yields_builtin {op : PlainBuiltin} {id : Identity} {home : FrameId} {metadata v : Value}
    {forms vs : List Value} {bound : Nat} (hname : SpecialForm.ofName? op.name = none)
    (hbound : store.lookup? scope op.name = some (.native id (.plain op) home metadata))
    (hforms : YieldAll store scope (bound + 1) forms vs)
    (happly : ∀ run, op.apply run home vs store = .ok (.done v) store) :
    (⟨.ofList (.symbol op.name :: forms), scope, store⟩ : Pending).Yields v (bound + 2) := by
  have hhead := (yields_symbol hbound).mono (Nat.le_add_left 1 bound)
  obtain ⟨parts, hall, hdepth⟩ := YieldAll.exists_inTurn (.cons ⟨rfl, hhead⟩ hforms)
  have hstep : (Task.evaluate (.ofList (.symbol op.name :: forms)) scope).StepNeeds store parts
      (mapEnd .done (.ok v store)) :=
    Task.stepNeeds_call (ordinary_symbol hname hbound rfl) hall rfl not_false fun run =>
      applyFunction_plain (happly run) id metadata
  refine ⟨hstep.stepEnds.last, ?_⟩
  have hwhole : (⟨.ofList (.symbol op.name :: forms), scope, store⟩ : Pending).depth =
      nestedDepth parts 1 := hstep.depth_done
  rw [hwhole, nestedDepth_le_iff]
  exact ⟨by omega, fun q hq => by have := hdepth q hq; omega⟩

def loopTest : Value := .ofList [.symbol "=", .symbol "n", .int 0]

def loopAgain : Value :=
  .ofList [.symbol "sum-to", .ofList [.symbol "-", .symbol "n", .int 1],
    .ofList [.symbol "+", .symbol "acc", .symbol "n"]]

def loopBody : Value := .ofList [.symbol "if", loopTest, .symbol "acc", loopAgain]

def loopDefinition : Value :=
  .ofList [.symbol "def!", .symbol "sum-to",
    .ofList [.symbol "fn*", .ofList [.symbol "n", .symbol "acc"], loopBody]]

set_option maxRecDepth 4000 in
example : readForms
    "(def! sum-to (fn* (n acc) (if (= n 0) acc (sum-to (- n 1) (+ acc n)))))" =
      .ok [loopDefinition] := rfl

def loopFunction (id : Identity) (scope : Scope) : Value :=
  .closure id ⟨["n", "acc"], none⟩ loopBody scope false .nil

def loopBuiltins : List PlainBuiltin := [.collection .equal, .number .subtract, .number .add]

structure Store.HasArithmetic (store : Store) (scope : Scope) : Prop where
  isIn : scope.IsIn store
  builtin : ∀ op ∈ loopBuiltins, ∃ id home metadata,
    store.lookup? scope op.name = some (.native id (.plain op) home metadata)

structure Store.HasLoop (store : Store) (scope : Scope) : Prop extends
    store.HasArithmetic scope where
  loop : ∃ id, store.lookup? scope "sum-to" = some (loopFunction id scope)

def loopRound (store : Store) (scope : Scope) (n acc : Int) : Pending :=
  ⟨loopBody, scope.nest store.nextFrame,
    store.skipIdentity.addFrame [("n", .int n), ("acc", .int acc)]⟩

theorem Store.HasLoop.define (h : store.HasArithmetic scope) (id : Identity) :
    (store.define scope.here "sum-to" (loopFunction id scope)).HasLoop scope := by
  have hisIn : scope.IsIn (store.define scope.here "sum-to" (loopFunction id scope)) := by
    intro f hf
    have hlt := h.isIn f hf
    simpa [Store.nextFrame, Store.define] using hlt
  refine ⟨⟨hisIn, fun op hop => ?_⟩, id, Store.lookup?_define_self h.isIn _⟩
  have hne : ∀ op ∈ loopBuiltins, op.name ≠ "sum-to" := by decide
  rw [Store.lookup?_define_of_ne (hne op hop)]
  exact h.builtin op hop

theorem Store.HasLoop.round (h : store.HasLoop scope) (n acc : Int) :
    (loopRound store scope n acc).store.HasLoop scope := by
  have hisIn : scope.IsIn store.skipIdentity := h.isIn
  have hsame : ∀ name, (loopRound store scope n acc).store.lookup? scope name =
      store.lookup? scope name := Store.lookup?_addFrame hisIn _
  refine ⟨⟨fun f hf => ?_, fun op hop => ?_⟩, ?_⟩
  · rw [loopRound, Store.nextFrame, Store.addFrame, Array.size_push]
    exact Nat.lt_succ_of_lt (h.isIn f hf)
  · rw [hsame]
    exact h.builtin op hop
  · rw [hsame]
    exact h.loop

theorem loop_called {id : Identity} {inner : Scope} {n acc : Int} {x y : Value}
    {final : EStateM.Result Failure Store Value}
    (hloop : store.lookup? inner "sum-to" = some (loopFunction id scope))
    (hx : (⟨x, inner, store⟩ : Pending).Yields (.int n) 2)
    (hy : (⟨y, inner, store⟩ : Pending).Yields (.int acc) 2)
    (hround : (loopRound store scope n acc).Ends final)
    (hdepth : (loopRound store scope n acc).depth ≤ 3) :
    let call : Pending := ⟨.ofList [.symbol "sum-to", x, y], inner, store⟩
    call.Ends final ∧ call.depth ≤ 3 := by
  intro call
  have hhead := (yields_symbol hloop).mono (by decide : 1 ≤ 2)
  obtain ⟨parts, hall, hparts⟩ := YieldAll.exists_inTurn
    (.cons ⟨rfl, hhead⟩ (.cons ⟨rfl, hx⟩ (.cons ⟨rfl, hy⟩ .nil)))
  have hnext : GoesOn (loopFunction id scope) [.int n, .int acc] store
      (loopRound store scope n acc) := by
    have hbind : Parameters.bind ⟨["n", "acc"], none⟩ store.heap.nextIdentity
        [.int n, .int acc] = .ok [("n", .int n), ("acc", .int acc)] := rfl
    exact .body rfl hbind
  have hstep : HandsOn call parts (loopRound store scope n acc) :=
    .call (ordinary_symbol (by decide) hloop rfl) hall hnext
  exact hstep.ends_within hparts hround hdepth

section Round

variable (n acc : Int)

theorem Store.HasLoop.lookup?_round (h : store.HasLoop scope) (name : String) :
    (loopRound store scope n acc).store.lookup? (loopRound store scope n acc).scope name =
      (Frame.find? name [("n", .int n), ("acc", .int acc)]).or (store.lookup? scope name) := by
  have hisIn : scope.IsIn store.skipIdentity := h.isIn
  exact Store.lookup?_nest hisIn _ name

theorem Store.HasLoop.number_yields (h : store.HasLoop scope) :
    (⟨.symbol "n", (loopRound store scope n acc).scope,
      (loopRound store scope n acc).store⟩ : Pending).Yields (.int n) 1 :=
  yields_symbol (h.lookup?_round n acc "n")

theorem Store.HasLoop.sum_yields (h : store.HasLoop scope) :
    (⟨.symbol "acc", (loopRound store scope n acc).scope,
      (loopRound store scope n acc).store⟩ : Pending).Yields (.int acc) 1 :=
  yields_symbol (h.lookup?_round n acc "acc")

theorem Store.HasLoop.builtin_yields (h : store.HasLoop scope) {op : PlainBuiltin}
    (hop : op ∈ loopBuiltins) {forms vs : List Value} {v : Value}
    (hforms : YieldAll (loopRound store scope n acc).store (loopRound store scope n acc).scope 1
      forms vs)
    (happly : ∀ run home store, op.apply run home vs store = .ok (.done v) store) :
    (⟨.ofList (.symbol op.name :: forms), (loopRound store scope n acc).scope,
      (loopRound store scope n acc).store⟩ : Pending).Yields v 2 := by
  have hnames : ∀ op ∈ loopBuiltins, SpecialForm.ofName? op.name = none ∧ op.name ≠ "n" ∧
      op.name ≠ "acc" := by decide
  obtain ⟨hspecial, hn, hacc⟩ := hnames op hop
  obtain ⟨id, home, metadata, hbound⟩ := h.builtin op hop
  have hlookup := h.lookup?_round n acc op.name
  simp only [Frame.find?, if_neg hn, if_neg hacc, Option.none_or, hbound] at hlookup
  exact yields_builtin hspecial hlookup hforms fun run => happly run home _

theorem apply_equal (m n : Int) (run : Runner) (home : FrameId) (store : Store) :
    PlainBuiltin.apply run home (.collection .equal) [.int m, .int n] store =
      .ok (.done (.bool (m == n))) store := by
  have hequal : CollectionOp.apply .equal [.int m, .int n] = .ok (.bool (m == n)) := by
    simp [CollectionOp.apply, allSame, Value.same]
  simp only [PlainBuiltin.apply, hequal]
  rfl

theorem Store.HasLoop.round_handsOn (h : store.HasLoop scope) :
    let round := loopRound store scope n acc
    let test : Pending := ⟨loopTest, round.scope, round.store⟩
    HandsOn round [test] ⟨if n = 0 then .symbol "acc" else loopAgain, round.scope, round.store⟩ ∧
      test.depth ≤ 2 := by
  intro round test
  have hequal : PlainBuiltin.collection .equal ∈ loopBuiltins := by decide
  have htest : test.Yields (.bool (n == 0)) 2 := h.builtin_yields n acc hequal
    (.cons ⟨rfl, h.number_yields n acc⟩ (.cons ⟨rfl, yields_int 0⟩ .nil)) (apply_equal n 0)
  have hselected : (if (Value.bool (n == 0)).isTruthy then some (.symbol "acc")
      else some loopAgain) = some (if n = 0 then .symbol "acc" else loopAgain) := by
    by_cases hzero : n = 0
    · simp [hzero, Value.isTruthy]
    · simp [hzero, Value.isTruthy]
  exact ⟨.branch htest.ends rfl hselected, htest.depth_le⟩

theorem Store.HasLoop.again_ends (h : store.HasLoop scope)
    {final : EStateM.Result Failure Store Value}
    (hends : (loopRound (loopRound store scope n acc).store scope (n - 1) (acc + n)).Ends final)
    (hdepth : (loopRound (loopRound store scope n acc).store scope (n - 1) (acc + n)).depth ≤ 3) :
    let round := loopRound store scope n acc
    let again : Pending := ⟨loopAgain, round.scope, round.store⟩
    again.Ends final ∧ again.depth ≤ 3 := by
  intro round again
  have hn := h.number_yields n acc
  have hsum := h.sum_yields n acc
  have hsubtract : PlainBuiltin.number .subtract ∈ loopBuiltins := by decide
  have hadd : PlainBuiltin.number .add ∈ loopBuiltins := by decide
  have hless : (⟨.ofList [.symbol "-", .symbol "n", .int 1], round.scope, round.store⟩ :
      Pending).Yields (.int (n - 1)) 2 :=
    h.builtin_yields n acc hsubtract (.cons ⟨rfl, hn⟩ (.cons ⟨rfl, yields_int 1⟩ .nil))
      fun _ _ _ => rfl
  have hmore : (⟨.ofList [.symbol "+", .symbol "acc", .symbol "n"], round.scope, round.store⟩ :
      Pending).Yields (.int (0 + acc + n)) 2 :=
    h.builtin_yields n acc hadd (.cons ⟨rfl, hsum⟩ (.cons ⟨rfl, hn⟩ .nil)) fun _ _ _ => rfl
  rw [Int.zero_add] at hmore
  obtain ⟨id, hloop⟩ := h.loop
  have hbound := h.lookup?_round n acc "sum-to"
  rw [hloop] at hbound
  exact loop_called hbound hless hmore hends hdepth

end Round

theorem loopRound_ends (n : Nat) (h : store.HasLoop scope) (acc : Int) :
    (∃ store', (loopRound store scope n acc).Ends
      (.ok (.int (acc + (n * (n + 1) / 2 : Nat))) store')) ∧
      (loopRound store scope n acc).depth ≤ 3 := by
  -- the next round starts with another sum, in a store that has a frame more
  induction n generalizing store acc with
  | zero =>
    obtain ⟨hnext, htest⟩ := h.round_handsOn 0 acc
    obtain ⟨hends, hdepth⟩ := h.sum_yields 0 acc
    rw [if_pos rfl] at hnext
    obtain ⟨hround, hbound⟩ :=
      hnext.ends_within (List.forall_mem_singleton.mpr htest) hends (by omega)
    refine ⟨⟨(loopRound store scope 0 acc).store, ?_⟩, hbound⟩
    simpa using hround
  | succ n ih =>
    obtain ⟨hnext, htest⟩ := h.round_handsOn (n + 1 : Nat) acc
    obtain ⟨⟨store', hends⟩, hdepth⟩ := ih (h.round (n + 1 : Nat) acc) (acc + (n + 1 : Nat))
    have hless : ((n + 1 : Nat) : Int) - 1 = n := by omega
    have hne : ((n + 1 : Nat) : Int) ≠ 0 := by omega
    have hsum : acc + (n + 1 : Nat) + (n * (n + 1) / 2 : Nat) =
        acc + ((n + 1) * (n + 1 + 1) / 2 : Nat) := by
      have hproduct : (n + 1) * (n + 1 + 1) = n * (n + 1) + 2 * (n + 1) := by ring
      omega
    rw [← hless, hsum] at hends
    rw [← hless] at hdepth
    obtain ⟨hagain, hagain'⟩ := h.again_ends _ acc hends hdepth
    rw [if_neg hne] at hnext
    obtain ⟨hround, hbound⟩ :=
      hnext.ends_within (List.forall_mem_singleton.mpr htest) hagain hagain'
    exact ⟨⟨store', hround⟩, hbound⟩

theorem loopDefinition_ends (store : Store) (scope : Scope) :
    let loop := loopFunction store.heap.nextIdentity scope
    (Task.evaluate loopDefinition scope).Ends store
      (.ok loop (store.skipIdentity.define scope.here "sum-to" loop)) :=
  Task.ends_of_run (rfl : runTask 2 2 _ store = _) id

def loopCall (n : Nat) : Value := .ofList [.symbol "sum-to", .int n, .int 0]

theorem loopCall_ends (h : store.HasLoop scope) (n : Nat) :
    (∃ store', (⟨loopCall n, scope, store⟩ : Pending).Ends
      (.ok (.int (n * (n + 1) / 2 : Nat)) store')) ∧
      (⟨loopCall n, scope, store⟩ : Pending).depth ≤ 3 := by
  obtain ⟨id, hloop⟩ := h.loop
  obtain ⟨⟨store', hround⟩, hdepth⟩ := loopRound_ends n h 0
  rw [Int.zero_add] at hround
  have hn : (⟨.int n, scope, store⟩ : Pending).Yields (.int n) 2 := (yields_int n).mono (by omega)
  have hzero : (⟨.int 0, scope, store⟩ : Pending).Yields (.int 0) 2 :=
    (yields_int 0).mono (by omega)
  obtain ⟨hcall, hbound⟩ := loop_called hloop hn hzero hround hdepth
  exact ⟨⟨store', hcall⟩, hbound⟩

/-- A form in tail position is handed on and adds nothing to the depth, so that one depth is enough
for all calls of the loop. -/
theorem tail_positions_not_nested :
    (∀ p parts next, HandsOn p parts next →
      (Task.evaluate p.form p.scope).StepEnds p.store
        (.ok (.tail next.form next.scope) next.store) ∧
      ∀ final, (p.Ends final ↔ next.Ends final) ∧
        (p.Ends final → p.depth = nestedDepth parts next.depth)) ∧
    ∃ bound, ∀ (store : Store) (scope : Scope), store.HasArithmetic scope →
      ∃ loop defined, (Task.evaluate loopDefinition scope).Ends store (.ok loop defined) ∧
        ∀ n : Nat, (∃ store', (⟨loopCall n, scope, defined⟩ : Pending).Ends
          (.ok (.int (n * (n + 1) / 2 : Nat)) store')) ∧
          (⟨loopCall n, scope, defined⟩ : Pending).depth ≤ bound := by
  constructor
  · intro p parts next h
    have hstep := h.stepNeeds.stepEnds
    refine ⟨hstep, fun final => ⟨hstep.next_iff, fun hfinal => ?_⟩⟩
    exact h.stepNeeds.depth_tail (hstep.next_iff.mp hfinal)
  · refine ⟨3, fun store scope h => ⟨_, _, loopDefinition_ends store scope, fun n => ?_⟩⟩
    have hready : store.skipIdentity.HasArithmetic scope := ⟨h.isIn, h.builtin⟩
    exact loopCall_ends (Store.HasLoop.define hready _) n

/-- The loop is called by way of `apply`, and with a large number. -/
theorem tail_positions_not_nested_apply :
    let native (id : Identity) (op : Builtin) := Value.native id op 0 .nil
    let scope := Scope.global 0
    let store := (Store.initial .empty "" 0).addFrame [("apply", native 0 .apply),
      ("=", native 1 (.plain (.collection .equal))), ("-", native 2 (.plain (.number .subtract))),
      ("+", native 3 (.plain (.number .add))), ("sum-to", loopFunction 4 scope)]
    let arguments := [Value.symbol "sum-to", .ofVector [.int 3, .int 0]]
    let outer : Pending := ⟨.ofList (.symbol "apply" :: arguments), scope, store⟩
    let round := loopRound store.skipIdentity scope 3 0
    let parts : List Pending := (.symbol "apply" :: arguments).map (⟨·, scope, store⟩)
    HandsOn outer parts round ∧
      (∀ final, outer.Ends final → outer.depth = nestedDepth parts round.depth) ∧
      store.HasArithmetic scope ∧
      ∃ bound loop defined store', (Task.evaluate loopDefinition scope).Ends store
        (.ok loop defined) ∧
        (⟨loopCall 100000, scope, defined⟩ : Pending).Ends (.ok (.int 5000050000) store') ∧
        (⟨loopCall 100000, scope, defined⟩ : Pending).depth ≤ bound := by
  intro native scope store arguments outer round parts
  have happly : (Task.evaluate (.symbol "apply") scope).Ends store (.ok (native 0 .apply) store) :=
    ends_symbol rfl
  have hloop : (Task.evaluate (.symbol "sum-to") scope).Ends store
      (.ok (loopFunction 4 scope) store) := ends_symbol rfl
  have hvector : (Task.evaluate (.ofVector [.int 3, .int 0]) scope).Ends store
      (.ok (.vector [.int 3, .int 0] .nil (some 0)) store.skipIdentity) :=
    Task.ends_of_run (rfl : runTask 2 2 _ store = _) id
  have hall : InTurn scope (.symbol "apply" :: arguments) store parts
      [native 0 .apply, loopFunction 4 scope, .vector [.int 3, .int 0] .nil (some 0)]
      store.skipIdentity :=
    .cons happly rfl (.cons hloop rfl (.cons hvector rfl (.nil _)))
  have hhands : HandsOn outer parts round := by
    have hordinary : Ordinary store scope (.symbol "apply") := ordinary_symbol (by decide) rfl rfl
    have hcallee : Callee.ofCall (native 0 .apply)
        [loopFunction 4 scope, .vector [.int 3, .int 0] .nil (some 0)] =
        .ok (.body ⟨["n", "acc"], none⟩ loopBody scope, [.int 3, .int 0]) := by
      have hspread : spread [loopFunction 4 scope, .vector [.int 3, .int 0] .nil (some 0)] =
          .ok (loopFunction 4 scope, [.int 3, .int 0]) := rfl
      have hname : (native 0 .apply).isApply = true := rfl
      rw [Callee.ofCall, if_pos hname, Callee.ofSpread, hspread]
      rfl
    have hbind : Parameters.bind ⟨["n", "acc"], none⟩ store.skipIdentity.heap.nextIdentity
        [.int 3, .int 0] = .ok [("n", .int 3), ("acc", .int 0)] := rfl
    exact .call hordinary hall (.body hcallee hbind)
  have harithmetic : store.HasArithmetic scope := by
    refine ⟨List.forall_mem_singleton.mpr Nat.one_pos, fun op hop => ?_⟩
    obtain rfl | rfl | rfl : op = .collection .equal ∨ op = .number .subtract ∨
        op = .number .add := by simpa [loopBuiltins] using hop
    · exact ⟨1, 0, .nil, rfl⟩
    · exact ⟨2, 0, .nil, rfl⟩
    · exact ⟨3, 0, .nil, rfl⟩
  obtain ⟨htail, bound, hloops⟩ := tail_positions_not_nested
  obtain ⟨loop, defined, hdefined, hcalls⟩ := hloops store scope harithmetic
  obtain ⟨⟨store', hcall⟩, hdepth⟩ := hcalls 100000
  exact ⟨hhands, fun final => ((htail outer parts round hhands).2 final).2, harithmetic, bound,
    loop, defined, store', hdefined, hcall, hdepth⟩

end SmallLisp
