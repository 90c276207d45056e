import SmallLisp.Proofs.CallRules

/-! # All ways of calling a function agree

A function is called by a form with the function at its head, by a builtin that calls functions,
which has the values at hand, or by way of `apply`, which takes the last values as a sequence. The
first steps are the same in all these ways, so that the calls end in the same way, in the same
store, or have no end at all.
-/
namespace SmallLisp

variable {scope : Scope} {store : Store} {function sequence metadata : Value}
  {us vs forms : List Value} {id : Identity} {home : FrameId}
  {result : EStateM.Result Failure Store Value}

/-- The last argument of `apply` is spread. `nil` stands for an empty sequence. -/
theorem spread_append (hfunction : function.isFunction = true)
    (hsequence : sequence.elements? = some vs) (us : List Value) :
    spread (function :: (us ++ [sequence])) = .ok (function, us ++ vs) := by
  have helements : expectElements "apply" sequence = .ok vs := by
    rw [expectElements, hsequence]
  obtain ⟨first, others, hparts⟩ := List.exists_cons_of_ne_nil
    (List.append_ne_nil_of_right_ne_nil us (List.cons_ne_nil sequence []))
  have hbetween : (first :: others).dropLast = us := by
    rw [← hparts, List.dropLast_concat]
  have hlast : (first :: others).getLast (List.cons_ne_nil _ _) = sequence := by
    simp only [← hparts, List.getLast_concat]
  rw [hparts]
  simp only [spread, hbetween, hlast, expectFunction, hfunction, helements]
  rfl

/-- A call of `apply` stands for a call of the function that it is given. -/
theorem ofCall_apply (hfunction : function.isFunction = true)
    (hsequence : sequence.elements? = some vs) (us : List Value) :
    Callee.ofCall (.native id .apply home metadata) (function :: (us ++ [sequence])) =
      Callee.ofCall function (us ++ vs) := by
  have hspread := spread_append hfunction hsequence us
  have happly : (Value.native id .apply home metadata).isApply = true := rfl
  rw [Callee.ofCall, if_pos happly, Callee.ofSpread]
  split
  · next hfault => cases hspread.symm.trans hfault
  · next hcall =>
    cases hspread.symm.trans hcall
    rfl

theorem ends_apply_iff (hfunction : function.isFunction = true)
    (hsequence : sequence.elements? = some vs) (us : List Value) :
    (Task.call (.native id .apply home metadata) (function :: (us ++ [sequence]))).Ends store
      result ↔ (Task.call function (us ++ vs)).Ends store result := by
  refine Task.ends_iff_of_same_steps fun step => ends_congr fun limits => ?_
  rw [Task.step, Task.step, applyFunction, applyFunction, ofCall_apply hfunction hsequence us]

inductive Quoted : Value → Value → Prop where
  | intro (v metadata : Value) (identity : Option Identity) :
      Quoted (.list [.symbol "quote", v] metadata identity) v

theorem evaluated_quoted (h : List.Forall₂ Quoted forms vs) (hvs : ∀ v ∈ vs, v.isError = false) :
    Evaluated scope forms store vs store := by
  induction h with
  | nil => exact .nil store
  | cons hform _ ih =>
    obtain ⟨hv, hrest⟩ := List.forall_mem_cons.mp hvs
    cases hform with
    | intro => exact .cons (ends_quote _) hv (ih hrest)

theorem ends_function (h : function.isFunction = true) :
    (Task.evaluate function scope).Ends store (.ok function store) := by
  refine ends_constant ?_
  cases function with
  | native => rfl
  | closure => rfl
  | _ => cases h

theorem ordinary_function (h : function.isFunction = true) : Ordinary store scope function := by
  intro name hname
  rw [hname] at h
  cases h

theorem ends_form_iff {identity : Option Identity} (hfunction : function.isFunction = true)
    (hvs : ∀ v ∈ vs, v.isError = false) (hforms : List.Forall₂ Quoted forms vs) :
    (Task.evaluate (.list (function :: forms) metadata identity) scope).Ends store result ↔
      (Task.call function vs).Ends store result := by
  refine ends_application_iff (ordinary_function hfunction) ?_ hfunction
  exact .cons (ends_function hfunction) (isError_of_isFunction hfunction)
    (evaluated_quoted hforms hvs)

/-- The form with the function at its head and the quoted values behind it, and the calls of
`apply` with the values split anywhere, end just as the call of the function on the values does. -/
theorem ways_to_call_agree (hfunction : function.isFunction = true)
    (hvs : ∀ v ∈ vs, v.isError = false) :
    (∀ forms metadata identity scope store result, List.Forall₂ Quoted forms vs →
      ((Task.evaluate (.list (function :: forms) metadata identity) scope).Ends store result ↔
        (Task.call function vs).Ends store result)) ∧
    ∀ i sequence id home metadata store result, sequence.elements? = some (vs.drop i) →
      ((Task.call (.native id .apply home metadata)
          (function :: (vs.take i ++ [sequence]))).Ends store result ↔
        (Task.call function vs).Ends store result) := by
  refine ⟨fun forms metadata identity scope store result hforms => ?_,
    fun i sequence id home metadata store result hsequence => ?_⟩
  · exact ends_form_iff hfunction hvs hforms
  · rw [ends_apply_iff hfunction hsequence, List.take_append_drop]

/-- Three calls of `cons`, on a number and a list. -/
theorem ways_to_call_agree_cons :
    let cons := Value.native 0 (.plain (.collection .cons)) 0 .nil
    let apply := Value.native 1 .apply 0 .nil
    let tail := Value.ofList [.int 2]
    let quoted := fun v => Value.ofList [.symbol "quote", v]
    let scope : Scope := ⟨0, []⟩
    let store := Store.initial .empty "" 0
    let result := .ok (.list [.int 1, .int 2] .nil (some store.heap.nextIdentity))
      store.skipIdentity
    (Task.call cons [.int 1, tail]).Ends store result ∧
      (Task.evaluate (.ofList [cons, quoted (.int 1), quoted tail]) scope).Ends store result ∧
      (Task.call apply [cons, .int 1, .ofVector [tail]]).Ends store result := by
  intro cons apply tail quoted scope store result
  have hvs : ∀ v ∈ [Value.int 1, tail], v.isError = false := by decide
  have hfunction : cons.isFunction = true := rfl
  obtain ⟨hforms, happly⟩ := ways_to_call_agree hfunction hvs
  have hcall : (Task.call cons [.int 1, tail]).Ends store result :=
    ends_collection .cons [.int 1, tail] store 0 0 .nil
  have hquoted : List.Forall₂ Quoted [quoted (.int 1), quoted tail] [.int 1, tail] :=
    .cons (.intro _ _ _) (.cons (.intro _ _ _) .nil)
  exact ⟨hcall, (hforms _ _ _ _ _ _ hquoted).mpr hcall, (happly 1 _ _ _ _ _ _ rfl).mpr hcall⟩

end SmallLisp
