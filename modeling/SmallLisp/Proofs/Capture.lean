import Mathlib.Logic.Function.Basic
import SmallLisp.Proofs.Alternatives

/-! # Generated names among those of the caller

The name that `or` generates for the value of a form can be seen by the forms after it, and nothing
keeps a program from using the same name. So a call of `or` on names is settled by the names of the
caller only as long as none of them is one that has been generated for a form before it.
-/
namespace SmallLisp

variable {scope : Scope} {home : FrameId} {counter : CellId} {store built : Store}
  {env : String → Option Value} {name : String} {form v content metadata : Value}
  {identity : Option Identity} {forms rest : List Value}

/-- A constant, or a name whose value is no error value. -/
inductive IsSimple (env : String → Option Value) : Value → Prop where
  | constant {form : Value} (hform : form.isConstant = true) : IsSimple env form
  | name {name : String} {v : Value} (hname : env name = some v) (hv : v.isError = false) :
      IsSimple env (.symbol name)

def Value.under (env : String → Option Value) : Value → Value
  | .symbol name => (env name).getD .nil
  | form => form

theorem under_of_isConstant (h : form.isConstant = true) : form.under env = form := by
  cases form with
  | symbol => cases h
  | _ => rfl

theorem IsSimple.isError_under (h : IsSimple env form) : (form.under env).isError = false := by
  cases h with
  | constant hform =>
    rw [under_of_isConstant hform]
    cases form with
    | error => cases hform
    | _ => rfl
  | name hname hv =>
    rw [Value.under, hname]
    exact hv

theorem IsSimple.isError (h : IsSimple env form) : form.isError = false := by
  cases h with
  | constant hform =>
    cases form with
    | error => cases hform
    | _ => rfl
  | name => rfl

theorem IsSimple.ends (h : IsSimple (store.lookup? scope) form) :
    (Task.evaluate form scope).Ends store (.ok (form.under (store.lookup? scope)) store) := by
  cases h with
  | constant hform =>
    rw [under_of_isConstant hform]
    exact ends_constant hform
  | name hname _ =>
    rw [Value.under, hname]
    exact ends_symbol hname

theorem IsSimple.update (h : IsSimple env form) (hv : v.isError = false) (name : String) :
    IsSimple (Function.update env name (some v)) form := by
  cases h with
  | constant hform => exact .constant hform
  | @name other u hname hu =>
    by_cases hsame : other = name
    · exact .name (hsame ▸ Function.update_self ..) hv
    · exact .name ((Function.update_of_ne hsame ..).trans hname) hu

theorem under_update_of_ne (h : form ≠ .symbol name) :
    form.under (Function.update env name (some v)) = form.under env := by
  cases form with
  | symbol other =>
    have hne : other ≠ name := fun heq => h (congrArg Value.symbol heq)
    rw [Value.under, Value.under, Function.update_of_ne hne]
  | _ => rfl

def generatedName (n : Int) : Except Abort String :=
  (numeralText n).map fun text => "G__" ++ String.ofList text

/-- The outcome of `or` for such forms. The name that is generated for the value of a form hides
that of the caller from the forms after it. -/
def alternativesOutcome : Value → (String → Option Value) → List Value → Except Abort Value
  | _, _, [] => .ok .nil
  | _, env, [form] => .ok (form.under env)
  | content, env, form :: next :: rest =>
    match successorOf content with
    | .int n => (generatedName n).bind fun name =>
      if (form.under env).isTruthy then .ok (form.under env)
      else alternativesOutcome (.int n) (Function.update env name (some (form.under env)))
        (next :: rest)
    | v => .ok v

def firstHolding (vs : List Value) : Value :=
  (vs.find? Value.isTruthy).getD (vs.getLastD .nil)

def outcomeEnd (store : Store) : Except Abort Value → EStateM.Result Failure Store Value
  | .ok v => .ok v store
  | .error reason => .error (.abort reason) store

section Round

variable (h : Named counter (form :: rest) store name built)
include h

/-- A name is that of the number after the one that the counter holds, and counts as used. -/
theorem Named.counts : ∃ n : Int, store.heap.content counter = .int n ∧
    generatedName (1 + n) = .ok name ∧ built.heap.content counter = .int (1 + n) := by
  obtain ⟨generated, hend, rfl⟩ := h
  obtain ⟨n, text, hcontent, hnumeral, rfl, -⟩ := generatorEnd_eq_name hend
  obtain ⟨counted, hsame, hcounted⟩ := exists_generatorEnd hcontent hnumeral
  cases hend.symm.trans hsame
  refine ⟨n, hcontent, ?_, hcounted⟩
  rw [generatedName, hnumeral]
  rfl

theorem Named.lookup_bound (hscope : scope.IsIn store) (v : Value) :
    (built.bound name v).lookup? (scope.nest built.nextFrame) =
      Function.update (store.lookup? scope) name (some v) := by
  funext other
  rw [h.lookup?_bound hscope, Function.update_apply]

theorem Named.ends_simple (hscope : scope.IsIn store)
    (hform : IsSimple (store.lookup? scope) form) :
    (Task.evaluate form (scope.nest built.nextFrame)).Ends (built.addFrame [])
      (.ok (form.under (store.lookup? scope)) (built.addFrame [])) := by
  have hbuilt : scope.IsIn built := hscope.of_le h.nextFrame_le
  have hsame : (built.addFrame []).lookup? (scope.nest built.nextFrame) = store.lookup? scope := by
    funext other
    rw [Store.lookup?_nest hbuilt, Frame.find?, Option.none_or, h.lookup? hscope]
  rw [← hsame] at hform ⊢
  exact hform.ends

end Round

theorem alternativesOutcome_of_named {next : Value} {n : Int}
    (hcontent : content = .int n) (hname : generatedName (1 + n) = .ok name) :
    alternativesOutcome content env (form :: next :: rest) =
      if (form.under env).isTruthy then .ok (form.under env)
      else alternativesOutcome (.int (1 + n))
        (Function.update env name (some (form.under env))) (next :: rest) := by
  rw [alternativesOutcome, hcontent, successorOf]
  dsimp only
  rw [hname]
  rfl

/-- Without a name, the outcome is the end of the generator. -/
theorem alternativesOutcome_of_stops {next : Value}
    (h : Stops (generatorEnd counter (store.generating (form :: next :: rest))))
    (env : String → Option Value) :
    ∃ store', generatorEnd counter (store.generating (form :: next :: rest)) =
      outcomeEnd store' (alternativesOutcome (store.heap.content counter) env
        (form :: next :: rest)) := by
  have hcontent : (store.generating (form :: next :: rest)).heap.content counter =
      store.heap.content counter := rfl
  rcases successorOf_cases (store.heap.content counter) with ⟨n, hn⟩ | herror
  · rw [generatorEnd_of_number (hcontent.trans hn)] at h ⊢
    rw [alternativesOutcome, hn, successorOf]
    dsimp only
    rw [generatedName]
    cases hnumeral : numeralText (1 + n) with
    | ok text =>
      rw [hnumeral] at h
      cases h
    | error reason => exact ⟨_, rfl⟩
  · rw [generatorEnd_of_isError (hcontent.symm ▸ herror), hcontent]
    refine ⟨((store.generating (form :: next :: rest)).skipIdentity.addFrame []).counted counter,
      ?_⟩
    rw [alternativesOutcome]
    split
    · next n hn =>
      rw [hn] at herror
      cases herror
    · rfl

theorem exists_ends_outcome :
    ∀ {forms : List Value} {scope : Scope} {store : Store} (metadata : Value)
      (identity : Option Identity), store.HasAlternatives scope home counter → scope.IsIn store →
      (∀ form ∈ forms, IsSimple (store.lookup? scope) form) →
      ∃ store', (⟨.list (.symbol "or" :: forms) metadata identity, scope, store⟩ : Pending).Ends
        (outcomeEnd store' (alternativesOutcome (store.heap.content counter)
          (store.lookup? scope) forms))
  | [], _, store, _, _, hor, _, _ => ⟨_, hor.arrivesAt (by simp) (.none store)⟩
  | [form], scope, store, metadata, identity, hor, hscope, hforms => by
    have hform := hforms form List.mem_cons_self
    have hsame : (store.expanding [form]).lookup? scope = store.lookup? scope := by
      funext name
      have hskipped : scope.IsIn store.skipIdentity := hscope
      exact Store.lookup?_addFrame hskipped _ name
    have hlast : (⟨.list [.symbol "or", form] metadata identity, scope, store⟩ :
        Pending).TailReaches ⟨form, scope, store.expanding [form]⟩ :=
      hor.arrivesAt (List.forall_mem_singleton.mpr hform.isError) (.last form store)
    rw [← hsame] at hform
    rw [alternativesOutcome, ← hsame]
    exact ⟨_, hlast.ends_iff.mpr hform.ends⟩
  | form :: next :: rest, scope, store, metadata, identity, hor, hscope, hforms => by
    have hmore : next :: rest ≠ [] := List.cons_ne_nil _ _
    rcases generatorEnd_cases counter (store.generating (form :: next :: rest)) with
      ⟨name, generated, hend⟩ | hstops
    · obtain ⟨hform, hrest⟩ := List.forall_mem_cons.mp hforms
      have hnamed : Named counter (form :: next :: rest) store name _ := ⟨generated, hend, rfl⟩
      obtain ⟨n, hcontent, hname, hcounted⟩ := hnamed.counts
      obtain ⟨others, hchoice⟩ := hor.tailReaches_choice hmore hform.isError hnamed
        (hnamed.ends_simple hscope hform) hform.isError_under metadata identity
      rw [alternativesOutcome_of_named hcontent hname]
      split
      · next htrue =>
        rw [if_pos htrue] at hchoice
        exact ⟨_, hchoice.ends_iff.mpr (ends_bound name (hnamed.ends_simple hscope hform))⟩
      · next hfalse =>
        rw [if_neg hfalse] at hchoice
        have hrest' : ∀ other ∈ next :: rest, IsSimple _ other := fun other hother =>
          (hrest other hother).update hform.isError_under name
        rw [← hnamed.lookup_bound hscope] at hrest' ⊢
        obtain ⟨store', hends⟩ := exists_ends_outcome .nil others
          (hnamed.hasAlternatives_bound hor hscope _) (hnamed.isIn_bound hscope _) hrest'
        exact ⟨store', hchoice.ends_iff.mpr (hcounted ▸ hends)⟩
    · obtain ⟨store', hend⟩ := alternativesOutcome_of_stops hstops (store.lookup? scope)
      refine ⟨store', hend ▸ hor.arrivesAt ?_ (.unnamed hmore hstops)⟩
      exact fun other hother => (hforms other hother).isError

theorem head_of_generatedName {n : Int} (h : generatedName n = .ok name) :
    name.toList.head? = some 'G' := by
  rw [generatedName] at h
  cases hnumeral : numeralText n with
  | ok text =>
    rw [hnumeral] at h
    cases h
    simp
  | error reason =>
    rw [hnumeral] at h
    cases h

def Nameable (n : Int) (forms : List Value) : Prop :=
  ∀ i : Nat, i + 1 < forms.length → ∃ name, generatedName (n + 1 + i) = .ok name

/-- With this number in the counter, no form is a name that is generated for a form before it. -/
def Uncaptured (n : Int) (forms : List Value) : Prop :=
  ∀ (i j : Nat) (name : String), j < i → forms[i]? = some (.symbol name) →
    generatedName (n + 1 + j) ≠ .ok name

theorem number_of_tail (n : Int) (i : Nat) : 1 + n + 1 + (i : Int) = n + 1 + (i + 1 : Nat) := by
  omega

theorem Nameable.tail {n : Int} (h : Nameable n (form :: rest)) : Nameable (1 + n) rest := by
  intro i hi
  rw [number_of_tail]
  exact h (i + 1) (Nat.succ_lt_succ hi)

theorem Uncaptured.tail {n : Int} (h : Uncaptured n (form :: rest)) :
    Uncaptured (1 + n) rest := by
  intro i j name hlt hi
  rw [number_of_tail]
  exact h (i + 1) (j + 1) name (Nat.succ_lt_succ hlt) hi

theorem Nameable.head {n : Int} {next : Value} (h : Nameable n (form :: next :: rest)) :
    ∃ name, generatedName (1 + n) = .ok name := by
  have hnumber : n + 1 + (0 : Nat) = 1 + n := by omega
  exact hnumber ▸ h 0 (by simp)

theorem Uncaptured.head {n : Int} (h : Uncaptured n (form :: rest))
    (hname : generatedName (1 + n) = .ok name) : .symbol name ∉ rest := by
  intro hmem
  obtain ⟨i, hi⟩ := List.getElem?_of_mem hmem
  have hnumber : n + 1 + (0 : Nat) = 1 + n := by omega
  exact h (i + 1) 0 name (Nat.succ_pos i) hi (hnumber ▸ hname)

theorem firstHolding_cons {vs : List Value} (hvs : vs ≠ []) (v : Value) :
    firstHolding (v :: vs) = if v.isTruthy then v else firstHolding vs := by
  obtain ⟨u, us, rfl⟩ := List.exists_cons_of_ne_nil hvs
  rw [firstHolding, List.find?_cons]
  cases v.isTruthy with
  | true => rfl
  | false => rfl

theorem alternativesOutcome_of_uncaptured :
    ∀ {forms : List Value} {env : String → Option Value} {n : Int}, Nameable n forms →
      Uncaptured n forms →
      alternativesOutcome (.int n) env forms = .ok (firstHolding (forms.map (·.under env)))
  | [], _, _, _, _ => rfl
  | [form], env, _, _, _ => by
    rw [alternativesOutcome, firstHolding, List.map_singleton, List.find?_singleton]
    split
    · rfl
    · rfl
  | form :: next :: rest, env, n, hnames, huncaptured => by
    obtain ⟨name, hname⟩ := hnames.head
    have hsame : ∀ other ∈ next :: rest,
        other.under (Function.update env name (some (form.under env))) = other.under env :=
      fun other hother => under_update_of_ne fun heq => huncaptured.head hname (heq ▸ hother)
    rw [alternativesOutcome_of_named rfl hname, List.map_cons, firstHolding_cons (by simp)]
    split
    · rfl
    · rw [alternativesOutcome_of_uncaptured hnames.tail huncaptured.tail,
        List.map_congr_left hsame]

/-- A call of `or` on constants and bound names has its outcome. That is the first value that holds
among those that the caller sees, or the last one, if all names can be made and no form is a name
that is generated for a form before it. -/
theorem or_ends_outcome (hor : store.HasAlternatives scope home counter)
    (hscope : scope.IsIn store)
    (hforms : ∀ form ∈ forms, IsSimple (store.lookup? scope) form) :
    (∃ store', (Task.evaluate (.list (.symbol "or" :: forms) metadata identity) scope).Ends store
      (outcomeEnd store' (alternativesOutcome (store.heap.content counter) (store.lookup? scope)
        forms))) ∧
    ∀ n, store.heap.content counter = .int n → Nameable n forms → Uncaptured n forms →
      ∃ store', (Task.evaluate (.list (.symbol "or" :: forms) metadata identity) scope).Ends store
        (.ok (firstHolding (forms.map (·.under (store.lookup? scope)))) store') := by
  obtain ⟨store', hends⟩ := exists_ends_outcome metadata identity hor hscope hforms
  refine ⟨⟨store', hends⟩, fun n hcontent hnames huncaptured => ⟨store', ?_⟩⟩
  rw [hcontent, alternativesOutcome_of_uncaptured hnames huncaptured] at hends
  exact hends

/-- The first form does not hold, and the second one is a name of the prelude. -/
theorem or_ends_outcome_counter :
    let forms := [.bool false, .symbol "*gensym-counter*"]
    ∃ session store home counter,
      Session.start (Limits.runner ⟨9, 9⟩) [] [] true (.initial .empty "" 0) = .ok session store ∧
      store.HasAlternatives session.scope home counter ∧ session.scope.IsIn store ∧
      (∀ form ∈ forms, IsSimple (store.lookup? session.scope) form) ∧
      store.heap.content counter = .int 0 ∧ Nameable 0 forms ∧ Uncaptured 0 forms ∧
      ∃ store', (Task.evaluate (.ofList (.symbol "or" :: forms)) session.scope).Ends store
        (.ok (.atom counter) store') := by
  intro forms
  obtain ⟨session, store, home, counter, hstart, hscope, -, hor, hzero⟩ := exists_start_bundled
  have hisIn : session.scope.IsIn store := hscope ▸ hor.home_isIn
  have hcounter : store.lookup? session.scope "*gensym-counter*" = some (.atom counter) :=
    hscope ▸ hor.counter
  have hforms : ∀ form ∈ forms, IsSimple (store.lookup? session.scope) form :=
    List.forall_mem_cons.mpr ⟨.constant rfl, List.forall_mem_singleton.mpr (.name hcounter rfl)⟩
  have hvalues : firstHolding (forms.map (·.under (store.lookup? session.scope))) =
      .atom counter := by
    simp only [forms, List.map_cons, List.map_nil, Value.under, hcounter]
    rfl
  obtain ⟨text, htext⟩ := exists_numeralText_digit (by decide : (0 + 1 + 0 : Int).natAbs < 10)
  have hname : generatedName (0 + 1 + 0) = .ok ("G__" ++ String.ofList text) :=
    congrArg (Except.map _) htext
  have hnames : Nameable 0 forms := by
    intro i hi
    obtain rfl : i = 0 := Nat.lt_one_iff.mp (Nat.lt_of_succ_lt_succ hi)
    exact ⟨_, hname⟩
  have huncaptured : Uncaptured 0 forms := by
    intro i j name _ hi hgenerated
    have hmem : Value.symbol name ∈ forms := List.mem_of_getElem? hi
    obtain rfl : name = "*gensym-counter*" := by simpa [forms] using hmem
    have hhead := head_of_generatedName hgenerated
    simp at hhead
  have hends : ∃ store', (Task.evaluate (.ofList (.symbol "or" :: forms)) session.scope).Ends store
      (.ok (firstHolding (forms.map (·.under (store.lookup? session.scope)))) store') :=
    (or_ends_outcome hor hisIn hforms).2 0 hzero hnames huncaptured
  rw [hvalues] at hends
  exact ⟨session, store, home, counter, hstart, hor, hisIn, hforms, hzero, hnames, huncaptured,
    hends⟩

/-- A name of the caller that is generated for the first form loses its value. -/
theorem Session.or_captures :
    ∃ session store, Session.start (Limits.runner ⟨19, 19⟩) [] [] true (.initial .empty "" 0) =
        .ok session store ∧
      ∃ store', session.answer "(let* (G__1 5) (or false G__1))" store = .ok "false" store' := by
  refine ⟨_, _, start_bundled rfl rfl rfl, ?_⟩
  decide +kernel

end SmallLisp
