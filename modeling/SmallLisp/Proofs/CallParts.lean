import SmallLisp.Proofs.CallRules
import SmallLisp.Proofs.Moments

/-! # The parts of a call

A call that is written as a form has its head and its arguments evaluated, and then what the callee
asks for. A call of a builtin that calls nothing has no other parts, and does not go on.
-/
namespace SmallLisp

variable {α β : Type} {x y : Runner → EvalM α} {run : Runner} {store store' : Store} {r : Running}
  {scope : Scope} {head form metadata : Value} {arguments forms vs : List Value} {callee : Callee}
  {identity : Option Identity} {steps depth : Nat} {task : Task}

def Moment.running (m : Moment) : Running := ⟨m.task, m.store⟩

theorem hasPart_run_iff : HasPart (fun run => run task) run store r ↔ r = ⟨task, store⟩ :=
  (hasParts_run task).mem_iff.trans List.mem_singleton

theorem not_hasPart_free (x : EvalM α) : ¬ HasPart (fun _ => x) run store r := fun h =>
  nomatch (hasParts_of_free x).mem_iff.mp h

theorem Task.Asks.hasPart {outer : Task} (h : outer.Asks steps run store task store') :
    HasPart (fun run => outer.step steps run) run store ⟨task, store'⟩ :=
  h

theorem HasPart.congr (h : HasPart x run store r) (hxy : ∀ run, y run store = x run store) :
    HasPart y run store r := fun reason => by
  rw [hxy]
  exact h reason

variable {R : Store → Store → Prop}

/-- A part of a sequence is one of its first evaluation, or of what follows on its result. -/
theorem HasPart.of_bind {f : Runner → α → EvalM β}
    (h : HasPart (fun run => x run >>= f run) run store r) (hx : ProceedsFrom R x run store) :
    HasPart x run store r ∨
      ∃ a store', x run store = .ok a store' ∧ HasPart (fun run => f run a) run store' r := by
  obtain ⟨parts, hparts, -⟩ := hx
  by_cases hr : r ∈ parts
  · exact .inl (hparts.mem_iff.mpr hr)
  -- giving up the task does not change how the first evaluation ends
  · have hsame := fun reason => hparts.determined _ (sameOn_givingUp hr reason)
    cases hend : x run store with
    | ok a store' =>
      refine .inr ⟨a, store', rfl, fun reason => ?_⟩
      obtain ⟨store'', hup⟩ := h reason
      exact ⟨store'', (bind_of_ok ((hsame reason).trans hend)).symm.trans hup⟩
    | error failure store' =>
      obtain ⟨_, hexhausted⟩ := h .exhausted
      obtain ⟨_, hendless⟩ := h .endless
      have hexhausted' := (bind_of_error ((hsame _).trans hend)).symm.trans hexhausted
      have hendless' := (bind_of_error ((hsame _).trans hend)).symm.trans hendless
      cases hexhausted'.symm.trans hendless'

/-- What needs no runner has no parts. -/
theorem HasPart.of_bind_free {f : α → EvalM β} (h : HasPart (fun run => x run >>= f) run store r)
    (hx : ProceedsFrom R x run store) : HasPart x run store r := by
  rcases h.of_bind hx with h | ⟨a, store', -, h⟩
  · exact h
  · exact (not_hasPart_free _ h).elim

theorem HasPart.of_settle {x : Runner → EvalM Step}
    (h : HasPart (fun run => EvalM.settle (x run)) run store r)
    (hx : ProceedsFrom R x run store) : HasPart x run store r := by
  obtain ⟨parts, hparts, -⟩ := hx
  have hsettled : HasParts (fun run => EvalM.settle (x run)) run store parts :=
    hparts.around (fun y z h => by simp only [EvalM.settle, h])
      (fun y reason store' h => by simp only [EvalM.settle, h])
  exact hparts.mem_iff.mpr (hsettled.mem_iff.mp h)

theorem HasPart.of_ofFault {z : Except Fault α} {f : Runner → α → EvalM β}
    (h : HasPart (fun run => EvalM.ofFault z >>= f run) run store r) :
    ∃ a, z = .ok a ∧ HasPart (fun run => f run a) run store r := by
  cases z with
  | ok a => exact ⟨a, rfl, h⟩
  | error fault => exact (not_hasPart_free (EvalM.fault fault : EvalM β) h).elim

theorem HasPart.of_get {f : Runner → Store → EvalM β}
    (h : HasPart (fun run => (get : EvalM Store) >>= f run) run store r) :
    HasPart (fun run => f run store) run store r :=
  h

theorem hasPart_evaluateAll_cons
    (h : HasPart (fun run => evaluateAll run scope (form :: forms)) run store r) :
    r = ⟨.evaluate form scope, store⟩ ∨ ∃ v store',
      run (.evaluate form scope) store = .ok v store' ∧
        HasPart (fun run => evaluateAll run scope forms) run store' r := by
  rcases h.of_bind (proceeds_run (R := Store.Extends) _ run store) with h | ⟨v, store', hv, h⟩
  · exact .inl (hasPart_run_iff.mp h)
  · refine .inr ⟨v, store', hv, ?_⟩
    split at h
    · exact (not_hasPart_free _ h).elim
    · exact h.of_bind_free (proceeds_evaluateAll (R := Store.Extends) forms run store')

theorem hasPart_evaluateAll_singleton
    (h : HasPart (fun run => evaluateAll run scope [form]) run store r) :
    r = ⟨.evaluate form scope, store⟩ := by
  rcases hasPart_evaluateAll_cons h with hr | ⟨v, store', -, h⟩
  · exact hr
  · exact (not_hasPart_free _ h).elim

theorem Callee.proceedsFrom_enter_extends (callee : Callee) (vs : List Value) :
    ProceedsFrom Store.Extends (fun run => callee.enter run vs) run store :=
  Callee.proceedsFrom_enter fun cell v store' _ => store'.extends_setCell cell v

theorem hasPart_applyFunction {function : Value}
    (h : HasPart (fun run => applyFunction run function vs) run store r) :
    ∃ callee arguments, Callee.ofCall function vs = .ok (callee, arguments) ∧
      HasPart (fun run => callee.enter run arguments) run store r := by
  have hproceeds : ProceedsFrom Store.Extends (fun run => EvalM.ofFault (Callee.ofCall function vs)
      >>= fun r => r.1.enter run r.2) run store :=
    proceedsFrom_ofFault fun r _ => r.1.proceedsFrom_enter_extends r.2
  obtain ⟨r, hr, hpart⟩ := (HasPart.of_settle h hproceeds).of_ofFault
  exact ⟨r.1, r.2, hr, hpart⟩

theorem Callee.not_hasPart_body {parameters : Parameters} :
    ¬ HasPart (fun run => (Callee.body parameters form scope).enter run vs) run store r :=
  not_hasPart_free _

theorem PlainBuiltin.not_hasPart_apply {op : PlainBuiltin} (h : ∀ op', op ≠ .call op')
    {home : FrameId} : ¬ HasPart (fun run => op.apply run home vs) run store r := by
  cases op with
  | call op => exact absurd rfl (h op)
  | _ => exact not_hasPart_free _

theorem hasPart_swap {home : FrameId}
    (h : HasPart (fun run => PlainBuiltin.apply run home (.call .swap) arguments) run store r) :
    ∃ cell function rest, arguments = .atom cell :: function :: rest ∧
      r = ⟨.call function (store.heap.content cell :: rest), store⟩ := by
  match arguments with
  | [] => exact (not_hasPart_free _ h).elim
  | [_] => exact (not_hasPart_free _ h).elim
  | v :: function :: rest =>
    obtain ⟨cell, hcell, h⟩ := HasPart.of_ofFault h
    obtain ⟨_, _, h⟩ := HasPart.of_ofFault h
    have hcontent : Proceeds Store.Extends fun run =>
        CallOp.swapContent run cell function rest := fun run store =>
      proceedsFrom_swapContent fun v store' _ _ => store'.extends_setCell cell v
    have hpart := HasPart.of_bind_free h (hcontent run store)
    have hcall := HasPart.of_bind_free hpart.of_get (proceeds_run (R := Store.Extends) _ run store)
    exact ⟨cell, function, rest, by rw [expectAtom_eq_ok hcell], hasPart_run_iff.mp hcall⟩

theorem step_ordinary (hspecial : specialForm? head = none)
    (hexpansion : expansionOf? store scope (.list (head :: arguments) metadata identity) = none)
    (run : Runner) :
    (Task.evaluate (.list (head :: arguments) metadata identity) scope).step steps run store =
      stepCall run head arguments scope store := by
  rw [Task.step, stepForm, stepList, hspecial]
  dsimp only
  rw [EvalM.get_bind, hexpansion]

theorem hasPart_call (hspecial : specialForm? head = none)
    (hexpansion : expansionOf? store scope (.list (head :: arguments) metadata identity) = none)
    (h : HasPart (fun run => (Task.evaluate (.list (head :: arguments) metadata identity)
      scope).step steps run) run store r) :
    r = ⟨.evaluate head scope, store⟩ ∨
      (∃ function store', run (.evaluate head scope) store = .ok function store' ∧
        HasPart (fun run => evaluateAll run scope arguments) run store' r) ∨
      ∃ callee vs store', (Task.evaluate (.list (head :: arguments) metadata identity)
        scope).Applies run store callee vs store' ∧
          HasPart (fun run => callee.enter run vs) run store' r := by
  have hcall : HasPart (fun run => stepCall run head arguments scope) run store r :=
    h.congr fun run => (step_ordinary hspecial hexpansion run).symm
  rcases hcall.of_bind (proceeds_run (R := Store.Extends) _ run store) with
    h | ⟨function, store', hhead, h⟩
  · exact .inl (hasPart_run_iff.mp h)
  split at h
  · exact (not_hasPart_free _ h).elim
  rcases h.of_bind (proceeds_evaluateAll (R := Store.Extends) arguments run store') with
    h | ⟨r, store'', harguments, h⟩
  · exact .inr (.inl ⟨function, store', hhead, h⟩)
  cases r with
  | error e => exact (not_hasPart_free _ h).elim
  | ok vs =>
    dsimp only at h
    split at h
    · next hfunction =>
      obtain ⟨callee, vs', hcallee, h⟩ := hasPart_applyFunction h
      exact .inr (.inr ⟨callee, vs', store'',
        .evaluate hspecial hexpansion hhead harguments hfunction hcallee, h⟩)
    · exact (not_hasPart_free _ h).elim

theorem Task.Applies.step_eq (h : task.Applies run store callee vs store') :
    task.step steps run store = EvalM.settle (callee.enter run vs) store' := by
  cases h with
  | call hcallee =>
    rw [Task.step, applyFunction, hcallee]
    rfl
  | evaluate hspecial hexpansion hhead harguments hfunction hcallee =>
    rw [step_ordinary hspecial hexpansion, stepCall, bind_of_ok hhead,
      if_neg (Bool.eq_false_iff.mp (isError_of_isFunction hfunction)), bind_of_ok harguments]
    dsimp only
    rw [if_pos hfunction, applyFunction, hcallee]
    rfl

theorem applyFunction_eq_tail {function : Value} {next : Scope}
    (h : applyFunction run function vs store = .ok (.tail form next) store') :
    ∃ callee arguments, Callee.ofCall function vs = .ok (callee, arguments) ∧
      callee.enter run arguments store = .ok (.tail form next) store' := by
  obtain ⟨r, store₁, hr, henter⟩ := bind_eq_ok (settle_eq_tail.mp h)
  obtain ⟨hcallee, rfl⟩ := ofFault_eq_ok hr
  exact ⟨r.1, r.2, hcallee, henter⟩

/-- A call that goes on does so in the body of its callee. -/
theorem exists_applies_of_tail {next : Scope} (hspecial : specialForm? head = none)
    (hexpansion : expansionOf? store scope (.list (head :: arguments) metadata identity) = none)
    (h : (Task.evaluate (.list (head :: arguments) metadata identity) scope).step steps run store =
      .ok (.tail form next) store') :
    ∃ callee vs store₀, (Task.evaluate (.list (head :: arguments) metadata identity) scope).Applies
      run store callee vs store₀ ∧ callee.enter run vs store₀ = .ok (.tail form next) store' := by
  rw [step_ordinary hspecial hexpansion] at h
  obtain ⟨function, store₁, hhead, h⟩ := bind_eq_ok h
  split at h
  · cases h
  obtain ⟨r, store₂, harguments, h⟩ := bind_eq_ok h
  cases r with
  | error e => cases h
  | ok vs =>
    dsimp only at h
    split at h
    · next hfunction =>
      obtain ⟨callee, vs', hcallee, henter⟩ := applyFunction_eq_tail h
      exact ⟨callee, vs', store₂,
        .evaluate hspecial hexpansion hhead harguments hfunction hcallee, henter⟩
    · obtain ⟨_, _, _, h⟩ := bind_eq_ok h
      cases h

theorem bind_done_ne_tail {x : EvalM α} {g : α → Value} {next : Scope} :
    (x >>= fun a => pure (Step.done (g a))) store ≠ .ok (.tail form next) store' := by
  intro h
  obtain ⟨_, _, _, hdone⟩ := bind_eq_ok h
  cases hdone

theorem PlainBuiltin.apply_ne_tail {op : PlainBuiltin} (hop : op ≠ .call .eval) {home : FrameId}
    {next : Scope} : op.apply run home vs store ≠ .ok (.tail form next) store' := by
  intro h
  cases op with
  | number op => exact bind_done_ne_tail h
  | test op => exact bind_done_ne_tail h
  | label op => exact bind_done_ne_tail h
  | text op => exact bind_done_ne_tail h
  | state op => exact bind_done_ne_tail h
  | collection op =>
    obtain ⟨v, store₁, _, h⟩ := bind_eq_ok h
    dsimp only at h
    split at h
    · exact bind_done_ne_tail h
    · exact bind_done_ne_tail h
  | call op =>
    cases op with
    | map =>
      obtain ⟨_, _, _, h⟩ := bind_eq_ok h
      obtain ⟨_, _, _, h⟩ := bind_eq_ok h
      obtain ⟨_, _, _, h⟩ := bind_eq_ok h
      obtain ⟨r, _, _, h⟩ := bind_eq_ok h
      cases r with
      | error e => cases h
      | ok vs => exact bind_done_ne_tail h
    | swap =>
      match vs with
      | [] => cases h
      | [_] => cases h
      | _ :: _ :: _ =>
        obtain ⟨_, _, _, h⟩ := bind_eq_ok h
        obtain ⟨_, _, _, h⟩ := bind_eq_ok h
        exact bind_done_ne_tail h
    | eval => exact hop rfl

/-- The first of two forms leaves the store for the second one. -/
theorem hasPart_evaluateAll_pair {first second v : Value}
    (hfirst : (Task.evaluate first scope).Ends store (.ok v store))
    (h : HasPart (fun run => evaluateAll run scope [first, second]) (runTask steps depth) store r) :
    r = ⟨.evaluate first scope, store⟩ ∨ r = ⟨.evaluate second scope, store⟩ := by
  rcases hasPart_evaluateAll_cons h with hr | ⟨u, store', hu, hsecond⟩
  · exact .inl hr
  · rw [(hfirst.eq_of_run hu).2] at hsecond
    exact .inr (hasPart_evaluateAll_singleton hsecond)

theorem Evaluated.eq_of_run {r : Except Value (List Value)} {store'' : Store}
    (h : Evaluated scope forms store vs store')
    (hrun : evaluateAll (runTask steps depth) scope forms store = .ok r store'') :
    r = .ok vs ∧ store'' = store' := by
  have hfinal : ¬ Exhausted (evaluateAll (Limits.runner ⟨steps, depth⟩) scope forms store) := by
    rw [Limits.runner, hrun]
    exact not_false
  have hsame := h.all.eq_of_approximates (fun limits limits' hle =>
    approximates_evaluateAll (runTask_approximates hle.1 hle.2) forms) hfinal
  cases hrun.symm.trans hsame
  exact ⟨rfl, rfl⟩

namespace Store.Offers

variable {op : PlainBuiltin}

theorem ordinary (h : store.Offers scope op) : Ordinary store scope (.symbol op.name) := by
  obtain ⟨id, home, m, hlookup⟩ := h
  exact ordinary_symbol (ofName_builtin op) hlookup rfl

theorem applies (h : store.Offers scope op)
    (happlies : (Task.evaluate (.list (.symbol op.name :: arguments) metadata identity)
      scope).Applies (runTask steps depth) store callee vs store') :
    ∃ home, callee = .builtin op home ∧
      evaluateAll (runTask steps depth) scope arguments store = .ok (.ok vs) store' := by
  obtain ⟨id, home, m, hlookup⟩ := h
  cases happlies with
  | evaluate _ _ hhead harguments _ hcallee =>
    obtain ⟨rfl, rfl⟩ := (ends_symbol hlookup).eq_of_run hhead
    cases hcallee
    exact ⟨home, rfl, harguments⟩

theorem hasPart (h : store.Offers scope op)
    (hpart : HasPart (fun run => (Task.evaluate (.list (.symbol op.name :: arguments) metadata
      identity) scope).step steps run) (runTask steps depth) store r) :
    r = ⟨.evaluate (.symbol op.name) scope, store⟩ ∨
      HasPart (fun run => evaluateAll run scope arguments) (runTask steps depth) store r ∨
      ∃ home vs store',
        evaluateAll (runTask steps depth) scope arguments store = .ok (.ok vs) store' ∧
        HasPart (fun run => op.apply run home vs) (runTask steps depth) store' r := by
  have hordinary := h.ordinary
  rcases hasPart_call hordinary.specialForm_eq (hordinary.expansionOf_eq _) hpart with
    hr | ⟨function, store₁, hhead, hr⟩ | ⟨callee, vs, store₁, happlies, hr⟩
  · exact .inl hr
  · obtain ⟨id, home, m, hlookup⟩ := h
    obtain ⟨-, rfl⟩ := (ends_symbol hlookup).eq_of_run hhead
    exact .inr (.inl hr)
  · obtain ⟨home, rfl, harguments⟩ := h.applies happlies
    exact .inr (.inr ⟨home, vs, store₁, harguments, hr⟩)

theorem step_ne_tail (h : store.Offers scope op) (hop : op ≠ .call .eval) {next : Scope} :
    (Task.evaluate (.list (.symbol op.name :: arguments) metadata identity) scope).step steps
      (runTask steps depth) store ≠ .ok (.tail form next) store' := by
  intro htail
  have hordinary := h.ordinary
  obtain ⟨callee, vs, store₁, happlies, henter⟩ :=
    exists_applies_of_tail hordinary.specialForm_eq (hordinary.expansionOf_eq _) htail
  obtain ⟨home, rfl, -⟩ := h.applies happlies
  exact PlainBuiltin.apply_ne_tail hop henter

/-- A moment before the call of a builtin leads to those parts only. -/
theorem hasPart_of_leads {bound level : Nat} {m : Moment} (h : store.Offers scope op)
    (hop : op ≠ .call .eval) (hleads : Moment.Leads bound
      ⟨level, steps, .evaluate (.list (.symbol op.name :: arguments) metadata identity) scope,
        store⟩ m) : ∃ depth, m.running = ⟨.evaluate (.symbol op.name) scope, store⟩ ∨
      HasPart (fun run => evaluateAll run scope arguments) (runTask bound depth) store m.running ∨
      ∃ home vs store',
        evaluateAll (runTask bound depth) scope arguments store = .ok (.ok vs) store' ∧
        HasPart (fun run => op.apply run home vs) (runTask bound depth) store' m.running := by
  cases hleads with
  | tail hstep => exact (h.step_ne_tail hop hstep).elim
  | inner hasks => exact ⟨_, h.hasPart hasks.hasPart⟩

end Store.Offers

/-- The step of the first moment calls the callee and goes on with its body, at the second one. -/
inductive Moment.Calls (bound : Nat) (callee : Callee) : Moment → Moment → Prop where
  | body {level steps : Nat} {task : Task} {store store₀ store' : Store} {vs : List Value}
      {form : Value} {scope : Scope}
      (happlies : task.Applies (runTask bound level) store callee vs store₀)
      (hstep : task.step bound (runTask bound level) store = .ok (.tail form scope) store') :
      Calls bound callee ⟨level, steps + 1, task, store⟩
        ⟨level, steps, .evaluate form scope, store'⟩

namespace Moment

variable {bound : Nat} {call body : Moment}

theorem Calls.leads (h : call.Calls bound callee body) : call.Leads bound body := by
  cases h with
  | body _ hstep => exact .tail hstep

theorem Calls.finish_eq (h : call.Calls bound callee body) :
    call.finish bound = body.finish bound := by
  cases h with
  | body _ hstep => rw [finish, takeSteps_succ, hstep, finish]

theorem Calls.same_place (h : call.Calls bound callee body) :
    call.level = body.level ∧ call.steps = body.steps + 1 := by
  cases h with
  | body => exact ⟨rfl, rfl⟩

end Moment

/-- What comes before a call takes no frame away. -/
theorem Task.Applies.extends
    (h : task.Applies (runTask steps depth) store callee vs store') : store.Extends store' := by
  have hkeeps : ∀ task (store : Store),
      store.Extends (EvalM.storeAfter (runTask steps depth task) store) :=
    Moment.runTask_keeps Store.extends_setCell depth
  cases h with
  | call _ => exact Store.Order.refl _
  | @evaluate _ _ _ arguments _ _ _ _ scope _ store₁ _ _ _ hhead harguments _ _ =>
    have hfirst : store.Extends store₁ := storeAfter_of_ok hhead ▸ hkeeps _ store
    have hproceeds : ProceedsFrom Store.Extends (fun run => evaluateAll run scope arguments)
        (runTask steps depth) store₁ := proceeds_evaluateAll arguments _ _
    obtain ⟨parts, -, hlinked⟩ := hproceeds
    have hwhole := hlinked.whole fun r _ => hkeeps r.task r.store
    rw [storeAfter_of_ok harguments] at hwhole
    exact Store.Order.trans hfirst hwhole

end SmallLisp
