import Mathlib.Data.List.Basic
import SmallLisp.Proofs.Endings
import SmallLisp.Proofs.ReachedStates

/-! # The parts of an evaluation in order

An evaluation has tasks carried out one after another, each in the store that the ones before and
its own operations have left. So what the parts and the operations in between keep, the whole
evaluation keeps, whether it ends in a result or in a failure.
-/
namespace SmallLisp

variable {α β : Type}

def Runner.SameOn (run run' : Runner) (parts : List Running) : Prop :=
  ∀ r ∈ parts, run' r.task r.store = run r.task r.store

def Running.after (run : Runner) (r : Running) : Store := EvalM.storeAfter (run r.task) r.store

/-- These are the tasks that the evaluation has carried out, in order: nothing else of the runner
matters to it, and it is given up wherever one of them is given up for the first time. -/
structure HasParts (x : Runner → EvalM α) (run : Runner) (store : Store)
    (parts : List Running) : Prop where
  determined : ∀ run', run.SameOn run' parts → x run' store = x run store
  givenUp : ∀ before r after, parts = before ++ r :: after → ∀ run' reason store',
    run.SameOn run' before → run' r.task r.store = .error (.abort reason) store' →
    ∃ store'', x run' store = .error (.abort reason) store''

/-- The evaluation has the task carried out if it is given up together with it, whatever the reason
is. -/
def HasPart (x : Runner → EvalM α) (run : Runner) (store : Store) (r : Running) : Prop :=
  ∀ reason, ∃ store', x (run.givingUp r.task r.store reason) store = .error (.abort reason) store'

variable {x : Runner → EvalM α} {f : Runner → α → EvalM β} {run : Runner}
  {store store' store'' : Store} {parts parts' : List Running} {r : Running} {a : α}

theorem sameOn_givingUp (h : r ∉ parts) (reason : Abort) :
    run.SameOn (run.givingUp r.task r.store reason) parts := by
  intro r' hr'
  have hne : ¬ (r'.task = r.task ∧ r'.store = r.store) := by
    rintro ⟨htask, hstore⟩
    have hsame : r' = r := by
      cases r
      cases r'
      cases htask
      cases hstore
      rfl
    exact h (hsame ▸ hr')
  exact if_neg hne

theorem HasParts.mem_iff (h : HasParts x run store parts) :
    HasPart x run store r ↔ r ∈ parts := by
  constructor
  · intro hpart
    refine Classical.byContradiction fun hnot => ?_
    obtain ⟨_, hexhausted⟩ := hpart .exhausted
    obtain ⟨_, hendless⟩ := hpart .endless
    rw [h.determined _ (sameOn_givingUp hnot _)] at hexhausted hendless
    cases hexhausted.symm.trans hendless
  · intro hr reason
    obtain ⟨before, after, hparts, hfirst⟩ := List.eq_append_cons_of_mem hr
    exact h.givenUp before r after hparts _ reason r.store (sameOn_givingUp hfirst reason)
      (run.givingUp_self r.task r.store reason)

theorem hasParts_of_free (x : EvalM α) : HasParts (fun _ => x) run store [] :=
  ⟨fun _ _ => rfl, fun before r after h => absurd h.symm (by simp)⟩

theorem hasParts_run (task : Task) :
    HasParts (fun run => run task) run store [⟨task, store⟩] := by
  constructor
  · intro run' h
    exact h _ List.mem_cons_self
  · intro before r after hparts run' reason store' _ h
    cases before with
    | nil =>
      cases hparts
      exact ⟨store', h⟩
    | cons r' before => simp at hparts

theorem bind_of_ok {x : EvalM α} {f : α → EvalM β} (h : x store = .ok a store') :
    (x >>= f) store = f a store' := by
  simp only [Bind.bind, EStateM.bind, h]

theorem bind_of_error {x : EvalM α} {f : α → EvalM β} {failure : Failure}
    (h : x store = .error failure store') : (x >>= f) store = .error failure store' := by
  simp only [Bind.bind, EStateM.bind, h]

theorem HasParts.bind (hx : HasParts x run store parts) (ha : x run store = .ok a store')
    (hf : HasParts (fun run => f run a) run store' parts') :
    HasParts (fun run => x run >>= f run) run store (parts ++ parts') := by
  have hfirst : ∀ run', run.SameOn run' parts → (x run' >>= f run') store = f run' a store' :=
    fun run' h => bind_of_ok ((hx.determined run' h).trans ha)
  -- a part of what follows is given up after the first evaluation has come to its end
  have hlater : ∀ before r after, parts' = before ++ r :: after → ∀ run' reason store₁,
      run.SameOn run' (parts ++ before) → run' r.task r.store = .error (.abort reason) store₁ →
      ∃ store₂, (x run' >>= f run') store = .error (.abort reason) store₂ := by
    intro before r after hparts run' reason store₁ hsame hup
    obtain ⟨hsame, hbefore⟩ := List.forall_mem_append.mp hsame
    rw [hfirst run' hsame]
    exact hf.givenUp before r after hparts run' reason store₁ hbefore hup
  constructor
  · intro run' h
    obtain ⟨hparts, hparts'⟩ := List.forall_mem_append.mp h
    rw [hfirst run' hparts, hf.determined run' hparts', bind_of_ok ha]
  · intro before r after hall run' reason store₁ hsame hup
    rcases List.append_eq_append_iff.mp hall with ⟨between, rfl, hparts'⟩ | ⟨rest, rfl, hrest⟩
    · exact hlater between r after hparts' run' reason store₁ hsame hup
    · cases rest with
      | nil =>
        rw [List.append_nil] at hlater
        exact hlater [] r after hrest.symm run' reason store₁ (by simpa using hsame) hup
      | cons r' rest =>
        cases hrest
        obtain ⟨store₂, h⟩ := hx.givenUp before r rest rfl run' reason store₁ hsame hup
        exact ⟨store₂, bind_of_error h⟩

theorem HasParts.bind_of_error {failure : Failure} (hx : HasParts x run store parts)
    (herror : x run store = .error failure store') :
    HasParts (fun run => x run >>= f run) run store parts := by
  constructor
  · intro run' h
    have h' := (hx.determined run' h).trans herror
    exact (SmallLisp.bind_of_error h').trans (SmallLisp.bind_of_error herror).symm
  · intro before r after hparts run' reason store₁ hsame hup
    obtain ⟨store₂, h⟩ := hx.givenUp before r after hparts run' reason store₁ hsame hup
    exact ⟨store₂, SmallLisp.bind_of_error h⟩

/-- What becomes of an evaluation that depends on its end only, and is given up with it, has the
same parts. -/
theorem HasParts.around {wrap : EvalM α → EvalM β} (hx : HasParts x run store parts)
    (hend : ∀ y z : EvalM α, y store = z store → wrap y store = wrap z store)
    (habort : ∀ (y : EvalM α) reason store', y store = .error (.abort reason) store' →
      wrap y store = .error (.abort reason) store') :
    HasParts (fun run => wrap (x run)) run store parts := by
  constructor
  · intro run' h
    exact hend _ _ (hx.determined run' h)
  · intro before r after hparts run' reason store₁ hsame hup
    obtain ⟨store₂, h⟩ := hx.givenUp before r after hparts run' reason store₁ hsame hup
    exact ⟨store₂, habort _ _ _ h⟩

class Store.Order (R : Store → Store → Prop) : Prop where
  refl : ∀ store, R store store
  trans : ∀ {store store' store''}, R store store' → R store' store'' → R store store''

def Linked {ι : Type} (R : Store → Store → Prop) (start finish : ι → Store) :
    Store → List ι → Store → Prop
  | store, [], store' => R store store'
  | store, i :: items, store' => R store (start i) ∧ Linked R start finish (finish i) items store'

namespace Linked

variable {ι : Type} {R : Store → Store → Prop} {start finish : ι → Store} {i j : ι}
  {items items' before after : List ι}

theorem split (h : Linked R start finish store (before ++ i :: after) store') :
    Linked R start finish store before (start i) ∧
      Linked R start finish (finish i) after store' := by
  induction before generalizing store with
  | nil => exact h
  | cons j before ih =>
    obtain ⟨hbefore, hafter⟩ := ih h.2
    exact ⟨⟨h.1, hbefore⟩, hafter⟩

variable [Store.Order R]

theorem append (h : Linked R start finish store items store')
    (h' : Linked R start finish store' items' store'') :
    Linked R start finish store (items ++ items') store'' := by
  induction items generalizing store with
  | nil =>
    cases items' with
    | nil => exact Store.Order.trans h h'
    | cons i items' => exact ⟨Store.Order.trans h h'.1, h'.2⟩
  | cons i items ih => exact ⟨h.1, ih h.2⟩

/-- What holds of every item holds of all of them together. -/
theorem whole (h : Linked R start finish store items store')
    (hitems : ∀ i ∈ items, R (start i) (finish i)) : R store store' := by
  induction items generalizing store with
  | nil => exact h
  | cons i items ih =>
    obtain ⟨hi, hothers⟩ := List.forall_mem_cons.mp hitems
    exact Store.Order.trans h.1 (Store.Order.trans hi (ih h.2 hothers))

theorem around (h : Linked R start finish store items store')
    (hitems : ∀ i ∈ items, R (start i) (finish i)) (hi : i ∈ items) :
    R store (start i) ∧ R (finish i) store' := by
  obtain ⟨before, after, rfl⟩ := List.append_of_mem hi
  obtain ⟨hbefore, hafter⟩ := h.split
  rw [List.forall_mem_append, List.forall_mem_cons] at hitems
  exact ⟨hbefore.whole hitems.1, hafter.whole hitems.2.2⟩

/-- Of two items one comes first. -/
theorem ordered (h : Linked R start finish store items store')
    (hitems : ∀ i ∈ items, R (start i) (finish i)) (hi : i ∈ items) (hj : j ∈ items)
    (hne : j ≠ i) : R (finish i) (start j) ∨ R (finish j) (start i) := by
  obtain ⟨before, after, rfl⟩ := List.append_of_mem hi
  obtain ⟨hbefore, hafter⟩ := h.split
  rw [List.forall_mem_append, List.forall_mem_cons] at hitems
  rcases List.mem_append.mp hj with hj | hj
  · exact .inr (hbefore.around hitems.1 hj).2
  · rcases List.mem_cons.mp hj with hj | hj
    · exact absurd hj hne
    · exact .inl (hafter.around hitems.2.2 hj).1

end Linked

variable {R : Store → Store → Prop}

def ProceedsFrom (R : Store → Store → Prop) (x : Runner → EvalM α) (run : Runner)
    (store : Store) : Prop :=
  ∃ parts, HasParts x run store parts ∧
    Linked R Running.store (Running.after run) store parts (EvalM.storeAfter (x run) store)

def Proceeds (R : Store → Store → Prop) (x : Runner → EvalM α) : Prop :=
  ∀ run store, ProceedsFrom R x run store

theorem storeAfter_of_ok {x : EvalM α} (h : x store = .ok a store') :
    EvalM.storeAfter x store = store' := by
  rw [EvalM.storeAfter, h]

theorem storeAfter_of_error {x : EvalM α} {failure : Failure}
    (h : x store = .error failure store') : EvalM.storeAfter x store = store' := by
  rw [EvalM.storeAfter, h]

theorem proceedsFrom_free {x : EvalM α} (h : R store (EvalM.storeAfter x store)) :
    ProceedsFrom R (fun _ => x) run store :=
  ⟨[], hasParts_of_free x, h⟩

variable [Store.Order R]

theorem proceeds_run (task : Task) : Proceeds R fun run => run task := fun _ _ =>
  ⟨_, hasParts_run task, Store.Order.refl _, Store.Order.refl _⟩

theorem ProceedsFrom.bind (hx : ProceedsFrom R x run store)
    (hf : ∀ a store', x run store = .ok a store' →
      ProceedsFrom R (fun run => f run a) run store') :
    ProceedsFrom R (fun run => x run >>= f run) run store := by
  obtain ⟨parts, hparts, hlinked⟩ := hx
  cases hend : x run store with
  | ok a store' =>
    obtain ⟨parts', hparts', hlinked'⟩ := hf a store' hend
    have hsame : EvalM.storeAfter (x run >>= f run) store =
        EvalM.storeAfter (f run a) store' := by
      rw [EvalM.storeAfter, bind_of_ok hend, EvalM.storeAfter]
    rw [storeAfter_of_ok hend] at hlinked
    exact ⟨_, hparts.bind hend hparts', hsame ▸ hlinked.append hlinked'⟩
  | error failure store' =>
    rw [storeAfter_of_error hend] at hlinked
    have hsame := storeAfter_of_error (bind_of_error (f := f run) hend)
    exact ⟨_, hparts.bind_of_error hend, hsame ▸ hlinked⟩

theorem Proceeds.bind (hx : Proceeds R x) (hf : ∀ a, Proceeds R fun run => f run a) :
    Proceeds R fun run => x run >>= f run :=
  fun run store => (hx run store).bind fun a store' _ => hf a run store'

theorem proceeds_pure (a : α) : Proceeds R fun _ => (pure a : EvalM α) :=
  fun _ _ => proceedsFrom_free (Store.Order.refl _)

theorem proceeds_throw (failure : Failure) : Proceeds R fun _ => (throw failure : EvalM α) :=
  fun _ _ => proceedsFrom_free (Store.Order.refl _)

theorem proceeds_get : Proceeds R fun _ => (get : EvalM Store) :=
  fun _ _ => proceedsFrom_free (Store.Order.refl _)

namespace EvalM

theorem proceeds_ofFault (y : Except Fault α) : Proceeds R fun _ => ofFault y := by
  cases y with
  | ok a => exact proceeds_pure a
  | error f => exact proceeds_throw _

theorem proceeds_ofAbort (y : Except Abort α) : Proceeds R fun _ => ofAbort y := by
  cases y with
  | ok a => exact proceeds_pure a
  | error reason => exact proceeds_throw _

theorem proceeds_printAll (readable : Bool) (separator : String) (vs : List Value) :
    Proceeds R fun _ => printAll readable separator vs :=
  proceeds_get.bind fun _ => proceeds_ofAbort _

theorem proceeds_errorOf (f : Fault) : Proceeds R fun _ => errorOf f :=
  proceeds_get.bind fun _ => (proceeds_ofAbort _).bind fun _ => proceeds_pure _

end EvalM

/-- Turning the end into another one changes the store in a way of its own. -/
theorem ProceedsFrom.around {wrap : EvalM α → EvalM β} (hx : ProceedsFrom R x run store)
    (hend : ∀ y z : EvalM α, y store = z store → wrap y store = wrap z store)
    (habort : ∀ (y : EvalM α) reason store', y store = .error (.abort reason) store' →
      wrap y store = .error (.abort reason) store')
    (hafter : R (EvalM.storeAfter (x run) store) (EvalM.storeAfter (wrap (x run)) store)) :
    ProceedsFrom R (fun run => wrap (x run)) run store := by
  obtain ⟨parts, hparts, hlinked⟩ := hx
  have hlast : Linked R Running.store (Running.after run) _ [] _ := hafter
  have hwhole := hlinked.append hlast
  rw [List.append_nil] at hwhole
  exact ⟨parts, hparts.around hend habort, hwhole⟩

/-- Neither the message of a fault nor a caught value changes the store. -/
theorem EvalM.storeAfter_settle (y : EvalM Step) (store : Store) :
    storeAfter (settle y) store = storeAfter y store := by
  unfold storeAfter settle
  cases hend : y store with
  | ok step store' => rfl
  | error failure store' =>
    cases failure with
    | fault f =>
      have herror : (Step.done <$> errorOf f).run store' = mapEnd Step.done (errorOf f store') := by
        cases h : errorOf f store' <;> simp [EStateM.run, Functor.map, EStateM.map, h, mapEnd]
      simp only [herror, errorOf_eq]
      cases f.message store'.heap with
      | ok message => rfl
      | error reason => rfl
    | thrown payload => rfl
    | abort reason => rfl

theorem EvalM.storeAfter_catchThrown (y : EvalM Value) (store : Store) :
    storeAfter (catchThrown y) store = storeAfter y store := by
  unfold storeAfter catchThrown
  cases hend : y store with
  | ok v store' => rfl
  | error failure store' => cases failure <;> rfl

theorem ProceedsFrom.settle {x : Runner → EvalM Step} (hx : ProceedsFrom R x run store) :
    ProceedsFrom R (fun run => EvalM.settle (x run)) run store := by
  refine hx.around (fun y z h => ?_) (fun y reason store' h => ?_) ?_
  · simp only [EvalM.settle, h]
  · simp only [EvalM.settle, h]
  · rw [EvalM.storeAfter_settle]
    exact Store.Order.refl _

theorem ProceedsFrom.catchThrown {x : Runner → EvalM Value} (hx : ProceedsFrom R x run store) :
    ProceedsFrom R (fun run => EvalM.catchThrown (x run)) run store := by
  refine hx.around (fun y z h => ?_) (fun y reason store' h => ?_) ?_
  · simp only [EvalM.catchThrown, h]
  · simp only [EvalM.catchThrown, h]
  · rw [EvalM.storeAfter_catchThrown]
    exact Store.Order.refl _

end SmallLisp
