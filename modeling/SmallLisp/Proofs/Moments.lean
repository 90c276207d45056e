import Mathlib.Data.Prod.Basic
import Mathlib.Logic.Relation
import SmallLisp.Proofs.StoreChanges

/-! # The moments of an evaluation

An evaluation passes through moments, each before a step of some task on some level. They form a
tree, and of two moments in it, either one lies within the other or one is over before the other
one begins.
-/
namespace SmallLisp

/-- A task before its next step, with the steps that may still be taken on its level. -/
structure Moment where
  level : Nat
  steps : Nat
  task : Task
  store : Store

namespace Moment

variable {R : Store → Store → Prop} {bound : Nat} {m m' m₁ m₂ : Moment}

def finish (bound : Nat) (m : Moment) : EStateM.Result Failure Store Value :=
  takeSteps (Task.step bound (runTask bound m.level)) m.steps m.task m.store

def after (bound : Nat) (m : Moment) : Store :=
  EvalM.storeAfter (takeSteps (Task.step bound (runTask bound m.level)) m.steps m.task) m.store

/-- The step of the first moment leads to the second one: in tail position, or to carry out a task
one level deeper. -/
inductive Leads (bound : Nat) : Moment → Moment → Prop where
  | tail {level steps : Nat} {task : Task} {store store' : Store} {form : Value} {scope : Scope}
      (hstep : task.step bound (runTask bound level) store = .ok (.tail form scope) store') :
      Leads bound ⟨level, steps + 1, task, store⟩ ⟨level, steps, .evaluate form scope, store'⟩
  | inner {level steps : Nat} {outer task : Task} {store store' : Store}
      (hasks : outer.Asks bound (runTask bound (level + 1)) store task store') :
      Leads bound ⟨level + 1, steps + 1, outer, store⟩ ⟨level, bound, task, store'⟩

def Within (bound : Nat) : Moment → Moment → Prop := Relation.ReflTransGen (Leads bound)

def Writes (bound : Nat) (m : Moment) (cell : CellId) (v : Value) (store : Store) : Prop :=
  m.steps ≠ 0 ∧ m.task.Writes (runTask bound m.level) m.store cell v store

def Allows (R : Store → Store → Prop) (bound : Nat) (m : Moment) : Prop :=
  ∀ cell v store, m.Writes bound cell v store → R store (store.setCell cell v)

theorem Leads.decreasing (h : Leads bound m m') :
    Prod.Lex (· < ·) (· < ·) (m'.level, m'.steps) (m.level, m.steps) := by
  cases h with
  | tail hstep => exact .right _ (Nat.lt_succ_self _)
  | inner hasks => exact .left _ _ (Nat.lt_succ_self _)

/-- A moment that lies within another one is deeper or has fewer steps left. -/
theorem Within.decreasing (h : m.Within bound m') :
    m = m' ∨ Prod.Lex (· < ·) (· < ·) (m'.level, m'.steps) (m.level, m.steps) := by
  induction h with
  | refl => exact .inl rfl
  | tail _ hleads ih =>
    rcases ih with rfl | hlex
    · exact .inr hleads.decreasing
    · exact .inr (Prod.Lex.trans hleads.decreasing hlex)

/-- Two moments at the same place of different evaluations do not lie within each other. -/
theorem Within.eq_of_same_place (h : m.Within bound m') (hlevel : m.level = m'.level)
    (hsteps : m.steps = m'.steps) : m = m' := by
  rcases h.decreasing with rfl | hlex
  · rfl
  · rw [hlevel, hsteps] at hlex
    rcases Prod.lex_def.mp hlex with h | ⟨-, h⟩
    · exact absurd h (Nat.lt_irrefl _)
    · exact absurd h (Nat.lt_irrefl _)

theorem after_eq_of_finish (h : m.finish bound = m'.finish bound) :
    m.after bound = m'.after bound := by
  unfold finish at h
  rw [after, EvalM.storeAfter, h, after, EvalM.storeAfter]

theorem after_of_finish {v : Value} {store : Store}
    (h : m.finish bound = .ok v store) : m.after bound = store :=
  storeAfter_of_ok h

/-- What comes of a moment within the limits is its end, if they are not used up. -/
theorem ends_of_finish (hfinal : ¬ Exhausted (m.finish bound)) :
    m.task.Ends m.store (m.finish bound) := by
  refine Task.ends_of_runs hfinal ⟨Nat.max bound m.steps, m.level⟩ fun limits hle => ?_
  have hbound : bound ≤ limits.steps + 1 :=
    Nat.le_succ_of_le (Nat.le_trans (Nat.le_max_left _ _) hle.1)
  have hsteps : m.steps ≤ limits.steps + 1 :=
    Nat.le_succ_of_le (Nat.le_trans (Nat.le_max_right _ _) hle.1)
  have hsame := approximates_takeSteps (fun task => task.approximates_step
    (runTask_approximates hbound hle.2) hbound) hsteps m.task m.store hfinal
  rw [runTask]
  exact hsame

theorem not_leads_of_no_steps (h : m.steps = 0) : ¬ Leads bound m m' := by
  intro hleads
  cases hleads with
  | tail => cases h
  | inner => cases h

def ofParts (bound : Nat) : Nat → List Running → List Moment
  | 0, _ => []
  | level + 1, parts => parts.map fun r => ⟨level, bound, r.task, r.store⟩

theorem mem_ofParts_iff {level : Nat} {parts : List Running} :
    m ∈ ofParts bound level parts ↔
      ∃ r ∈ parts, ∃ inner, level = inner + 1 ∧ m = ⟨inner, bound, r.task, r.store⟩ := by
  cases level with
  | zero => exact ⟨nofun, fun ⟨_, _, _, hlevel, _⟩ => nomatch hlevel⟩
  | succ level =>
    constructor
    · intro hmem
      obtain ⟨r, hr, rfl⟩ := List.mem_map.mp hmem
      exact ⟨r, hr, level, rfl, rfl⟩
    · rintro ⟨r, hr, inner, hlevel, rfl⟩
      cases hlevel
      exact List.mem_map.mpr ⟨r, hr, rfl⟩

theorem leads_of_mem_ofParts {level steps : Nat} {task : Task} {store : Store}
    {parts : List Running}
    (hparts : HasParts (fun run => task.step bound run) (runTask bound level) store parts) :
    m' ∈ ofParts bound level parts → Leads bound ⟨level, steps + 1, task, store⟩ m' := by
  intro hmem
  obtain ⟨r, hr, inner, rfl, rfl⟩ := mem_ofParts_iff.mp hmem
  exact .inner (hparts.mem_iff.mpr hr)

def ofStep (level steps : Nat) : EStateM.Result Failure Store Step → List Moment
  | .ok (.tail form scope) store => [⟨level, steps, .evaluate form scope, store⟩]
  | _ => []

theorem leads_iff {level steps : Nat} {task : Task} {store : Store} {parts : List Running}
    (hparts : HasParts (fun run => task.step bound run) (runTask bound level) store parts) :
    Leads bound ⟨level, steps + 1, task, store⟩ m' ↔
      m' ∈ ofParts bound level parts ++
        ofStep level steps (task.step bound (runTask bound level) store) := by
  rw [List.mem_append]
  constructor
  · intro h
    cases h with
    | tail hstep =>
      rw [hstep]
      exact .inr List.mem_cons_self
    | @inner _ _ _ task' _ store' hasks =>
      have hpart : ⟨task', store'⟩ ∈ parts := hparts.mem_iff.mp hasks
      exact .inl (List.mem_map.mpr ⟨_, hpart, rfl⟩)
  · rintro (h | h)
    · exact leads_of_mem_ofParts hparts h
    · cases hstep : task.step bound (runTask bound level) store with
      | ok next store' =>
        rw [hstep] at h
        cases next with
        | done v => cases h
        | tail form scope =>
          cases List.mem_singleton.mp h
          exact .tail hstep
      | error failure store' =>
        rw [hstep] at h
        cases h

section Order

variable [Store.Order R]

theorem linked_ofParts {level : Nat} {parts : List Running} {store store' : Store}
    (h : Linked R Running.store (Running.after (runTask bound level)) store parts store') :
    Linked R Moment.store (after bound) store (ofParts bound level parts) store' := by
  cases level with
  | zero => exact h.whole fun r _ => Store.Order.refl _
  | succ level =>
    induction parts generalizing store with
    | nil => exact h
    | cons r parts ih => exact ⟨h.1, ih h.2⟩

theorem linked_ofStep {level steps : Nat} {task : Task} {store : Store} :
    Linked R Moment.store (after bound)
      (EvalM.storeAfter (task.step bound (runTask bound level)) store)
      (ofStep level steps (task.step bound (runTask bound level) store))
      (after bound ⟨level, steps + 1, task, store⟩) := by
  unfold after EvalM.storeAfter
  rw [takeSteps_succ]
  cases task.step bound (runTask bound level) store with
  | ok next store' =>
    cases next with
    | done v => exact Store.Order.refl _
    | tail form scope => exact ⟨Store.Order.refl _, Store.Order.refl _⟩
  | error failure store' => exact Store.Order.refl _

end Order

section Lasting

variable [Store.Lasting R]

/-- The moments that a moment leads to follow each other, from its store to the store that it
leaves. -/
theorem exists_parts (hallows : m.Allows R bound) : ∃ parts : List Moment,
    (∀ m', Leads bound m m' ↔ m' ∈ parts) ∧
      Linked R Moment.store (after bound) m.store parts (m.after bound) := by
  obtain ⟨level, steps, task, store⟩ := m
  cases steps with
  | zero =>
    have hnone : ∀ m', ¬ Leads bound ⟨level, 0, task, store⟩ m' := fun m' =>
      not_leads_of_no_steps rfl
    exact ⟨[], fun m' => by simp [hnone], Store.Order.refl _⟩
  | succ steps =>
    have hstep : ProceedsFrom R (fun run => task.step bound run) (runTask bound level) store :=
      Task.proceedsFrom_step fun cell v store' h =>
        hallows cell v store' ⟨Nat.succ_ne_zero _, h⟩
    obtain ⟨parts, hparts, hlinked⟩ := hstep
    exact ⟨_, fun m' => leads_iff hparts, (linked_ofParts hlinked).append linked_ofStep⟩

/-- What the steps keep, a whole evaluation keeps. -/
theorem keeps (m : Moment) (hallows : ∀ m', Within bound m m' → m'.Allows R bound) :
    R m.store (m.after bound) := by
  obtain ⟨parts, hparts, hlinked⟩ := exists_parts (hallows m .refl)
  refine hlinked.whole fun m' hm' => ?_
  have hleads := (hparts m').mpr hm'
  exact keeps m' fun m'' h => hallows m'' (.head hleads h)
termination_by (m.level, m.steps)
decreasing_by exact hleads.decreasing

theorem exists_kept_parts (hallows : ∀ m', Within bound m m' → m'.Allows R bound) :
    ∃ parts : List Moment, (∀ m', Leads bound m m' ↔ m' ∈ parts) ∧
      Linked R Moment.store (after bound) m.store parts (m.after bound) ∧
      ∀ m' ∈ parts, R m'.store (m'.after bound) := by
  obtain ⟨parts, hparts, hlinked⟩ := exists_parts (hallows m .refl)
  refine ⟨parts, hparts, hlinked, fun m' hm' => ?_⟩
  exact keeps m' fun m'' h => hallows m'' (.head ((hparts m').mpr hm') h)

/-- An evaluation within another one begins and ends in between. -/
theorem within_keeps (hallows : ∀ m', Within bound m m' → m'.Allows R bound)
    (h : Within bound m m') : R m.store m'.store ∧ R (m'.after bound) (m.after bound) := by
  induction h using Relation.ReflTransGen.head_induction_on with
  | refl => exact ⟨Store.Order.refl _, Store.Order.refl _⟩
  | @head m m₁ hleads _ ih =>
    obtain ⟨parts, hparts, hlinked, hkeeps⟩ := exists_kept_parts hallows
    obtain ⟨hstart, hfinish⟩ := hlinked.around hkeeps ((hparts m₁).mp hleads)
    obtain ⟨hstart', hfinish'⟩ := ih fun m' h => hallows m' (.head hleads h)
    exact ⟨Store.Order.trans hstart hstart', Store.Order.trans hfinish' hfinish⟩

/-- Of two moments of an evaluation, one lies within the other, or one is over before the other. -/
theorem ordered (hallows : ∀ m', Within bound m m' → m'.Allows R bound)
    (h₁ : Within bound m m₁) (h₂ : Within bound m m₂) :
    Within bound m₁ m₂ ∨ Within bound m₂ m₁ ∨
      R (m₁.after bound) m₂.store ∨ R (m₂.after bound) m₁.store := by
  induction h₁ using Relation.ReflTransGen.head_induction_on with
  | refl => exact .inl h₂
  | @head m a hleads hwithin ih =>
    rcases h₂.cases_head with rfl | ⟨b, hleads', hwithin'⟩
    · exact .inr (.inl (.head hleads hwithin))
    · by_cases hsame : b = a
      · subst hsame
        exact ih (fun m' h => hallows m' (.head hleads h)) hwithin'
      · obtain ⟨parts, hparts, hlinked, hkeeps⟩ := exists_kept_parts hallows
        have hmem := (hparts a).mp hleads
        have hmem' := (hparts b).mp hleads'
        have hwhole := within_keeps (fun m' h => hallows m' (.head hleads h)) hwithin
        have hwhole' := within_keeps (fun m' h => hallows m' (.head hleads' h)) hwithin'
        rcases hlinked.ordered hkeeps hmem hmem' hsame with h | h
        · exact .inr (.inr (.inl (Store.Order.trans hwhole.2 (Store.Order.trans h hwhole'.1))))
        · exact .inr (.inr (.inr (Store.Order.trans hwhole'.2 (Store.Order.trans h hwhole.1))))

/-- Whatever runs, a relation that writing cells keeps as well is kept. -/
theorem runTask_keeps (hwrites : ∀ (store : Store) cell v, R store (store.setCell cell v))
    (depth : Nat) (task : Task) (store : Store) :
    R store (EvalM.storeAfter (runTask bound depth task) store) := by
  cases depth with
  | zero => exact Store.Order.refl _
  | succ level =>
    exact keeps ⟨level, bound, task, store⟩ fun m' _ cell v store' _ => hwrites store' cell v

end Lasting

end Moment

def Store.Extends (store store' : Store) : Prop :=
  store.nextFrame ≤ store'.nextFrame ∧ store.heap.nextCell ≤ store'.heap.nextCell

theorem Store.extends_setCell (store : Store) (cell : CellId) (v : Value) :
    store.Extends (store.setCell cell v) := by
  simp [Extends, nextFrame, Heap.nextCell, setCell, Heap.setCell]

instance : Store.Lasting Store.Extends where
  refl store := ⟨Nat.le_refl _, Nat.le_refl _⟩
  trans h h' := ⟨Nat.le_trans h.1 h'.1, Nat.le_trans h.2 h'.2⟩
  change h := by
    cases h with
    | addFrame => simp [Store.Extends, Store.nextFrame, Store.addFrame]
    | define => simp [Store.Extends, Store.nextFrame, Store.define]
    | addCell => simp [Store.Extends, Store.nextFrame, Store.addCell, Heap.nextCell, Heap.addCell]
    | _ => exact ⟨Nat.le_refl _, Nat.le_refl _⟩

theorem Task.Ends.extends {task : Task} {store store' : Store} {v : Value}
    (h : task.Ends store (.ok v store')) : store.Extends store' := by
  obtain ⟨_, enough, heq⟩ := h
  have hrun : runTask enough.steps enough.depth task store = .ok v store' :=
    heq enough ⟨Nat.le_refl _, Nat.le_refl _⟩
  rw [← storeAfter_of_ok hrun]
  exact Moment.runTask_keeps Store.extends_setCell enough.depth task store

/-- No evaluation takes a frame away. -/
theorem Task.Ends.nextFrame_le {task : Task} {store store' : Store} {v : Value}
    (h : task.Ends store (.ok v store')) : store.nextFrame ≤ store'.nextFrame :=
  h.extends.1

end SmallLisp
