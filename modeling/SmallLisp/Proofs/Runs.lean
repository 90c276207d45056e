import SmallLisp.Proofs.JoinedTexts
import SmallLisp.Proofs.Moments

/-! # Runs of sessions

A session is given texts in turn, and the world outside may change between two of them. A run passes
through the moments of all the evaluations that its texts lead to, and of two of these moments,
again, either one lies within the other or one is over before the other one begins.
-/
namespace SmallLisp

inductive Turn where
  | answer (source : String)
  | evaluate (source : String)
  | outside (console : Console) (files : FileTree) (clock : Int)

def formsOf (source : String) : List Value :=
  match readForms source with
  | .ok forms => forms
  | .error _ => []

namespace Turn

def forms : Turn → List Value
  | answer source => formsOf source
  | evaluate source => formsOf source
  | outside _ _ _ => []

def after (session : Session) (store : Store) : Turn → Store
  | answer source => EvalM.storeAfter (session.answer source) store
  | evaluate source => EvalM.storeAfter (session.evaluate source) store
  | outside console files clock => { store with console := console, files := files, clock := clock }

end Turn

/-- The moments that the turn begins with, each before the evaluation of a form. -/
inductive Turn.Begins (limits : Limits) (session : Session) (turn : Turn) (store : Store) :
    Moment → Prop where
  | form {r : Running} {level : Nat}
      (hpart : HasPart (fun run => evaluateForms run session.scope turn.forms) session.run store r)
      (hlevel : limits.depth = level + 1) :
      Begins limits session turn store ⟨level, limits.steps, r.task, r.store⟩

inductive Session.Passes (limits : Limits) (session : Session) :
    Store → List Turn → Moment → Prop where
  | here {store : Store} {turn : Turn} {turns : List Turn} {m : Moment}
      (h : turn.Begins limits session store m) : Passes limits session store (turn :: turns) m
  | later {store : Store} {turn : Turn} {turns : List Turn} {m : Moment}
      (h : Passes limits session (turn.after session store) turns m) :
      Passes limits session store (turn :: turns) m
  | step {store : Store} {turns : List Turn} {m m' : Moment}
      (h : Passes limits session store turns m) (hleads : m.Leads limits.steps m') :
      Passes limits session store turns m'

def Session.storeAfter (session : Session) (turns : List Turn) (store : Store) : Store :=
  turns.foldl (fun store turn => turn.after session store) store

variable {R : Store → Store → Prop} {run : Runner} {scope : Scope} {store : Store}
  {limits : Limits} {session : Session} {turn : Turn} {turns : List Turn} {m m' m₁ m₂ : Moment}

/-- Nothing but the evaluation of its forms changes the store for a text. -/
theorem storeAfter_answer (source : String) (store : Store) :
    EvalM.storeAfter (answer run scope source) store =
      EvalM.storeAfter (evaluateForms run scope (formsOf source)) store := by
  cases readingEnds source with
  | unreadable hread =>
    obtain ⟨text, hanswer, _⟩ := answer_unreadable hread store
    rw [EvalM.storeAfter, hanswer, formsOf, hread]
    rfl
  | overlong hread =>
    rw [answer, formsOf, hread]
    rfl
  | blank hread =>
    rw [answer, formsOf, hread]
    rfl
  | forms hread hforms =>
    rw [answer_forms hread hforms, EvalM.storeAfter_bind _ storeAfter_answerText,
      storeAfter_catchUncaught, formsOf, hread]

theorem storeAfter_evaluateText (source : String) (store : Store) :
    EvalM.storeAfter (evaluateText run scope source) store =
      EvalM.storeAfter (evaluateForms run scope (formsOf source)) store := by
  unfold formsOf evaluateText
  cases readForms source with
  | ok forms => rfl
  | error e =>
    cases e with
    | fault f => exact EvalM.storeAfter_errorOf f store
    | longLiteral digits => rfl

theorem proceeds_evaluateForms [Store.Order R] (forms : List Value) :
    Proceeds R fun run => evaluateForms run scope forms := by
  induction forms with
  | nil => exact proceeds_pure _
  | cons form forms ih =>
    by_cases hforms : forms = []
    · subst hforms
      exact proceeds_run _
    · have hcons : ∀ run : Runner, evaluateForms run scope (form :: forms) = _ :=
        fun run => evaluateForms_cons hforms
      simp only [hcons]
      refine (proceeds_run _).bind fun v => ?_
      split
      · exact proceeds_pure _
      · exact ih

theorem Turn.after_eq (turn : Turn) (session : Session) (store : Store) :
    (∃ console files clock, turn = .outside console files clock) ∨
      turn.after session store =
        EvalM.storeAfter (evaluateForms session.run session.scope turn.forms) store := by
  cases turn with
  | answer source => exact .inr (storeAfter_answer source store)
  | evaluate source => exact .inr (storeAfter_evaluateText source store)
  | outside console files clock => exact .inl ⟨console, files, clock, rfl⟩

/-- A relation that changes of the world outside keep as well. -/
class Store.Enduring (R : Store → Store → Prop) : Prop extends Store.Lasting R where
  outside : ∀ (store : Store) (console : Console) (files : FileTree) (clock : Int),
    R store { store with console := console, files := files, clock := clock }

namespace Session

theorem not_passes_nil : ¬ session.Passes limits store [] m := by
  generalize hturns : ([] : List Turn) = turns
  intro h
  induction h with
  | here => cases hturns
  | later => cases hturns
  | step _ _ ih => exact ih hturns

theorem Passes.within (h : session.Passes limits store turns m)
    (hwithin : m.Within limits.steps m') : session.Passes limits store turns m' := by
  induction hwithin with
  | refl => exact h
  | tail _ hleads ih => exact ih.step hleads

theorem passes_cons_iff : session.Passes limits store (turn :: turns) m ↔
    (∃ root, turn.Begins limits session store root ∧ root.Within limits.steps m) ∨
      session.Passes limits (turn.after session store) turns m := by
  constructor
  · generalize hall : turn :: turns = all
    intro h
    induction h with
    | here h =>
      cases hall
      exact .inl ⟨_, h, .refl⟩
    | later h =>
      cases hall
      exact .inr h
    | step _ hleads ih =>
      rcases ih hall with ⟨root, hroot, hwithin⟩ | hlater
      · exact .inl ⟨root, hroot, hwithin.tail hleads⟩
      · exact .inr (hlater.step hleads)
  · rintro (⟨root, hroot, hwithin⟩ | h)
    · exact (Passes.here hroot).within hwithin
    · exact .later h

variable [Store.Enduring R]

theorem exists_begins (hrun : session.run = limits.runner) (turn : Turn) (store : Store) :
    ∃ roots, (∀ m, turn.Begins limits session store m ↔ m ∈ roots) ∧
      Linked R Moment.store (Moment.after limits.steps) store roots (turn.after session store) := by
  obtain ⟨parts, hparts, hlinked⟩ :=
    proceeds_evaluateForms (R := R) turn.forms session.run store
  rw [hrun] at hlinked
  refine ⟨Moment.ofParts limits.steps limits.depth parts, fun m => ?_, ?_⟩
  · rw [Moment.mem_ofParts_iff]
    constructor
    · rintro ⟨hpart, hlevel⟩
      exact ⟨_, hparts.mem_iff.mp hpart, _, hlevel, rfl⟩
    · rintro ⟨r, hr, level, hlevel, rfl⟩
      exact .form (hparts.mem_iff.mpr hr) hlevel
  · have hroots := Moment.linked_ofParts hlinked
    rw [← hrun] at hroots
    rcases turn.after_eq session store with ⟨console, files, clock, rfl⟩ | hafter
    · have hlast : Linked R Moment.store (Moment.after limits.steps) store []
          ((Turn.outside console files clock).after session store) :=
        Store.Enduring.outside store console files clock
      have hall := hroots.append hlast
      rwa [List.append_nil] at hall
    · exact hafter ▸ hroots

/-- The moments that the turns of a run begin with follow each other, from its first store to its
last one. -/
theorem exists_roots (hrun : session.run = limits.runner) (turns : List Turn) (store : Store) :
    ∃ roots : List Moment, (∀ m, session.Passes limits store turns m ↔
        ∃ root ∈ roots, root.Within limits.steps m) ∧
      Linked R Moment.store (Moment.after limits.steps) store roots
        (session.storeAfter turns store) := by
  induction turns generalizing store with
  | nil => exact ⟨[], fun m => by simp [not_passes_nil], Store.Order.refl _⟩
  | cons turn turns ih =>
    obtain ⟨roots, hroots, hlinked⟩ := exists_begins (R := R) hrun turn store
    obtain ⟨roots', hroots', hlinked'⟩ := ih (turn.after session store)
    refine ⟨roots ++ roots', fun m => ?_, hlinked.append hlinked'⟩
    rw [passes_cons_iff, hroots']
    constructor
    · rintro (⟨root, hroot, hwithin⟩ | ⟨root, hroot, hwithin⟩)
      · exact ⟨root, List.mem_append_left _ ((hroots root).mp hroot), hwithin⟩
      · exact ⟨root, List.mem_append_right _ hroot, hwithin⟩
    · rintro ⟨root, hroot, hwithin⟩
      rcases List.mem_append.mp hroot with hroot | hroot
      · exact .inl ⟨root, (hroots root).mpr hroot, hwithin⟩
      · exact .inr ⟨root, hroot, hwithin⟩

section Allowed

variable (hrun : session.run = limits.runner)
  (hallows : ∀ m, session.Passes limits store turns m → m.Allows R limits.steps)
include hrun hallows

theorem exists_kept_roots : ∃ roots : List Moment,
    (∀ m, session.Passes limits store turns m → ∃ root ∈ roots, root.Within limits.steps m) ∧
      (∀ root ∈ roots, ∀ m, root.Within limits.steps m → m.Allows R limits.steps) ∧
      Linked R Moment.store (Moment.after limits.steps) store roots
        (session.storeAfter turns store) ∧
      ∀ root ∈ roots, R root.store (root.after limits.steps) := by
  obtain ⟨roots, hroots, hlinked⟩ := exists_roots (R := R) hrun turns store
  have hinside : ∀ root ∈ roots, ∀ m, root.Within limits.steps m → m.Allows R limits.steps :=
    fun root hroot m hwithin => hallows m ((hroots m).mpr ⟨root, hroot, hwithin⟩)
  exact ⟨roots, fun m => (hroots m).mp, hinside, hlinked,
    fun root hroot => root.keeps (hinside root hroot)⟩

/-- What every moment of a run keeps holds from the first store of the run on. -/
theorem Passes.since_start (h : session.Passes limits store turns m) : R store m.store := by
  obtain ⟨roots, hroots, hinside, hlinked, hkeeps⟩ := exists_kept_roots hrun hallows
  obtain ⟨root, hroot, hwithin⟩ := hroots m h
  exact Store.Order.trans (hlinked.around hkeeps hroot).1
    (Moment.within_keeps (hinside root hroot) hwithin).1

/-- Of two moments of a run, one lies within the other, or one is over before the other. -/
theorem Passes.ordered (h₁ : session.Passes limits store turns m₁)
    (h₂ : session.Passes limits store turns m₂) :
    m₁.Within limits.steps m₂ ∨ m₂.Within limits.steps m₁ ∨
      R (m₁.after limits.steps) m₂.store ∨ R (m₂.after limits.steps) m₁.store := by
  obtain ⟨roots, hroots, hinside, hlinked, hkeeps⟩ := exists_kept_roots hrun hallows
  obtain ⟨root₁, hroot₁, hwithin₁⟩ := hroots m₁ h₁
  obtain ⟨root₂, hroot₂, hwithin₂⟩ := hroots m₂ h₂
  by_cases hsame : root₂ = root₁
  · exact Moment.ordered (hinside root₁ hroot₁) hwithin₁ (hsame ▸ hwithin₂)
  · have hwhole₁ := Moment.within_keeps (hinside root₁ hroot₁) hwithin₁
    have hwhole₂ := Moment.within_keeps (hinside root₂ hroot₂) hwithin₂
    rcases hlinked.ordered hkeeps hroot₁ hroot₂ hsame with h | h
    · exact .inr (.inr (.inl (Store.Order.trans hwhole₁.2 (Store.Order.trans h hwhole₂.1))))
    · exact .inr (.inr (.inr (Store.Order.trans hwhole₂.2 (Store.Order.trans h hwhole₁.1))))

end Allowed

end Session

end SmallLisp
