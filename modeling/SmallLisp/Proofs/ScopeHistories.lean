import Mathlib.Data.List.Induction
import SmallLisp.Proofs.Lookups

/-! # Histories of scopes

Scopes are opened, each by itself or inside another one, and values are stored in them under names.
Whatever has happened, a name has in a scope the value that was stored last under it in the
innermost frame of the scope in which anything was ever stored under it.
-/
namespace SmallLisp

inductive Spelling where
  | symbol (name : String)
  | text (name : String)

def Spelling.name : Spelling → String
  | symbol name => name
  | text name => name

structure Scopes where
  store : Store
  opened : List Scope

structure Write where
  frame : FrameId
  name : String
  value : Value

def Scope.around (outer : Option Scope) (frame : FrameId) : Scope :=
  match outer with
  | none => .global frame
  | some outer => outer.nest frame

def writesTo (frame : FrameId) (pairs : List (Spelling × Value)) : List Write :=
  pairs.map fun pair => ⟨frame, pair.1.name, pair.2⟩

namespace Scopes

def openWith (scopes : Scopes) (outer : Option Scope) (spellings : List Spelling)
    (values : List Value) : Except CountFault Scopes := do
  let frame ← Frame.ofParallel (spellings.map (·.name)) values
  return ⟨scopes.store.addFrame frame, scopes.opened ++ [.around outer scopes.store.nextFrame]⟩

def set (scopes : Scopes) (scope : Scope) (spelling : Spelling) (value : Value) : Scopes :=
  { scopes with store := scopes.store.define scope.here spelling.name value }

def update (scopes : Scopes) (scope : Scope) (pairs : List (Spelling × Value)) : Scopes :=
  pairs.foldl (fun scopes pair => scopes.set scope pair.1 pair.2) scopes

def get (scopes : Scopes) (scope : Scope) (spelling : Spelling) : Except Fault Value :=
  match scopes.store.lookup? scope spelling.name with
  | some v => .ok v
  | none => .error (.unbound spelling.name)

def find (scopes : Scopes) (scope : Scope) (spelling : Spelling) : Option FrameId :=
  scopes.store.binder? scope spelling.name

inductive Change (scopes : Scopes) : List Write → Scopes → Prop where
  | opening {outer : Option Scope} {spellings : List Spelling} {values : List Value}
      {scopes' : Scopes} (houter : ∀ scope ∈ outer, scope ∈ scopes.opened)
      (h : scopes.openWith outer spellings values = .ok scopes') :
      Change scopes (writesTo scopes.store.nextFrame (spellings.zip values)) scopes'
  | set {scope : Scope} (h : scope ∈ scopes.opened) (spelling : Spelling) (value : Value) :
      Change scopes (writesTo scope.here [(spelling, value)]) (scopes.set scope spelling value)
  | update {scope : Scope} (h : scope ∈ scopes.opened) (pairs : List (Spelling × Value)) :
      Change scopes (writesTo scope.here pairs) (scopes.update scope pairs)

/-- What has been stored, in order, and the scopes after any number of operations. -/
inductive History (store : Store) : List Write → Scopes → Prop where
  | start : History store [] ⟨store, []⟩
  | change {writes more : List Write} {scopes scopes' : Scopes} (h : History store writes scopes)
      (hchange : scopes.Change more scopes') : History store (writes ++ more) scopes'

end Scopes

def StoredIn (writes : List Write) (f : FrameId) (name : String) : Prop :=
  ∃ w ∈ writes, w.frame = f ∧ w.name = name

def IsLatest (writes : List Write) (f : FrameId) (name : String) (v : Value) : Prop :=
  ∃ earlier later, writes = earlier ++ ⟨f, name, v⟩ :: later ∧ ¬ StoredIn later f name

variable {writes more : List Write} {w : Write} {f g : FrameId} {name : String} {v : Value}
  {store : Store} {scopes scopes' : Scopes} {scope : Scope}

theorem storedIn_concat :
    StoredIn (writes ++ [w]) f name ↔ StoredIn writes f name ∨ w.frame = f ∧ w.name = name := by
  simp only [StoredIn, List.mem_append, List.mem_singleton, or_and_right, exists_or,
    exists_eq_left]

theorem isLatest_concat : IsLatest (writes ++ [w]) f name v ↔
    w = ⟨f, name, v⟩ ∨ ¬ (w.frame = f ∧ w.name = name) ∧ IsLatest writes f name v := by
  constructor
  · rintro ⟨earlier, later, hwrites, hlater⟩
    rcases List.eq_nil_or_concat later with rfl | ⟨between, last, rfl⟩
    · have hlast := List.append_inj_right' hwrites rfl
      exact .inl (List.cons.inj hlast).1
    · rw [List.concat_eq_append, ← List.cons_append, ← List.append_assoc] at hwrites
      obtain ⟨hwrites, hlast⟩ := List.append_inj' hwrites rfl
      rw [List.concat_eq_append, storedIn_concat, not_or] at hlater
      rw [(List.cons.inj hlast).1]
      exact .inr ⟨hlater.2, earlier, between, hwrites, hlater.1⟩
  · rintro (rfl | ⟨hother, earlier, later, rfl, hlater⟩)
    · exact ⟨writes, [], rfl, fun ⟨_, hw, _⟩ => nomatch hw⟩
    · refine ⟨earlier, later ++ [w], by simp, ?_⟩
      rw [storedIn_concat, not_or]
      exact ⟨hlater, hother⟩

theorem storedIn_iff_exists_isLatest :
    StoredIn writes f name ↔ ∃ v, IsLatest writes f name v := by
  constructor
  · intro h
    induction writes using List.reverseRecOn with
    | nil => exact absurd h.choose_spec.1 List.not_mem_nil
    | append_singleton writes w ih =>
      by_cases hw : w.frame = f ∧ w.name = name
      · obtain ⟨rfl, rfl⟩ := hw
        exact ⟨w.value, isLatest_concat.mpr (.inl rfl)⟩
      · obtain ⟨v, hv⟩ := ih ((storedIn_concat.mp h).resolve_right hw)
        exact ⟨v, isLatest_concat.mpr (.inr ⟨hw, hv⟩)⟩
  · rintro ⟨v, earlier, later, rfl, _⟩
    exact ⟨_, List.mem_append_right _ List.mem_cons_self, rfl, rfl⟩

namespace Scopes

/-- The frames that have been opened since there were as many as `base` hold what was stored in
them last. -/
structure Recorded (base : Nat) (writes : List Write) (scopes : Scopes) : Prop where
  started : base ≤ scopes.store.nextFrame
  within : ∀ scope ∈ scopes.opened, ∀ f ∈ scope.frames, base ≤ f ∧ f < scopes.store.nextFrame
  bounded : ∀ w ∈ writes, w.frame < scopes.store.nextFrame
  latest : ∀ f, base ≤ f → ∀ name v,
    (scopes.store.frame f).find? name = some v ↔ IsLatest writes f name v

variable {base : Nat}

theorem Recorded.set (h : Recorded base writes scopes) (hscope : scope ∈ scopes.opened)
    (spelling : Spelling) (v : Value) :
    Recorded base (writes ++ [⟨scope.here, spelling.name, v⟩]) (scopes.set scope spelling v) := by
  have hnext : (scopes.set scope spelling v).store.nextFrame = scopes.store.nextFrame :=
    Store.nextFrame_define _ _ _ _
  have hhere : scope.here < scopes.store.frames.size :=
    (h.within scope hscope scope.here List.mem_cons_self).2
  refine ⟨?_, ?_, ?_, ?_⟩
  · rw [hnext]
    exact h.started
  · rw [hnext]
    exact h.within
  · rw [hnext]
    exact List.forall_mem_append.mpr ⟨h.bounded, List.forall_mem_singleton.mpr hhere⟩
  · intro f hf name u
    have hold := h.latest f hf name u
    have hframe : (scopes.set scope spelling v).store.frame f =
        if scope.here = f ∧ f < scopes.store.frames.size then
          (scopes.store.frame f).bind spelling.name v else scopes.store.frame f :=
      Store.frame_define _ _ _ _ _
    rw [hframe, isLatest_concat, ← hold, Write.mk.injEq]
    by_cases hsame : scope.here = f
    · subst hsame
      rw [if_pos ⟨rfl, hhere⟩]
      by_cases hname : spelling.name = name
      · subst hname
        simp [Frame.find?_bind_self]
      · simp [Frame.find?_bind_of_ne (Ne.symm hname), hname]
    · rw [if_neg fun hboth => hsame hboth.1]
      simp [hsame]

theorem Recorded.update (h : Recorded base writes scopes) (hscope : scope ∈ scopes.opened)
    (pairs : List (Spelling × Value)) :
    Recorded base (writes ++ writesTo scope.here pairs) (scopes.update scope pairs) := by
  induction pairs generalizing writes scopes with
  | nil =>
    rw [writesTo, List.map_nil, List.append_nil]
    exact h
  | cons pair pairs ih =>
    have hrest := ih (h.set hscope pair.1 pair.2) hscope
    rw [List.append_assoc] at hrest
    exact hrest

theorem addFrame_define (store : Store) (frame : Frame) (name : String) (v : Value) :
    (store.addFrame frame).define store.nextFrame name v =
      store.addFrame (frame.bind name v) := by
  have hframes : (store.frames.push frame).modify store.frames.size (·.bind name v) =
      store.frames.push (frame.bind name v) := by
    refine Array.ext_getElem? fun i => ?_
    rw [Array.getElem?_modify, Array.getElem?_push, Array.getElem?_push]
    by_cases hi : i = store.frames.size
    · simp [hi]
    · simp [hi, Ne.symm hi]
  simp only [Store.define, Store.addFrame, Store.nextFrame, hframes]

theorem update_addFrame (store : Store) (opened : List Scope) (hhere : scope.here = store.nextFrame)
    (frame : Frame) (pairs : List (Spelling × Value)) :
    update ⟨store.addFrame frame, opened⟩ scope pairs =
      ⟨store.addFrame (frame.bindAll (pairs.map fun pair => (pair.1.name, pair.2))), opened⟩ := by
  induction pairs generalizing frame with
  | nil => rfl
  | cons pair pairs ih =>
    have hset : set ⟨store.addFrame frame, opened⟩ scope pair.1 pair.2 =
        ⟨store.addFrame (frame.bind pair.1.name pair.2), opened⟩ := by
      rw [set, hhere, addFrame_define]
    rw [update, List.foldl_cons, hset]
    exact ih _

theorem here_around (outer : Option Scope) (f : FrameId) : (Scope.around outer f).here = f := by
  cases outer with
  | none => rfl
  | some outer => rfl

theorem frames_around (outer : Option Scope) (f : FrameId) :
    (Scope.around outer f).frames = f :: (outer.map Scope.frames).getD [] := by
  cases outer with
  | none => rfl
  | some outer => rfl

/-- Opening a scope is opening an empty one and storing the values in it, if there are as many
values as names. -/
theorem openWith_eq_ok_iff {outer : Option Scope} {spellings : List Spelling}
    {values : List Value} : scopes.openWith outer spellings values = .ok scopes' ↔
      spellings.length = values.length ∧
        scopes' = update ⟨scopes.store.addFrame [],
          scopes.opened ++ [.around outer scopes.store.nextFrame]⟩
          (.around outer scopes.store.nextFrame) (spellings.zip values) := by
  rw [update_addFrame _ _ (here_around _ _), openWith, Frame.ofParallel, List.length_map,
    List.zip_map_left]
  by_cases hlength : spellings.length = values.length
  · rw [if_pos hlength]
    simp only [hlength, true_and]
    exact ⟨fun h => (Except.ok.inj h).symm, fun h => congrArg Except.ok h.symm⟩
  · rw [if_neg hlength]
    simp only [hlength, false_and, iff_false]
    exact fun h => nomatch h

/-- An empty frame holds nothing, and nothing has been stored in it. -/
theorem Recorded.addFrame (h : Recorded base writes scopes) {outer : Option Scope}
    (houter : ∀ scope ∈ outer, scope ∈ scopes.opened) :
    Recorded base writes ⟨scopes.store.addFrame [],
      scopes.opened ++ [.around outer scopes.store.nextFrame]⟩ := by
  have hnext := Store.nextFrame_addFrame scopes.store []
  have hlater : ∀ {f}, f < scopes.store.nextFrame →
      f < (scopes.store.addFrame []).nextFrame := fun hf => hnext ▸ Nat.lt_succ_of_lt hf
  refine ⟨hnext ▸ Nat.le_succ_of_le h.started,
    List.forall_mem_append.mpr ⟨fun scope hscope f hf => ?_, ?_⟩,
    fun w hw => hlater (h.bounded w hw), fun f hf name v => ?_⟩
  · obtain ⟨hlow, hhigh⟩ := h.within scope hscope f hf
    exact ⟨hlow, hlater hhigh⟩
  · rw [List.forall_mem_singleton, frames_around]
    refine List.forall_mem_cons.mpr ⟨⟨h.started, hnext ▸ Nat.lt_succ_self _⟩, fun f hf => ?_⟩
    cases outer with
    | none => exact absurd hf List.not_mem_nil
    | some outer =>
      obtain ⟨hlow, hhigh⟩ := h.within outer (houter outer rfl) f hf
      exact ⟨hlow, hlater hhigh⟩
  · rw [Store.frame_addFrame_nil]
    exact h.latest f hf name v

theorem Recorded.change (h : Recorded base writes scopes)
    (hchange : scopes.Change more scopes') : Recorded base (writes ++ more) scopes' := by
  cases hchange with
  | @opening outer spellings values _ houter hopen =>
    obtain ⟨_, rfl⟩ := openWith_eq_ok_iff.mp hopen
    have hopened := h.addFrame houter
    have hwritten := hopened.update (List.mem_append_right _ List.mem_cons_self)
      (spellings.zip values)
    rwa [here_around] at hwritten
  | set hscope spelling value => exact h.set hscope spelling value
  | update hscope pairs => exact h.update hscope pairs

theorem History.recorded (h : History store writes scopes) :
    Recorded store.nextFrame writes scopes := by
  induction h with
  | start =>
    refine ⟨Nat.le_refl _, List.forall_mem_nil _, List.forall_mem_nil _, fun f hf name v => ?_⟩
    rw [Store.frame_of_le hf]
    constructor
    · exact fun h => nomatch h
    · rintro ⟨earlier, later, hnil, _⟩
      exact absurd hnil.symm (by simp)
  | change _ hchange ih => exact ih.change hchange

end Scopes

/-! ## What a name has -/

def IsSeen (writes : List Write) (scope : Scope) (name : String) (f : FrameId) : Prop :=
  ∃ nearer farther, scope.frames = nearer ++ f :: farther ∧ ∀ g ∈ nearer, ¬ StoredIn writes g name

def IsNearest (writes : List Write) (scope : Scope) (name : String) (f : FrameId) : Prop :=
  IsSeen writes scope name f ∧ StoredIn writes f name

variable {nearer rest : List FrameId}

theorem IsSeen.of_mem (hframes : scope.frames = nearer ++ rest)
    (hnearest : ∀ g ∈ nearer, ¬ StoredIn writes g name) (hf : f ∈ nearer) :
    IsSeen writes scope name f := by
  obtain ⟨first, between, rfl, _⟩ := List.eq_append_cons_of_mem hf
  exact ⟨first, between ++ rest, by simp [hframes],
    fun g hg => hnearest g (List.mem_append_left _ hg)⟩

theorem IsSeen.exists_first (h : IsSeen writes scope name f) :
    ∃ nearer farther, scope.frames = nearer ++ f :: farther ∧ f ∉ nearer ∧
      ∀ g ∈ nearer, ¬ StoredIn writes g name := by
  obtain ⟨nearer, farther, hframes, hnearest⟩ := h
  by_cases hf : f ∈ nearer
  · obtain ⟨first, between, rfl, hfirst⟩ := List.eq_append_cons_of_mem hf
    exact ⟨first, between ++ f :: farther, by simp [hframes], hfirst,
      fun g hg => hnearest g (List.mem_append_left _ hg)⟩
  · exact ⟨nearer, farther, hframes, hf, hnearest⟩

namespace Scopes

/-- What can be asked of a scope about a name, answered from what has been stored. -/
structure Shows (writes : List Write) (scopes : Scopes) (scope : Scope) (spelling : Spelling) :
    Prop where
  value : ∀ v, scopes.get scope spelling = .ok v ↔
    ∃ f, IsNearest writes scope spelling.name f ∧ IsLatest writes f spelling.name v
  unbound : scopes.get scope spelling = .error (.unbound spelling.name) ↔
    ∀ f ∈ scope.frames, ¬ StoredIn writes f spelling.name
  fault : ∀ e, scopes.get scope spelling = .error e → e = .unbound spelling.name
  binder : ∀ f, scopes.find scope spelling = some f ↔ IsNearest writes scope spelling.name f
  missing : scopes.find scope spelling = none ↔
    ∀ f ∈ scope.frames, ¬ StoredIn writes f spelling.name

/-- Every scope shows what has been stored, and storing a value is seen in just the scopes that
have the frame with nothing nearer under that name. -/
structure IsLawful (writes : List Write) (scopes : Scopes) : Prop where
  opens : ∀ outer spellings values,
    (∃ scopes', scopes.openWith outer spellings values = .ok scopes') ↔
      spellings.length = values.length
  shows : ∀ scope ∈ scopes.opened, ∀ spelling, scopes.Shows writes scope spelling
  seen : ∀ target ∈ scopes.opened, ∀ other v, ∀ scope ∈ scopes.opened, ∀ spelling,
    spelling.name = other.name → IsSeen writes scope spelling.name target.here →
      (scopes.set target other v).get scope spelling = .ok v
  unseen : ∀ target ∈ scopes.opened, ∀ other v, ∀ scope ∈ scopes.opened, ∀ spelling,
    (scopes.set target other v).get scope spelling ≠ scopes.get scope spelling →
      spelling.name = other.name ∧ IsSeen writes scope spelling.name target.here

variable {spelling : Spelling} {base : Nat} {e : Fault}

theorem get_eq_ok_iff : scopes.get scope spelling = .ok v ↔
    scopes.store.lookup? scope spelling.name = some v := by
  rw [get]
  cases scopes.store.lookup? scope spelling.name with
  | none => simp
  | some u => simp

theorem get_eq_error_iff : scopes.get scope spelling = .error e ↔
    scopes.store.lookup? scope spelling.name = none ∧ e = .unbound spelling.name := by
  rw [get]
  cases scopes.store.lookup? scope spelling.name with
  | none => simp [eq_comm]
  | some u => simp

theorem Recorded.find?_eq_none_iff (h : Recorded base writes scopes) (hf : base ≤ f) :
    (scopes.store.frame f).find? name = none ↔ ¬ StoredIn writes f name := by
  rw [storedIn_iff_exists_isLatest, not_exists, Option.eq_none_iff_forall_ne_some]
  exact forall_congr' fun v => not_congr (h.latest f hf name v)

theorem Recorded.isSome_iff (h : Recorded base writes scopes) (hf : base ≤ f) :
    ((scopes.store.frame f).find? name).isSome = true ↔ StoredIn writes f name := by
  rw [← not_iff_not, ← h.find?_eq_none_iff hf, Option.not_isSome_iff_eq_none]

section Shown

variable (h : Recorded base writes scopes) (hscope : scope ∈ scopes.opened)
include h hscope

theorem Recorded.base_le : ∀ f ∈ scope.frames, base ≤ f :=
  fun f hf => (h.within scope hscope f hf).1

theorem Recorded.lookup?_eq_none_iff : scopes.store.lookup? scope name = none ↔
    ∀ f ∈ scope.frames, ¬ StoredIn writes f name := by
  rw [Store.lookup?, List.findSome?_eq_none_iff]
  exact forall₂_congr fun f hf => h.find?_eq_none_iff (h.base_le hscope f hf)

theorem Recorded.lookup?_eq_some_iff : scopes.store.lookup? scope name = some v ↔
    ∃ f, IsNearest writes scope name f ∧ IsLatest writes f name v := by
  have hbase := h.base_le hscope
  rw [Store.lookup?, List.findSome?_eq_some_iff]
  constructor
  · rintro ⟨nearer, f, farther, hframes, hv, hnone⟩
    rw [hframes] at hbase
    obtain ⟨hnearer, hrest⟩ := List.forall_mem_append.mp hbase
    have hlatest := (h.latest f (hrest f List.mem_cons_self) name v).mp hv
    refine ⟨f, ⟨⟨nearer, farther, hframes, fun g hg => ?_⟩, ?_⟩, hlatest⟩
    · exact (h.find?_eq_none_iff (hnearer g hg)).mp (hnone g hg)
    · exact storedIn_iff_exists_isLatest.mpr ⟨v, hlatest⟩
  · rintro ⟨f, ⟨⟨nearer, farther, hframes, hnearest⟩, _⟩, hlatest⟩
    rw [hframes] at hbase
    obtain ⟨hnearer, hrest⟩ := List.forall_mem_append.mp hbase
    refine ⟨nearer, f, farther, hframes, ?_, fun g hg => ?_⟩
    · exact (h.latest f (hrest f List.mem_cons_self) name v).mpr hlatest
    · exact (h.find?_eq_none_iff (hnearer g hg)).mpr (hnearest g hg)

theorem Recorded.binder?_eq_none_iff : scopes.store.binder? scope name = none ↔
    ∀ f ∈ scope.frames, ¬ StoredIn writes f name := by
  rw [Store.binder?, List.find?_eq_none]
  exact forall₂_congr fun f hf => not_congr (h.isSome_iff (h.base_le hscope f hf))

theorem Recorded.binder?_eq_some_iff :
    scopes.store.binder? scope name = some f ↔ IsNearest writes scope name f := by
  have hbase := h.base_le hscope
  rw [Store.binder?, List.find?_eq_some_iff_append]
  constructor
  · rintro ⟨hbound, nearer, farther, hframes, hnone⟩
    rw [hframes] at hbase
    obtain ⟨hnearer, hrest⟩ := List.forall_mem_append.mp hbase
    refine ⟨⟨nearer, farther, hframes, fun g hg hstored => ?_⟩,
      (h.isSome_iff (hrest f List.mem_cons_self)).mp hbound⟩
    have hunbound := hnone g hg
    rw [(h.isSome_iff (hnearer g hg)).mpr hstored] at hunbound
    exact Bool.false_ne_true hunbound
  · rintro ⟨⟨nearer, farther, hframes, hnearest⟩, hstored⟩
    rw [hframes] at hbase
    obtain ⟨hnearer, hrest⟩ := List.forall_mem_append.mp hbase
    refine ⟨(h.isSome_iff (hrest f List.mem_cons_self)).mpr hstored, nearer, farther, hframes,
      fun g hg => ?_⟩
    rw [(h.find?_eq_none_iff (hnearer g hg)).mpr (hnearest g hg)]
    rfl

theorem Recorded.shows (spelling : Spelling) : scopes.Shows writes scope spelling where
  value := fun _ => get_eq_ok_iff.trans (h.lookup?_eq_some_iff hscope)
  unbound := by
    rw [get_eq_error_iff, h.lookup?_eq_none_iff hscope]
    exact and_iff_left rfl
  fault := fun _ he => (get_eq_error_iff.mp he).2
  binder := fun _ => h.binder?_eq_some_iff hscope
  missing := h.binder?_eq_none_iff hscope

/-- A value that is stored in a frame is seen from every scope that has the frame with nothing
nearer under that name. -/
theorem Recorded.get_set {target : Scope} (htarget : target ∈ scopes.opened) {other : Spelling}
    (hname : spelling.name = other.name) (hseen : IsSeen writes scope spelling.name target.here)
    (v : Value) : (scopes.set target other v).get scope spelling = .ok v := by
  obtain ⟨nearer, farther, hframes, hfirst, hnearest⟩ := hseen.exists_first
  have hset := h.set htarget other v
  have hlatest : IsLatest (writes ++ [⟨target.here, other.name, v⟩]) target.here spelling.name v :=
    hname ▸ isLatest_concat.mpr (.inl rfl)
  refine get_eq_ok_iff.mpr ((hset.lookup?_eq_some_iff hscope).mpr
    ⟨target.here, ⟨⟨nearer, farther, hframes, fun g hg => ?_⟩, ?_⟩, hlatest⟩)
  · rw [storedIn_concat, not_or]
    refine ⟨hnearest g hg, ?_⟩
    rintro ⟨rfl, _⟩
    exact hfirst hg
  · exact storedIn_iff_exists_isLatest.mpr ⟨v, hlatest⟩

/-- From any other scope, and under any other name, it is not seen. -/
theorem Recorded.get_set_of_unseen {target : Scope} (htarget : target ∈ scopes.opened)
    {other : Spelling}
    (hunseen : ¬ (spelling.name = other.name ∧ IsSeen writes scope spelling.name target.here))
    (v : Value) : (scopes.set target other v).get scope spelling = scopes.get scope spelling := by
  have hset := h.set htarget other v
  -- where nothing was stored before, nothing is stored now that could be seen
  have hkept : ∀ {nearer rest : List FrameId}, scope.frames = nearer ++ rest →
      (∀ g ∈ nearer, ¬ StoredIn writes g spelling.name) → ∀ g ∈ nearer,
        ¬ StoredIn (writes ++ [⟨target.here, other.name, v⟩]) g spelling.name := by
    intro nearer rest hframes hnearest g hg
    rw [storedIn_concat, not_or]
    refine ⟨hnearest g hg, ?_⟩
    rintro ⟨rfl, hname⟩
    exact hunseen ⟨hname.symm, .of_mem hframes hnearest hg⟩
  cases hvalue : scopes.store.lookup? scope spelling.name with
  | none =>
    have hnone := (h.lookup?_eq_none_iff hscope).mp hvalue
    have hnone' := hkept (List.append_nil _).symm hnone
    rw [get_eq_error_iff.mpr ⟨hvalue, rfl⟩]
    exact get_eq_error_iff.mpr ⟨(hset.lookup?_eq_none_iff hscope).mpr hnone', rfl⟩
  | some u =>
    obtain ⟨f, ⟨hseen, hstored⟩, hlatest⟩ := (h.lookup?_eq_some_iff hscope).mp hvalue
    obtain ⟨nearer, farther, hframes, hnearest⟩ := hseen
    have hother : ¬ (target.here = f ∧ other.name = spelling.name) := fun ⟨hsame, hname⟩ =>
      hunseen ⟨hname.symm, hsame ▸ ⟨nearer, farther, hframes, hnearest⟩⟩
    rw [get_eq_ok_iff.mpr hvalue]
    refine get_eq_ok_iff.mpr ((hset.lookup?_eq_some_iff hscope).mpr ⟨f, ⟨?_, ?_⟩, ?_⟩)
    · exact ⟨nearer, farther, hframes, hkept hframes hnearest⟩
    · exact storedIn_concat.mpr (.inl hstored)
    · exact isLatest_concat.mpr (.inr ⟨hother, hlatest⟩)

end Shown

/-- Every scope shows for every name what was stored last under it in its nearest frame that it
was ever stored in, after any operations on any scopes. -/
theorem History.isLawful (h : History store writes scopes) : scopes.IsLawful writes where
  opens := fun _ _ _ =>
    ⟨fun ⟨_, hopen⟩ => (openWith_eq_ok_iff.mp hopen).1,
      fun hlength => ⟨_, openWith_eq_ok_iff.mpr ⟨hlength, rfl⟩⟩⟩
  shows := fun _ hscope spelling => h.recorded.shows hscope spelling
  seen := fun _ htarget _ v _ hscope _ hname hseen =>
    h.recorded.get_set hscope htarget hname hseen v
  unseen := fun _ htarget _ v _ hscope _ hchanged =>
    Classical.byContradiction fun hunseen =>
      hchanged (h.recorded.get_set_of_unseen hscope htarget hunseen v)

/-- A name in two scopes, one inside the other: bound in the outer one, then stored in the inner
one as a symbol, and then updated in the outer one. -/
theorem History.isLawful_shadowed :
    let outer := Scope.global 0
    let inner := outer.nest 1
    let writes : List Write := [⟨0, "x", .int 1⟩, ⟨1, "x", .int 2⟩, ⟨0, "x", .int 3⟩]
    ∃ scopes, History (.initial .empty "" 0) writes scopes ∧ scopes.IsLawful writes ∧
      scopes.get inner (.text "x") = .ok (.int 2) ∧ scopes.find inner (.symbol "x") = some 1 ∧
      scopes.get outer (.symbol "x") = .ok (.int 3) ∧
      scopes.get inner (.text "y") = .error (.unbound "y") := by
  intro outer inner writes
  let start : Scopes := ⟨.initial .empty "" 0, []⟩
  let first : Scopes := ⟨start.store.addFrame [("x", .int 1)], [outer]⟩
  let second : Scopes := ⟨first.store.addFrame [], [outer, inner]⟩
  have houter : start.openWith none [.text "x"] [.int 1] = .ok first := rfl
  have hinner : first.openWith (some outer) [] [] = .ok second := rfl
  have hmember : inner ∈ second.opened := List.mem_cons_of_mem _ List.mem_cons_self
  have hopened := (History.start.change (.opening (by simp) houter)).change
    (.opening (by simp [first]) hinner)
  have hupdated := (hopened.change (.set hmember (.symbol "x") (.int 2))).change
    (.update List.mem_cons_self [(.text "x", .int 3)])
  have hhistory : History start.store writes _ := hupdated
  exact ⟨_, hhistory, hhistory.isLawful, rfl, rfl, rfl, rfl⟩

end Scopes

end SmallLisp
