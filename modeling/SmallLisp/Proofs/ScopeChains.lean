import SmallLisp.Proofs.Lookups
import SmallLisp.Proofs.ReachedStates

/-! # Every scope ends at the global frame

Each frame but the global one has one frame around it. Going outward from the innermost frame of a
scope, however the scope can be reached, meets no frame twice and ends at the global frame. This
holds in every reached state and is kept by everything that is evaluated there.
-/
namespace SmallLisp

inductive Walk (outer : FrameId → Option FrameId) : Option FrameId → List FrameId → Prop where
  | done : Walk outer none []
  | step {f : FrameId} {frames : List FrameId} (h : Walk outer (outer f) frames) :
      Walk outer (some f) (f :: frames)

inductive Search {α : Type} (outer : FrameId → Option FrameId) (ask : FrameId → Option α) :
    Option FrameId → Option α → Prop where
  | missing : Search outer ask none none
  | found {f : FrameId} {a : α} (h : ask f = some a) : Search outer ask (some f) (some a)
  | onward {f : FrameId} {result : Option α} (h : ask f = none)
      (hrest : Search outer ask (outer f) result) : Search outer ask (some f) result

section Walks

variable {outer : FrameId → Option FrameId} {start : Option FrameId} {f : FrameId}
  {frames frames' : List FrameId}

theorem Walk.unique (h : Walk outer start frames) (h' : Walk outer start frames') :
    frames = frames' := by
  induction h generalizing frames' with
  | done =>
    cases h'
    rfl
  | step _ ih =>
    cases h' with
    | step h' => rw [ih h']

theorem Walk.from_mem (h : Walk outer start frames) (hf : f ∈ frames) :
    ∃ farther, Walk outer (some f) (f :: farther) ∧ (f :: farther) <:+ frames := by
  induction h with
  | done => cases hf
  | @step g frames h ih =>
    rcases List.mem_cons.mp hf with rfl | hf
    · exact ⟨frames, .step h, List.suffix_refl _⟩
    · obtain ⟨farther, hwalk, hsuffix⟩ := ih hf
      exact ⟨farther, hwalk, hsuffix.trans (List.suffix_cons g frames)⟩

/-- Only a walk that ends nowhere could come back to a frame. -/
theorem Walk.nodup (h : Walk outer start frames) : frames.Nodup := by
  induction h with
  | done => exact List.nodup_nil
  | @step f frames h ih =>
    refine List.nodup_cons.mpr ⟨fun hf => ?_, ih⟩
    obtain ⟨farther, hwalk, hsuffix⟩ := h.from_mem hf
    have hsame : f :: farther = f :: frames := hwalk.unique (.step h)
    have hlength := hsuffix.length_le
    rw [hsame] at hlength
    exact Nat.not_succ_le_self _ hlength

theorem Walk.search {α : Type} (h : Walk outer start frames) (ask : FrameId → Option α) :
    Search outer ask start (frames.findSome? ask) := by
  induction h with
  | done => exact .missing
  | @step f frames h ih =>
    rw [List.findSome?_cons]
    cases hask : ask f with
    | none => exact .onward hask ih
    | some a => exact .found hask

end Walks

structure Hand where
  values : List Value
  scopes : List Scope

def Hand.empty : Hand := ⟨[], []⟩

def Hand.ofValue (v : Value) : Hand := ⟨[v], []⟩

def Hand.append (hand more : Hand) : Hand :=
  ⟨hand.values ++ more.values, hand.scopes ++ more.scopes⟩

def Task.hand : Task → Hand
  | .evaluate form scope => ⟨[form], [scope]⟩
  | .call function arguments => ⟨function :: arguments, []⟩

def Step.hand : Step → Hand
  | .done v => .ofValue v
  | .tail form scope => ⟨[form], [scope]⟩

def Failure.hand : Failure → Hand
  | .thrown payload => .ofValue payload
  | _ => .empty

def State.hand (session : Session) : State → Hand
  | .idle _ => ⟨[], [session.scope]⟩
  | .busy _ task _ => ⟨task.hand.values, session.scope :: task.hand.scopes⟩

inductive Store.Reaches (store : Store) (hand : Hand) : Value → Prop where
  | held {v : Value} (h : v ∈ hand.values) : Reaches store hand v
  | bound {f : FrameId} {b : String × Value} (h : b ∈ store.frame f) : Reaches store hand b.2
  | content (cell : CellId) : Reaches store hand (store.heap.content cell)
  | inside {u v : Value} (h : Reaches store hand v) (hu : u ∈ v.parts) : Reaches store hand u

inductive Store.ReachesScope (store : Store) (hand : Hand) : Scope → Prop where
  | held {scope : Scope} (h : scope ∈ hand.scopes) : ReachesScope store hand scope
  | closure {id : Identity} {parameters : Parameters} {body metadata : Value} {scope : Scope}
      {expands : Bool}
      (h : store.Reaches hand (.closure id parameters body scope expands metadata)) :
      ReachesScope store hand scope
  | native {id : Identity} {op : Builtin} {global : FrameId} {metadata : Value}
      (h : store.Reaches hand (.native id op global metadata)) :
      ReachesScope store hand (.global global)
  | around {scope : Scope} {f : FrameId} (h : ReachesScope store hand (scope.nest f)) :
      ReachesScope store hand scope

/-- A scope whose frames are all met on the way outward from the innermost one, once each, with
the global frame as the last. So looking for a name or for the last frame comes to an end. -/
structure Scope.IsRooted (outer : FrameId → Option FrameId) (home : FrameId) (store : Store)
    (scope : Scope) : Prop where
  walk : Walk outer (some scope.here) scope.frames
  distinct : scope.frames.Nodup
  present : scope.IsIn store
  root_eq : scope.root = home
  find : ∀ name, Search outer (Option.guard fun f => ((store.frame f).find? name).isSome)
    (some scope.here) (store.binder? scope name)
  get : ∀ name, Search outer (fun f => (store.frame f).find? name) (some scope.here)
    (store.lookup? scope name)

/-- All scopes that can be reached are rooted in the only frame with none around it, and a call of
`eval`, direct or by way of `apply`, goes on in the root of whatever scope it is made in. -/
structure Store.Rooted (outer : FrameId → Option FrameId) (home : FrameId) (store : Store)
    (hand : Hand) : Prop where
  scopes : ∀ scope, store.ReachesScope hand scope → scope.IsRooted outer home store
  only : ∀ f < store.nextFrame, outer f = none ↔ f = home
  eval : ∀ function arguments, store.Reaches hand function →
    (∀ v ∈ arguments, store.Reaches hand v) → ∀ global form,
      Callee.ofCall function arguments = .ok (.builtin (.call .eval) global, [form]) →
        ∀ scope, store.ReachesScope hand scope → ∀ run store',
          applyFunction run function arguments store' =
            .ok (.tail form (.global scope.root)) store'

/-- An end in which all scopes are rooted: those of the result, those that were kept at hand
meanwhile, and those in the store. No frame that was there before has got another one around it. -/
def EndsRooted {α : Type} (outer : FrameId → Option FrameId) (home : FrameId) (before : Store)
    (kept : Hand) (hand : α → Hand) : EStateM.Result Failure Store α → Prop
  | .ok a store => ∃ outer', (∀ f < before.nextFrame, outer' f = outer f) ∧
      store.Rooted outer' home (kept.append (hand a))
  | .error failure store => ∃ outer', (∀ f < before.nextFrame, outer' f = outer f) ∧
      store.Rooted outer' home (kept.append failure.hand)

structure State.Rooted (limits : Limits) (session : Session) (outer : FrameId → Option FrameId)
    (state : State) : Prop where
  now : state.store.Rooted outer session.scope.here (state.hand session)
  evaluate : ∀ source, EndsRooted outer session.scope.here state.store (state.hand session)
    Hand.ofValue (session.evaluate source state.store)
  answer : ∀ source, EndsRooted outer session.scope.here state.store (state.hand session)
    (fun _ => .empty) (session.answer source state.store)
  step : ∀ level task store, state = .busy level task store →
    EndsRooted outer session.scope.here store (state.hand session) Step.hand
      (task.step limits.steps (runTask limits.steps level) store)
  whole : ∀ level task store, state = .busy level task store →
    EndsRooted outer session.scope.here store (state.hand session) Hand.ofValue
      (runTask limits.steps (level + 1) task store)

section Layouts

variable {home : FrameId} {tolerant : Bool} {layout layout' : Layout home tolerant}
  {scope : Scope} {store : Store} {f : FrameId} {hand more : Hand} {v : Value}

def Layout.outer (layout : Layout home tolerant) (f : FrameId) : Option FrameId :=
  (layout.links[f]?.getD []).head?

theorem Scope.In.outer_eq (h : scope.In layout) :
    layout.outer scope.here = scope.enclosing.head? := by
  have hlink : layout.links[scope.here]? = some scope.enclosing := h
  rw [Layout.outer, hlink, Option.getD_some]

/-- Every scope of a layout is made from the global one by nesting. -/
theorem Scope.In.induct {motive : Scope → Prop} (global : motive (.global home))
    (nest : ∀ (scope : Scope) (f : FrameId), (scope.nest f).In layout → motive scope →
      motive (scope.nest f)) (h : scope.In layout) : motive scope := by
  obtain ⟨f, chain⟩ := scope
  induction chain generalizing f with
  | nil =>
    obtain ⟨rfl, -⟩ | ⟨outer, -, hchain⟩ := layout.nested f [] h
    · exact global
    · cases hchain
  | cons g chain ih =>
    obtain ⟨-, hchain⟩ | ⟨⟨_, _⟩, houter, hchain⟩ := layout.nested f (g :: chain) h
    · cases hchain
    · cases hchain
      exact nest ⟨_, _⟩ f h (ih _ houter)

theorem Scope.In.around (h : (scope.nest f).In layout) : scope.In layout := by
  obtain ⟨-, hchain⟩ | ⟨⟨_, _⟩, houter, hchain⟩ := layout.nested f scope.frames h
  · cases hchain
  · cases hchain
    exact houter

theorem Scope.In.walk (h : scope.In layout) :
    Walk layout.outer (some scope.here) scope.frames := by
  refine h.induct (motive := fun scope => Walk layout.outer (some scope.here) scope.frames)
    (.step ?_) fun scope f hnest ih => .step ?_
  · rw [(Scope.in_global layout).outer_eq]
    exact .done
  · rw [hnest.outer_eq]
    exact ih

theorem Scope.In.root_eq (h : scope.In layout) : scope.root = home :=
  h.induct (Scope.root_global home) fun scope f _ ih => (Scope.root_nest scope f).trans ih

theorem Scope.In.here_lt (h : scope.In layout) (hfits : store.Fits layout) :
    scope.here < store.nextFrame := by
  rw [Store.nextFrame, hfits.size_eq]
  exact (List.getElem?_eq_some_iff.mp h).1

theorem Scope.In.isIn (h : scope.In layout) (hfits : store.Fits layout) : scope.IsIn store := by
  refine h.induct (motive := (·.IsIn store)) ?_ fun scope f hnest ih => ?_
  · exact List.forall_mem_singleton.mpr ((Scope.in_global layout).here_lt hfits)
  · exact List.forall_mem_cons.mpr ⟨hnest.here_lt hfits, ih⟩

theorem Scope.In.isRooted (h : scope.In layout) (hfits : store.Fits layout) :
    scope.IsRooted layout.outer home store where
  walk := h.walk
  distinct := h.walk.nodup
  present := h.isIn hfits
  root_eq := h.root_eq
  find := fun name => by
    rw [Store.binder?, List.find?_eq_findSome?_guard]
    exact h.walk.search _
  get := fun name => h.walk.search _

theorem Layout.outer_eq_none_iff (hfits : store.Fits layout) (hf : f < store.nextFrame) :
    layout.outer f = none ↔ f = home := by
  rw [Store.nextFrame, hfits.size_eq] at hf
  have hlink : (⟨f, layout.links[f]⟩ : Scope).In layout := List.getElem?_eq_getElem hf
  constructor
  · intro hnone
    have hempty : layout.links[f] = [] :=
      List.head?_eq_none_iff.mp (hlink.outer_eq.symm.trans hnone)
    rw [hempty] at hlink
    exact hlink.root_eq
  · rintro rfl
    exact (Scope.in_global layout).outer_eq

theorem Layout.Within.outer_eq (hl : layout.Within layout') (hfits : store.Fits layout)
    (hf : f < store.nextFrame) : layout'.outer f = layout.outer f := by
  rw [Store.nextFrame, hfits.size_eq] at hf
  obtain ⟨added, hadded⟩ := hl
  rw [Layout.outer, Layout.outer, ← hadded, List.getElem?_append_left hf]

structure Hand.In (layout : Layout home tolerant) (hand : Hand) : Prop where
  values : ∀ v ∈ hand.values, v.Valid layout
  scopes : ∀ scope ∈ hand.scopes, scope.In layout

theorem Hand.in_empty : Hand.empty.In layout := ⟨List.forall_mem_nil _, List.forall_mem_nil _⟩

theorem Hand.in_ofValue (h : v.Valid layout) : (Hand.ofValue v).In layout :=
  ⟨List.forall_mem_singleton.mpr h, List.forall_mem_nil _⟩

theorem Hand.In.mono (h : hand.In layout) (hl : layout.Within layout') : hand.In layout' :=
  ⟨Value.forall_valid_mono h.values hl, fun scope hscope => (h.scopes scope hscope).mono hl⟩

theorem Hand.In.append (h : hand.In layout) (h' : more.In layout) :
    (hand.append more).In layout :=
  ⟨List.forall_mem_append.mpr ⟨h.values, h'.values⟩,
    List.forall_mem_append.mpr ⟨h.scopes, h'.scopes⟩⟩

theorem Task.Valid.hand_in {origin : Origin} {task : Task} (h : task.Valid origin layout) :
    task.hand.In layout := by
  cases task with
  | evaluate form scope =>
    exact ⟨List.forall_mem_singleton.mpr h.1, List.forall_mem_singleton.mpr h.2.inLayout⟩
  | call function arguments => exact ⟨List.forall_mem_cons.mpr h, List.forall_mem_nil _⟩

theorem Failure.Allowed.hand_in {store : Store} {faulty : Bool} {failure : Failure}
    (h : failure.Allowed store layout faulty) : failure.hand.In layout := by
  cases failure with
  | thrown payload => exact Hand.in_ofValue h
  | fault f => exact Hand.in_empty
  | abort reason => exact Hand.in_empty

theorem Store.Reaches.valid (h : store.Reaches hand v) (hfits : store.Fits layout)
    (hhand : hand.In layout) : v.Valid layout := by
  induction h with
  | held hv => exact hhand.values _ hv
  | bound hb => exact hfits.bindings _ _ hb
  | content cell => exact hfits.contents cell
  | inside _ hu ih => exact ih.inside _ hu

theorem Store.ReachesScope.in_layout (h : store.ReachesScope hand scope)
    (hfits : store.Fits layout) (hhand : hand.In layout) : scope.In layout := by
  induction h with
  | held hscope => exact hhand.scopes _ hscope
  | closure hclosure => exact (Value.valid_closure.mp (hclosure.valid hfits hhand)).1
  | native hnative =>
    rw [(Value.valid_native.mp (hnative.valid hfits hhand)).1]
    exact Scope.in_global layout
  | around _ ih => exact ih.around

theorem applyFunction_eval {function form : Value} {arguments : List Value} {global : FrameId}
    (h : Callee.ofCall function arguments = .ok (.builtin (.call .eval) global, [form]))
    (run : Runner) (store : Store) :
    applyFunction run function arguments store = .ok (.tail form (.global global)) store := by
  rw [applyFunction, h]
  rfl

theorem Store.Fits.rooted (hfits : store.Fits layout) (hhand : hand.In layout) :
    store.Rooted layout.outer home hand where
  scopes := fun _ hscope => (hscope.in_layout hfits hhand).isRooted hfits
  only := fun _ hf => Layout.outer_eq_none_iff hfits hf
  eval := by
    intro function arguments hfunction harguments global form hcall scope hscope run store'
    have hvalid := Callee.ofCall_gives (hfunction.valid hfits hhand)
      (fun v hv => (harguments v hv).valid hfits hhand) _ hcall
    have hglobal : global = home := hvalid.1
    rw [applyFunction_eval hcall, (hscope.in_layout hfits hhand).root_eq, hglobal]

end Layouts

section Evaluations

variable {home : FrameId} {layout : Layout home true}

theorem Value.IsResult.hand_in {v : Value} (h : v.IsResult layout) :
    (Hand.ofValue v).In layout := by
  rcases h with h | ⟨message, rfl⟩
  · exact Hand.in_ofValue h
  · exact Hand.in_ofValue (every_of_parts_nil rfl rfl)

theorem Step.Valid.hand_in {origin : Origin} {step : Step} (h : step.Valid origin layout) :
    step.hand.In layout := by
  cases step with
  | done v => exact Value.IsResult.hand_in h
  | tail form scope =>
    have hnext : (Task.evaluate form scope).Valid origin layout := h
    exact hnext.hand_in

theorem Sound.endsRooted {α : Type} {x : EvalM α} {ok : Layout home true → α → Prop}
    {store : Store} {own : FrameId} {kept : Hand} {hand : α → Hand}
    (hx : Sound ⟨store, own⟩ layout false x ok) (hfits : store.Fits layout)
    (hkept : kept.In layout) (hok : ∀ layout' a, ok layout' a → (hand a).In layout') :
    EndsRooted layout.outer home store kept hand (x store) := by
  cases hr : x store with
  | ok a store' =>
    obtain ⟨layout', hl, hinv, ha⟩ := hx.result (hfits.invariant own) hr
    exact ⟨layout'.outer, fun f hf => hl.outer_eq hfits hf,
      hinv.fits.rooted ((hkept.mono hl).append (hok layout' a ha))⟩
  | error failure store' =>
    obtain ⟨layout', hl, hinv, hf⟩ := hx.failure (hfits.invariant own) hr
    exact ⟨layout'.outer, fun f hf => hl.outer_eq hfits hf,
      hinv.fits.rooted ((hkept.mono hl).append hf.hand_in)⟩

theorem State.Valid.hand_in {session : Session} {state : State} (h : state.Valid layout)
    (hscope : session.scope.In layout) : (state.hand session).In layout := by
  cases state with
  | idle store => exact ⟨List.forall_mem_nil _, List.forall_mem_singleton.mpr hscope⟩
  | busy level task store =>
    obtain ⟨_, _, htask⟩ := h
    exact ⟨htask.hand_in.values, List.forall_mem_cons.mpr ⟨hscope, htask.hand_in.scopes⟩⟩

end Evaluations

/-- In every reached state there is one way outward, on which every scope that can be reached ends
at the global frame of the session. -/
theorem Reached.scopes_rooted {limits : Limits} {session : Session} {state : State}
    (h : Reached limits session state) : ∃ outer, state.Rooted limits session outer := by
  obtain ⟨layout, hvalid⟩ : ∃ layout : Layout session.scope.here true, state.Valid layout :=
    h.valid
  have hscope := h.scope_in layout
  have husable := hscope.usable state.store
  have hhand := hvalid.hand_in hscope
  refine ⟨layout.outer, hvalid.fits.rooted hhand, fun source => ?_, fun source => ?_, ?_, ?_⟩
  · exact (sound_evaluateText h.run_isSound husable source).endsRooted hvalid.fits hhand
      fun _ _ hv => Value.IsResult.hand_in hv
  · exact (sound_answer h.run_isSound husable source).endsRooted hvalid.fits hhand
      fun _ _ _ => Hand.in_empty
  · rintro level task store rfl
    obtain ⟨hfits, _, htask⟩ := hvalid
    have hstep := Task.sound_step limits.steps (runTask_isSound limits.steps level) htask
    exact hstep.endsRooted hfits hhand fun _ _ hnext => Step.Valid.hand_in hnext
  · rintro level task store rfl
    obtain ⟨hfits, own, htask⟩ := hvalid
    exact (runTask_isSound limits.steps (level + 1) _ _ task htask).endsRooted hfits hhand
      fun _ _ hv => Value.IsResult.hand_in hv

/-- A session is about to make a function inside a scope of its own. -/
theorem Reached.scopes_rooted_nested :
    let limits : Limits := ⟨9, 3⟩
    let body := Value.ofList [.symbol "fn*", .ofList [], .symbol "x"]
    let form := Value.ofList [.symbol "let*", .ofList [.symbol "x", .int 1], body]
    ∃ session store store' outer,
      Session.start limits.runner [] ["a"] false (.initial .empty "" 0) = .ok session store ∧
        readForms "(let* (x 1) (fn* () x))" = .ok [form] ∧
        (State.busy 2 (.evaluate body (session.scope.nest store.nextFrame)) store').Rooted limits
          session outer := by
  intro limits body form
  have hsource : readForms "(let* (x 1) (fn* () x))" = .ok ([] ++ form :: []) := rfl
  obtain ⟨session, store, hstart⟩ := start_bare limits.runner ["a"] .empty "" 0
  have hform : Reached limits session (.busy 2 (.evaluate form session.scope) store) :=
    .form (.started hstart) hsource rfl rfl rfl
  obtain ⟨outer, hrooted⟩ := Reached.scopes_rooted (.tail hform rfl)
  exact ⟨session, store, _, outer, hstart, hsource, hrooted⟩

end SmallLisp
