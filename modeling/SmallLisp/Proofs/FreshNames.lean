import SmallLisp.Proofs.Capture
import SmallLisp.Proofs.GeneratorCalls
import SmallLisp.Proofs.PreludeDefinitions
import SmallLisp.Proofs.Runs

/-! # Generated names are fresh

The generator of names counts up its counter in every call that makes a name. So as long as nothing
else writes the counter and the names it uses keep their bindings, no name is made twice in a run,
whatever else the run does.
-/
namespace SmallLisp

variable {store store' : Store} {counter cell : CellId} {v : Value} {bound : Nat}
  {call body m : Moment} {home : FrameId}

def Store.CountsOn (counter : CellId) (store store' : Store) : Prop :=
  ∀ n : Int, store.heap.content counter = .int n →
    ∃ n' : Int, n ≤ n' ∧ store'.heap.content counter = .int n'

theorem content_addCell_of_number {n : Int} (h : store.heap.content counter = .int n)
    (content : Value) : (store.addCell content).heap.content counter = .int n := by
  have hcell : counter < store.heap.cells.size := lt_nextCell_of_number h
  rw [Heap.content, Array.getD_eq_getD_getElem?] at h ⊢
  rw [Store.addCell, Heap.addCell, Array.getElem?_push_lt hcell, ← Array.getElem?_eq_getElem hcell]
  exact h

instance (counter : CellId) : Store.Enduring (Store.CountsOn counter) where
  refl _ n h := ⟨n, Int.le_refl n, h⟩
  trans h h' n hn := by
    obtain ⟨n', hle, hn'⟩ := h n hn
    obtain ⟨n'', hle', hn''⟩ := h' n' hn'
    exact ⟨n'', Int.le_trans hle hle', hn''⟩
  change h n hn := by
    cases h with
    | addCell content => exact ⟨n, Int.le_refl n, content_addCell_of_number hn content⟩
    | _ => exact ⟨n, Int.le_refl n, hn⟩
  outside _ _ _ _ n h := ⟨n, Int.le_refl n, h⟩

theorem Store.countsOn_setCell
    (h : cell = counter → v = successorOf (store.heap.content counter)) :
    store.CountsOn counter (store.setCell cell v) := by
  intro n hn
  by_cases hcell : cell = counter
  · subst hcell
    have hsuccessor : v = .int (1 + n) := (h rfl).trans (congrArg successorOf hn)
    refine ⟨1 + n, by omega, ?_⟩
    rw [← hsuccessor]
    exact Heap.content_setCell_self (lt_nextCell_of_number hn) v
  · exact ⟨n, Int.le_refl n, (Heap.content_setCell_of_ne (Ne.symm hcell) v).trans hn⟩

def generatorNames : List String := "*gensym-counter*" :: generatorBuiltins.map (·.name)

/-- In the whole run, the names that the generator uses keep their bindings, and nothing is written
to the counter but within calls of the generator. -/
structure Session.KeepsCounter (limits : Limits) (session : Session) (store : Store)
    (turns : List Turn) (generator : Callee) (counter : CellId) : Prop where
  names : ∀ m, session.Passes limits store turns m → ∀ name ∈ generatorNames,
    m.store.lookup? session.scope name = store.lookup? session.scope name
  writes : ∀ m v store', session.Passes limits store turns m →
    m.Writes limits.steps counter v store' → ∃ call body, session.Passes limits store turns call ∧
      call.Calls limits.steps generator body ∧ body.Within limits.steps m

theorem Store.CanGenerate.of_lookup (h : store.CanGenerate (.global home) counter)
    (hnames : ∀ name ∈ generatorNames,
      store'.lookup? (.global home) name = store.lookup? (.global home) name) :
    store'.CanGenerate (.global home) counter where
  counter := (hnames _ List.mem_cons_self).trans h.counter
  offers op hop := (h.offers op hop).of_lookup
    (hnames _ (List.mem_cons_of_mem _ (List.mem_map_of_mem hop)))

def Moment.MakesName (bound : Nat) (call : Moment) : Prop :=
  Exhausted (call.finish bound) ∨
    ∃ n store, call.finish bound = outcomeEnd store ((generatedName n).map .symbol)

theorem nameEnd_eq (store : Store) (n : Int) :
    nameEnd store (numeralText n) = outcomeEnd store ((generatedName n).map .symbol) := by
  rw [generatedName]
  cases numeralText n with
  | ok text => rfl
  | error reason => rfl

theorem nameEnd_eq_ok {n : Int} (h : nameEnd store (numeralText n) = .ok v store') :
    store' = store ∧ ∃ name, v = .symbol name ∧ generatedName n = .ok name := by
  rw [generatedName]
  cases hnumeral : numeralText n with
  | ok text =>
    rw [hnumeral] at h
    cases h
    exact ⟨rfl, _, rfl, rfl⟩
  | error reason =>
    rw [hnumeral] at h
    cases h

theorem numeralText_injective {m n : Int} {text : List Char} (hm : numeralText m = .ok text)
    (hn : numeralText n = .ok text) : m = n := by
  have hvalue : ∀ {k : Int}, numeralText k = .ok text → Text.numeralValue text = k := by
    intro k h
    unfold numeralText at h
    split at h
    · next written hwritten =>
      cases h
      exact Text.numeralValue_numeral hwritten
    · cases h
  rw [← hvalue hm, hvalue hn]

theorem generatedName_injective {m n : Int} {name : String} (hm : generatedName m = .ok name)
    (hn : generatedName n = .ok name) : m = n := by
  have htext : ∀ {k : Int}, generatedName k = .ok name →
      numeralText k = .ok (name.toList.drop 3) := by
    intro k h
    rw [generatedName] at h
    cases hnumeral : numeralText k with
    | ok text =>
      rw [hnumeral] at h
      cases h
      simp
    | error reason =>
      rw [hnumeral] at h
      cases h
  exact numeralText_injective (htext hm) (htext hn)

theorem formsOf_generatorCall : formsOf "(gensym)" = [generatorCall] := rfl

section Turns

variable {limits : Limits} {session : Session} {level : Nat}

theorem begins_asking_iff (hscope : session.scope = .global home)
    (hdepth : limits.depth = level + 1) :
    (Turn.answer "(gensym)").Begins limits session store m ↔
      m = .atCall level limits.steps home store := by
  have hpart : ∀ r, HasPart (fun run => evaluateForms run session.scope
      (Turn.answer "(gensym)").forms) session.run store r ↔
      r = ⟨.evaluate generatorCall (.global home), store⟩ := by
    intro r
    rw [Turn.forms, formsOf_generatorCall, hscope]
    exact hasPart_run_iff
  constructor
  · rintro ⟨h, hlevel⟩
    cases (hpart _).mp h
    cases hdepth.symm.trans hlevel
    rfl
  · rintro rfl
    exact .form ((hpart _).mpr rfl) hdepth

theorem after_asking (hrun : session.run = limits.runner) (hscope : session.scope = .global home)
    (hdepth : limits.depth = level + 1) :
    (Turn.answer "(gensym)").after session store =
      Moment.after limits.steps (.atCall level limits.steps home store) := by
  have hafter : (Turn.answer "(gensym)").after session store =
      EvalM.storeAfter (evaluateForms session.run session.scope (formsOf "(gensym)")) store :=
    storeAfter_answer "(gensym)" store
  rw [hafter, formsOf_generatorCall, hrun, hscope, Limits.runner, hdepth]
  rfl

theorem passes_asking_iff {turns : List Turn} (hscope : session.scope = .global home)
    (hdepth : limits.depth = level + 1) :
    session.Passes limits store (.answer "(gensym)" :: turns) m ↔
      Moment.Within limits.steps (.atCall level limits.steps home store) m ∨
        session.Passes limits ((Turn.answer "(gensym)").after session store) turns m := by
  rw [Session.passes_cons_iff]
  simp only [begins_asking_iff hscope hdepth, exists_eq_left]

theorem keepsCounter_nil {generator : Callee} :
    session.KeepsCounter limits store [] generator counter where
  names _ h := (Session.not_passes_nil h).elim
  writes _ _ _ h := (Session.not_passes_nil h).elim

/-- Asking for a name keeps the counter, if the rest of the run does. -/
theorem Session.KeepsCounter.ask {turns : List Turn} (hscope : session.scope = .global home)
    (hdepth : limits.depth = level + 2) (hsteps : limits.steps = bound + 1)
    (hgen : store.HasGenerator home counter)
    (hafter : (Turn.answer "(gensym)").after session store = store')
    (hlookup : ∀ name, store'.lookup? (.global home) name = store.lookup? (.global home) name)
    (h : session.KeepsCounter limits store' turns (generatorCallee home) counter) :
    session.KeepsCounter limits store (.answer "(gensym)" :: turns) (generatorCallee home)
      counter := by
  have hpasses : ∀ m, session.Passes limits store (.answer "(gensym)" :: turns) m ↔
      Moment.Within (bound + 1) (.atCall (level + 1) (bound + 1) home store) m ∨
        session.Passes limits store' turns m := by
    intro m
    rw [passes_asking_iff hscope hdepth, hsteps, hafter]
  constructor
  · intro m hm name hname
    rw [hscope]
    rcases (hpasses m).mp hm with hwithin | hm
    · exact hgen.lookup?_within hwithin name
    · have hsame := h.names m hm name hname
      rw [hscope] at hsame
      exact hsame.trans (hlookup name)
  · intro m v store'' hm hwrites
    rw [hsteps] at hwrites ⊢
    rcases (hpasses m).mp hm with hwithin | hm
    · exact ⟨_, _, (hpasses _).mpr (.inl .refl), hgen.calls, hgen.within_of_writes hwithin hwrites⟩
    · obtain ⟨call, body, hcall, hcalls, hwithin⟩ := h.writes m v store'' hm (hsteps ▸ hwrites)
      rw [hsteps] at hcalls hwithin
      exact ⟨call, body, (hpasses call).mpr (.inr hcall), hcalls, hwithin⟩

end Turns

section Runs

variable {limits : Limits} {session : Session} {turns : List Turn}
  {call₁ call₂ body₁ body₂ : Moment}

namespace Session.KeepsCounter

variable (hrun : session.run = limits.runner) (hscope : session.scope = .global home)
  (hgen : store.CanGenerate (.global home) counter) (hzero : store.heap.content counter = .int 0)
  (hkeeps : session.KeepsCounter limits store turns (generatorCallee home) counter)

include hscope hgen hkeeps in
/-- When a call of the generator goes on with its body, its names have their first meaning. -/
theorem exists_opened (hpasses : session.Passes limits store turns call)
    (hcalls : call.Calls limits.steps (generatorCallee home) body) :
    ∃ (opened : Store) (level steps : Nat), opened.CanGenerate (.global home) counter ∧
      body = .atBody level steps home opened := by
  obtain ⟨opened, level, steps, -, rfl⟩ := hcalls.exists_opened
  refine ⟨opened, level, steps, hgen.of_lookup fun name hname => ?_, rfl⟩
  have hsame := hkeeps.names _ (hpasses.step hcalls.leads) name hname
  rw [hscope] at hsame
  exact (Store.lookup?_addFrame_nil opened.skipIdentity (.global home) name).symm.trans hsame

include hscope hgen hkeeps in
/-- Whatever is written in the run, the counter counts on. -/
theorem allows_countsOn (hpasses : session.Passes limits store turns m) :
    m.Allows (Store.CountsOn counter) limits.steps := by
  intro cell v store' hwrites
  refine Store.countsOn_setCell fun hcell => ?_
  subst hcell
  obtain ⟨call, body, hcall, hcalls, hwithin⟩ := hkeeps.writes m v store' hpasses hwrites
  obtain ⟨opened, _, _, hopened, rfl⟩ := hkeeps.exists_opened hscope hgen hcall hcalls
  have hisIn : (Scope.global home).IsIn opened.skipIdentity := hopened.isIn
  exact (writes_within hopened.nest (hisIn.nest []) hwithin hwrites).2

include hrun hscope hgen hzero hkeeps in
/-- A call counts the number that its body finds, and makes the name of the next one. -/
theorem exists_number (hpasses : session.Passes limits store turns call)
    (hcalls : call.Calls limits.steps (generatorCallee home) body) :
    ∃ n : Int, body.store.heap.content counter = .int n ∧ (Exhausted (call.finish limits.steps) ∨
      ∃ store', call.finish limits.steps = nameEnd store' (numeralText (1 + n)) ∧
        store'.heap.content counter = .int (1 + n)) := by
  have hbody := hpasses.step hcalls.leads
  obtain ⟨n, -, hn⟩ := hbody.since_start hrun
    (fun m hm => hkeeps.allows_countsOn hscope hgen hm) 0 hzero
  obtain ⟨opened, level, steps, hopened, rfl⟩ := hkeeps.exists_opened hscope hgen hpasses hcalls
  refine ⟨n, hn, ?_⟩
  rw [hcalls.finish_eq, or_iff_not_imp_left]
  intro hfinal
  have hfound : (opened.skipIdentity.addFrame []).heap.content counter = .int n := hn
  have hend := (Moment.ends_of_finish hfinal).unique hopened.ends_body
  refine ⟨_, hend.trans (generatorEnd_of_number hfound), ?_⟩
  rw [Store.counted_of_number hfound]
  exact Heap.content_setCell_self (lt_nextCell_of_number hn) _

include hrun hscope hgen hzero hkeeps in
theorem makesName (hpasses : session.Passes limits store turns call)
    (hcalls : call.Calls limits.steps (generatorCallee home) body) :
    call.MakesName limits.steps := by
  obtain ⟨n, -, hend⟩ := hkeeps.exists_number hrun hscope hgen hzero hpasses hcalls
  refine hend.imp_right ?_
  rintro ⟨store', hend, -⟩
  exact ⟨1 + n, store', hend.trans (nameEnd_eq store' _)⟩

include hrun hscope hgen hzero hkeeps in
/-- A call with a value has made the name of the number that it has counted. -/
theorem exists_counted (hpasses : session.Passes limits store turns call)
    (hcalls : call.Calls limits.steps (generatorCallee home) body)
    (hend : call.finish limits.steps = .ok v store') :
    ∃ (n : Int) (name : String), body.store.heap.content counter = .int n ∧ v = .symbol name ∧
      generatedName (1 + n) = .ok name ∧
      (call.after limits.steps).heap.content counter = .int (1 + n) := by
  obtain ⟨n, hn, hexhausted | ⟨counted, hcounted, hnext⟩⟩ :=
    hkeeps.exists_number hrun hscope hgen hzero hpasses hcalls
  · rw [hend] at hexhausted
    exact hexhausted.elim
  · obtain ⟨rfl, name, hv, hname⟩ := nameEnd_eq_ok (hcounted.symm.trans hend)
    exact ⟨n, name, hn, hv, hname, (Moment.after_of_finish hend).symm ▸ hnext⟩

include hscope hgen hkeeps in
/-- No call of the generator runs within the body of another one. -/
theorem eq_of_within (hpasses₁ : session.Passes limits store turns call₁)
    (hcalls₁ : call₁.Calls limits.steps (generatorCallee home) body₁)
    (hcalls₂ : call₂.Calls limits.steps (generatorCallee home) body₂)
    (hwithin : body₁.Within limits.steps body₂) : body₂ = body₁ := by
  obtain ⟨opened₁, _, _, hopened, rfl⟩ := hkeeps.exists_opened hscope hgen hpasses₁ hcalls₁
  obtain ⟨opened₂, _, _, -, rfl⟩ := hcalls₂.exists_opened
  have hisIn : (Scope.global home).IsIn opened₁.skipIdentity := hopened.isIn
  rcases GeneratorPart.of_within hopened.nest (hisIn.nest []) hwithin with heq | hpart
  · exact heq
  · exact absurd rfl (hpart.ne_body _)

include hrun hscope hgen hkeeps in
/-- Of two calls, one is over before the body of the other one begins. -/
theorem exists_over (hpasses₁ : session.Passes limits store turns call₁)
    (hcalls₁ : call₁.Calls limits.steps (generatorCallee home) body₁)
    (hpasses₂ : session.Passes limits store turns call₂)
    (hcalls₂ : call₂.Calls limits.steps (generatorCallee home) body₂) (hne : call₁ ≠ call₂) :
    Store.CountsOn counter (call₁.after limits.steps) body₂.store ∨
      Store.CountsOn counter (call₂.after limits.steps) body₁.store := by
  have hallows : ∀ m, session.Passes limits store turns m →
      m.Allows (Store.CountsOn counter) limits.steps := fun m =>
    hkeeps.allows_countsOn hscope hgen
  by_cases hsame : body₁ = body₂
  -- calls with one body are at one place, so none of them lies within the other
  · have hopens : ∀ {call body}, session.Passes limits store turns call →
        call.Calls limits.steps (generatorCallee home) body →
        Store.CountsOn counter call.store body.store := fun hpasses hcalls =>
      (Moment.within_keeps (fun m hwithin => hallows m (hpasses.within hwithin))
        (.single hcalls.leads)).1
    obtain ⟨hlevel₁, hsteps₁⟩ := hcalls₁.same_place
    obtain ⟨hlevel₂, hsteps₂⟩ := hcalls₂.same_place
    rw [← hsame] at hlevel₂ hsteps₂
    have hlevel := hlevel₁.trans hlevel₂.symm
    have hsteps := hsteps₁.trans hsteps₂.symm
    rcases hpasses₁.ordered hrun hallows hpasses₂ with hwithin | hwithin | hover | hover
    · exact absurd (hwithin.eq_of_same_place hlevel hsteps) hne
    · exact absurd (hwithin.eq_of_same_place hlevel.symm hsteps.symm).symm hne
    · exact .inl (Store.Order.trans hover (hopens hpasses₂ hcalls₂))
    · exact .inr (Store.Order.trans hover (hopens hpasses₁ hcalls₁))
  · rw [Moment.after_eq_of_finish hcalls₁.finish_eq, Moment.after_eq_of_finish hcalls₂.finish_eq]
    rcases (hpasses₁.step hcalls₁.leads).ordered hrun hallows (hpasses₂.step hcalls₂.leads) with
      hwithin | hwithin | hover | hover
    · exact absurd (hkeeps.eq_of_within hscope hgen hpasses₁ hcalls₁ hcalls₂ hwithin).symm hsame
    · exact absurd (hkeeps.eq_of_within hscope hgen hpasses₂ hcalls₂ hcalls₁ hwithin) hsame
    · exact .inl hover
    · exact .inr hover

end Session.KeepsCounter

/-- In a run of a session with the bundled prelude, in which nothing but the generator writes its
counter and the names it uses keep their bindings, all calls of the generator make names, and two
calls make different ones. A call opens a frame, so no moment is that of two calls. -/
theorem generated_names_differ {vars : Variables} {arguments : List String} {files : FileTree}
    {input name : String} {clock : Int} {function : Value} {generator : Callee}
    (hstart : Session.start limits.runner vars arguments true (.initial files input clock) =
      .ok session store)
    (hprelude : preludeSource vars (.initial files input clock) =
      .ok (name, bundledPrelude) (.initial files input clock))
    (hfunction : store.lookup? session.scope "gensym" = some function)
    (hgenerator : function.callee = .ok generator)
    (hcounter : store.lookup? session.scope "*gensym-counter*" = some (.atom counter))
    (hkeeps : session.KeepsCounter limits store turns generator counter)
    (hpasses₁ : session.Passes limits store turns call₁)
    (hcalls₁ : call₁.Calls limits.steps generator body₁)
    (hpasses₂ : session.Passes limits store turns call₂)
    (hcalls₂ : call₂.Calls limits.steps generator body₂) (hne : call₁ ≠ call₂) :
    call₁.MakesName limits.steps ∧ call₂.MakesName limits.steps ∧
      ∀ v₁ v₂ store₁ store₂, call₁.finish limits.steps = .ok v₁ store₁ →
        call₂.finish limits.steps = .ok v₂ store₂ →
        ∃ name₁ name₂, v₁ = .symbol name₁ ∧ v₂ = .symbol name₂ ∧ name₁ ≠ name₂ := by
  obtain ⟨hrun, home, counter', hscope, ⟨id, metadata, hbound⟩, hgen, hzero⟩ :=
    start_binds_generator hstart hprelude
  rw [hscope] at hfunction hcounter
  cases hbound.symm.trans hfunction
  cases hgenerator
  cases hgen.counter.symm.trans hcounter
  refine ⟨hkeeps.makesName hrun hscope hgen hzero hpasses₁ hcalls₁,
    hkeeps.makesName hrun hscope hgen hzero hpasses₂ hcalls₂, ?_⟩
  intro v₁ v₂ store₁ store₂ hend₁ hend₂
  obtain ⟨n₁, name₁, hn₁, hv₁, hname₁, hafter₁⟩ :=
    hkeeps.exists_counted hrun hscope hgen hzero hpasses₁ hcalls₁ hend₁
  obtain ⟨n₂, name₂, hn₂, hv₂, hname₂, hafter₂⟩ :=
    hkeeps.exists_counted hrun hscope hgen hzero hpasses₂ hcalls₂ hend₂
  refine ⟨name₁, name₂, hv₁, hv₂, fun hsame => ?_⟩
  have hnumber := generatedName_injective hname₁ (hsame ▸ hname₂)
  rcases hkeeps.exists_over hrun hscope hgen hpasses₁ hcalls₁ hpasses₂ hcalls₂ hne with h | h
  · obtain ⟨n, hle, hn⟩ := h _ hafter₁
    cases hn.symm.trans hn₂
    omega
  · obtain ⟨n, hle, hn⟩ := h _ hafter₂
    cases hn.symm.trans hn₁
    omega

theorem generated_names_differ_twice :
    let limits : Limits := ⟨9, 9⟩
    let turns : List Turn := [.answer "(gensym)", .answer "(gensym)"]
    ∃ session store home counter call₁ body₁ call₂ body₂,
      Session.start limits.runner [] [] true (.initial .empty "" 0) = .ok session store ∧
      session.KeepsCounter limits store turns (generatorCallee home) counter ∧
      session.Passes limits store turns call₁ ∧ call₁.Calls 9 (generatorCallee home) body₁ ∧
      session.Passes limits store turns call₂ ∧ call₂.Calls 9 (generatorCallee home) body₂ ∧
      call₁ ≠ call₂ ∧ ∃ name₁ name₂ store₁ store₂, call₁.finish 9 = .ok (.symbol name₁) store₁ ∧
        call₂.finish 9 = .ok (.symbol name₂) store₂ ∧ name₁ ≠ name₂ := by
  intro limits turns
  obtain ⟨session, store, home, counter, hstart, hscope, -, hor, hzero⟩ := exists_start_bundled
  have hgen := hor.toHasGenerator
  have hrun : session.run = limits.runner := (start_binds_generator hstart rfl).1
  -- neither of the two calls uses up the limits
  obtain ⟨hfinal₁, hfinal₂⟩ : ¬ Exhausted (Moment.finish 9 (.atCall 8 9 home store)) ∧
      ¬ Exhausted
        (Moment.finish 9 (.atCall 8 9 home (Moment.after 9 (.atCall 8 9 home store)))) := by
    obtain ⟨session', store', home', hstart', hscope', hfirst, hsecond⟩ : ∃ session store home,
        Session.start limits.runner [] [] true (.initial .empty "" 0) = .ok session store ∧
        session.scope = .global home ∧
        (¬ ∃ store', Moment.finish 9 (.atCall 8 9 home store) =
          .error (.abort .exhausted) store') ∧
        ¬ ∃ store', Moment.finish 9 (.atCall 8 9 home (Moment.after 9 (.atCall 8 9 home store))) =
          .error (.abort .exhausted) store' :=
      ⟨_, _, _, start_bundled rfl rfl rfl, rfl, by decide +kernel, by decide +kernel⟩
    cases hstart.symm.trans hstart'
    cases hscope.symm.trans hscope'
    exact ⟨mt exhausted_iff.mp hfirst, mt exhausted_iff.mp hsecond⟩
  obtain ⟨text₁, htext₁⟩ := exists_numeralText_digit (by decide : (1 + 0 : Int).natAbs < 10)
  obtain ⟨text₂, htext₂⟩ := exists_numeralText_digit (by decide : (1 + (1 + 0) : Int).natAbs < 10)
  obtain ⟨store₁, hend₁, hone⟩ := exists_generatorEnd hzero htext₁
  have hfinish₁ := (hgen.finish_eq hfinal₁).trans hend₁
  have hafter₁ : Moment.after 9 (.atCall 8 9 home store) = store₁ :=
    Moment.after_of_finish hfinish₁
  have hlookup₁ := generatorEnd_lookup? hend₁ hgen.isIn
  have hgen₁ := hgen.of_lookup hlookup₁
  rw [hafter₁] at hfinal₂
  obtain ⟨store₂, hend₂, -⟩ := exists_generatorEnd hone htext₂
  have hfinish₂ := (hgen₁.finish_eq hfinal₂).trans hend₂
  have hturn₁ := (after_asking hrun hscope rfl).trans hafter₁
  have hturn₂ := (after_asking hrun hscope rfl).trans (Moment.after_of_finish hfinish₂)
  have hkeeps : session.KeepsCounter limits store turns (generatorCallee home) counter :=
    .ask hscope rfl rfl hgen hturn₁ hlookup₁ (.ask hscope rfl rfl hgen₁ hturn₂
      (generatorEnd_lookup? hend₂ hgen₁.isIn) keepsCounter_nil)
  have hpasses₁ : session.Passes limits store turns (.atCall 8 9 home store) :=
    (passes_asking_iff hscope rfl).mpr (.inl .refl)
  have hpasses₂ : session.Passes limits store turns (.atCall 8 9 home store₁) := by
    refine (passes_asking_iff hscope rfl).mpr (.inr ?_)
    rw [hturn₁]
    exact (passes_asking_iff hscope rfl).mpr (.inl .refl)
  have hover : Store.Extends (Moment.after 9 (.atCall 8 9 home store))
      (Moment.atCall 8 9 home store₁).store := hafter₁ ▸ Store.Order.refl _
  have hne : Moment.atCall 8 9 home store ≠ .atCall 8 9 home store₁ :=
    (hgen.calls.ne_of_over hover).symm
  obtain ⟨id, metadata, hbound⟩ := hgen.generator
  have hfunction : store.lookup? session.scope "gensym" =
      some (.closure id ⟨[], none⟩ generatorBody (.global home) false metadata) := hscope ▸ hbound
  obtain ⟨-, -, hdiffer⟩ := generated_names_differ hstart rfl hfunction rfl
    (hscope ▸ hgen.counter) hkeeps hpasses₁ hgen.calls hpasses₂ hgen₁.calls hne
  obtain ⟨name₁, name₂, hname₁, hname₂, hnames⟩ := hdiffer _ _ _ _ hfinish₁ hfinish₂
  rw [hname₁] at hfinish₁
  rw [hname₂] at hfinish₂
  exact ⟨session, store, home, counter, _, _, _, _, hstart, hkeeps, hpasses₁, hgen.calls, hpasses₂,
    hgen₁.calls, hne, _, _, _, _, hfinish₁, hfinish₂, hnames⟩

end Runs

end SmallLisp
