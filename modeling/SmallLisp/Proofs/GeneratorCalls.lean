import SmallLisp.Proofs.CallParts
import SmallLisp.Proofs.NameGeneration

/-! # What runs within a call of the generator

While the body of the generator is evaluated, nothing runs but its own parts, if the names it uses
have their first meaning. One of them writes to a cell: it sets the counter to the successor of
its content. None of them is a call of the generator.
-/
namespace SmallLisp

variable {scope inner : Scope} {store store' : Store} {counter cell : CellId} {form next v : Value}
  {run : Runner} {r : Running} {bound level steps depth : Nat} {m m' call body : Moment}
  {callee : Callee} {vs : List Value} {home : FrameId}

/-- A form that has a value without any task being carried out for it. -/
inductive IsInert : Value → Prop where
  | constant {form : Value} (h : form.isConstant = true) : IsInert form
  | symbol (name : String) : IsInert (.symbol name)
  | function (parts : List Value) : IsInert (.ofList (.symbol "fn*" :: parts))

namespace IsInert

theorem step_constant (h : form.isConstant = true) (run : Runner) :
    (Task.evaluate form scope).step steps run = pure (.done form) := by
  match form with
  | .nil | .bool _ | .int _ | .str _ | .keyword _ | .list [] _ _ | .atom _ => rfl
  | .native _ _ _ _ | .closure _ _ _ _ _ _ => rfl

theorem specialForm?_function : specialForm? (.symbol "fn*") = some .function := by decide

theorem step_eq (h : IsInert form) (run run' : Runner) :
    (Task.evaluate form scope).step steps run = (Task.evaluate form scope).step steps run' := by
  cases h with
  | constant h => rw [step_constant h, step_constant h]
  | symbol name => rfl
  | function parts =>
    unfold Value.ofList
    rw [Task.step_special specialForm?_function, Task.step_special specialForm?_function]
    rfl

theorem not_hasPart (h : IsInert form) :
    ¬ HasPart (fun run => (Task.evaluate form scope).step steps run) run store r := fun hpart =>
  not_hasPart_free _ (hpart.congr fun run' => congrFun (h.step_eq run run') store)

theorem step_ne_tail (h : IsInert form) :
    (Task.evaluate form scope).step steps run store ≠ .ok (.tail next inner) store' := by
  intro htail
  cases h with
  | constant h =>
    rw [step_constant h] at htail
    cases htail
  | symbol name =>
    rw [Task.step, stepForm, EvalM.get_bind] at htail
    cases hlookup : store.lookup? scope name with
    | some v =>
      rw [hlookup] at htail
      cases htail
    | none =>
      rw [hlookup] at htail
      exact bind_done_ne_tail htail
  | function parts =>
    unfold Value.ofList at htail
    rw [Task.step_special specialForm?_function] at htail
    have hfunction := settle_eq_tail.mp htail
    cases parts with
    | nil => cases hfunction
    | cons declared body =>
      obtain ⟨_, _, _, hclosure⟩ := bind_eq_ok hfunction
      exact bind_done_ne_tail hclosure

theorem not_leads (h : IsInert form) :
    ¬ Moment.Leads bound ⟨level, steps, .evaluate form scope, store⟩ m' := by
  intro hleads
  cases hleads with
  | tail hstep => exact h.step_ne_tail hstep
  | inner hasks => exact h.not_hasPart hasks.hasPart

theorem not_applies (h : IsInert form) :
    ¬ (Task.evaluate form scope).Applies run store callee vs store' := by
  intro happlies
  cases happlies with
  | evaluate hspecial =>
    cases h with
    | constant h => cases h
    | function parts => cases specialForm?_function.symm.trans hspecial

theorem not_writes (h : IsInert form) :
    ¬ (Task.evaluate form scope).Writes run store cell v store' := by
  rintro ⟨_, _, _, happlies, _⟩
  exact h.not_applies happlies

end IsInert

def namingForm : Value := .ofList [.symbol "str", .str "G__", countingForm]

/-- What runs while the body is evaluated, from this store on, in its scope. -/
inductive GeneratorPart (counter : CellId) (scope : Scope) (store : Store) : Running → Prop where
  | inert {form : Value} (h : IsInert form) :
      GeneratorPart counter scope store ⟨.evaluate form scope, store⟩
  | naming : GeneratorPart counter scope store ⟨.evaluate namingForm scope, store⟩
  | counting : GeneratorPart counter scope store ⟨.evaluate countingForm scope, store⟩
  | successor : GeneratorPart counter scope store
      ⟨.call (.closure store.heap.nextIdentity ⟨["x"], none⟩ successorBody scope false .nil)
        [store.heap.content counter], store.skipIdentity⟩
  | sum : GeneratorPart counter scope store
      ⟨.evaluate successorBody (scope.nest store.nextFrame), store.asked counter⟩
  | operand {form : Value} (h : IsInert form) : GeneratorPart counter scope store
      ⟨.evaluate form (scope.nest store.nextFrame), store.asked counter⟩

section Parts

variable (hgen : store.CanGenerate scope counter)
include hgen

theorem leads_body (h : Moment.Leads bound ⟨level, steps, .evaluate generatorBody scope, store⟩ m) :
    GeneratorPart counter scope store m.running := by
  have hsymbol := hgen.offers (.label .symbol) (by decide)
  obtain ⟨depth, hr | hr | ⟨home, vs, store', -, hr⟩⟩ := hsymbol.hasPart_of_leads nofun h
  · exact hr ▸ .inert (.symbol _)
  · exact hasPart_evaluateAll_singleton hr ▸ .naming
  · exact absurd hr (PlainBuiltin.not_hasPart_apply (by nofun))

theorem leads_naming (h : Moment.Leads bound ⟨level, steps, .evaluate namingForm scope, store⟩ m) :
    GeneratorPart counter scope store m.running := by
  have hstr := hgen.offers (.text .printPlain) (by decide)
  obtain ⟨depth, hr | hr | ⟨home, vs, store', -, hr⟩⟩ := hstr.hasPart_of_leads nofun h
  · exact hr ▸ .inert (.symbol _)
  · rcases hasPart_evaluateAll_pair (ends_constant rfl) hr with hr | hr
    · exact hr ▸ .inert (.constant rfl)
    · exact hr ▸ .counting
  · exact absurd hr (PlainBuiltin.not_hasPart_apply (by nofun))

theorem leads_counting
    (h : Moment.Leads bound ⟨level, steps, .evaluate countingForm scope, store⟩ m) :
    GeneratorPart counter scope store m.running := by
  have hswap := hgen.offers (.call .swap) (by decide)
  obtain ⟨depth, hr | hr | ⟨home, vs, store', hvs, hr⟩⟩ := hswap.hasPart_of_leads nofun h
  · exact hr ▸ .inert (.symbol _)
  · rcases hasPart_evaluateAll_pair (ends_symbol hgen.counter) hr with hr | hr
    · exact hr ▸ .inert (.symbol _)
    · exact hr ▸ .inert (.function _)
  · obtain ⟨hsame, rfl⟩ := (evaluated_counting hgen.counter).eq_of_run hvs
    obtain ⟨cell, function, rest, harguments, hcall⟩ := hasPart_swap hr
    rw [Except.ok.inj hsame] at harguments
    cases harguments
    exact hcall ▸ .successor

theorem offers_asked (hscope : scope.IsIn store) :
    (store.asked counter).Offers (scope.nest store.nextFrame) (.number .add) := by
  have hadd : store.skipIdentity.skipIdentity.Offers scope (.number .add) :=
    hgen.offers (.number .add) (by decide)
  have hisIn : scope.IsIn store.skipIdentity.skipIdentity := hscope
  exact hadd.nest hisIn rfl

theorem leads_sum (hscope : scope.IsIn store)
    (h : Moment.Leads bound ⟨level, steps, .evaluate successorBody (scope.nest store.nextFrame),
      store.asked counter⟩ m) :
    GeneratorPart counter scope store m.running := by
  obtain ⟨depth, hr | hr | ⟨home, vs, store', -, hr⟩⟩ :=
    (offers_asked hgen hscope).hasPart_of_leads nofun h
  · exact hr ▸ .operand (.symbol _)
  · rcases hasPart_evaluateAll_pair (ends_constant rfl) hr with hr | hr
    · exact hr ▸ .operand (.constant rfl)
    · exact hr ▸ .operand (.symbol _)
  · exact absurd hr (PlainBuiltin.not_hasPart_apply (by nofun))

end Parts

theorem leads_successor
    (h : Moment.Leads bound ⟨level, steps, .call (.closure store.heap.nextIdentity ⟨["x"], none⟩
      successorBody scope false .nil) [store.heap.content counter], store.skipIdentity⟩ m) :
    GeneratorPart counter scope store m.running := by
  have hbind : Parameters.bind ⟨["x"], none⟩ store.skipIdentity.heap.nextIdentity
      [store.heap.content counter] = .ok [("x", store.heap.content counter)] := rfl
  cases h with
  | tail hstep =>
    have hentered := applyFunction_eq_ok (rfl : Callee.ofCall (.closure store.heap.nextIdentity
      ⟨["x"], none⟩ successorBody scope false .nil) [store.heap.content counter] = _)
      (Callee.enter_body hbind (runTask bound level))
    cases hstep.symm.trans hentered
    exact .sum
  | inner hasks =>
    obtain ⟨callee, arguments, hcallee, hpart⟩ := hasPart_applyFunction hasks.hasPart
    cases hcallee
    exact absurd hpart Callee.not_hasPart_body

theorem GeneratorPart.leads (hgen : store.CanGenerate scope counter) (hscope : scope.IsIn store)
    (h : GeneratorPart counter scope store m.running) (hleads : Moment.Leads bound m m') :
    GeneratorPart counter scope store m'.running := by
  obtain ⟨level, steps, task, store'⟩ := m
  cases h with
  | inert h => exact absurd hleads h.not_leads
  | operand h => exact absurd hleads h.not_leads
  | naming => exact leads_naming hgen hleads
  | counting => exact leads_counting hgen hleads
  | successor => exact leads_successor hleads
  | sum => exact leads_sum hgen hscope hleads

/-- Nothing but its parts runs within a call of the generator. -/
theorem GeneratorPart.of_within (hgen : store.CanGenerate scope counter)
    (hscope : scope.IsIn store)
    (h : Moment.Within bound ⟨level, steps, .evaluate generatorBody scope, store⟩ m) :
    m = ⟨level, steps, .evaluate generatorBody scope, store⟩ ∨
      GeneratorPart counter scope store m.running := by
  induction h with
  | refl => exact .inl rfl
  | tail _ hleads ih =>
    rcases ih with rfl | hpart
    · exact .inr (leads_body hgen hleads)
    · exact .inr (hpart.leads hgen hscope hleads)

theorem not_isInert_body : ¬ IsInert generatorBody := by
  generalize hform : generatorBody = form
  intro h
  cases h with
  | constant h =>
    subst hform
    cases h
  | symbol name => cases hform
  | function parts => simp [generatorBody, Value.ofList] at hform

theorem GeneratorPart.ne_body (h : GeneratorPart counter scope store r) (inner : Scope) :
    r.task ≠ .evaluate generatorBody inner := by
  intro htask
  cases h with
  | inert h =>
    cases htask
    exact not_isInert_body h
  | operand h =>
    cases htask
    exact not_isInert_body h
  | naming => simp [namingForm, generatorBody, Value.ofList] at htask
  | counting => simp [countingForm, generatorBody, Value.ofList] at htask
  | successor => cases htask
  | sum => simp [successorBody, generatorBody, Value.ofList] at htask

theorem not_writes_builtin {op : PlainBuiltin} {home : FrameId} (hreset : op ≠ .state .reset)
    (hswap : op ≠ .call .swap) :
    ¬ Callee.Writes run (.builtin op home) vs store cell v store' := by
  intro h
  cases h with
  | reset => exact hreset rfl
  | swap => exact hswap rfl

theorem writes_counting (hgen : store.CanGenerate scope counter) (hscope : scope.IsIn store)
    (h : (Task.evaluate countingForm scope).Writes (runTask bound level) store cell v store') :
    cell = counter ∧ v = successorOf (store'.heap.content counter) := by
  have hswap := hgen.offers (.call .swap) (by decide)
  obtain ⟨callee, vs, store₀, happlies, hwrites⟩ := h
  obtain ⟨home, rfl, hvs⟩ := hswap.applies happlies
  obtain ⟨hsame, rfl⟩ := (evaluated_counting hgen.counter).eq_of_run hvs
  cases hsame
  cases hwrites with
  | swap _ hcall _ =>
    have hisIn : scope.IsIn store.skipIdentity := hscope
    have hadd : store.skipIdentity.Offers scope (.number .add) :=
      hgen.offers (.number .add) (by decide)
    obtain ⟨rfl, rfl⟩ := (ends_successor hisIn hadd _).eq_of_run hcall
    exact ⟨rfl, rfl⟩

/-- Whatever a moment within a call of the generator writes, it sets the counter to the successor
of its content. -/
theorem writes_within (hgen : store.CanGenerate scope counter) (hscope : scope.IsIn store)
    (hwithin : Moment.Within bound ⟨level, steps, .evaluate generatorBody scope, store⟩ m)
    (hwrites : m.Writes bound cell v store') :
    cell = counter ∧ v = successorOf (store'.heap.content counter) := by
  have hbuiltin : ∀ {op : PlainBuiltin} {arguments : List Value} {inner : Scope} {store₀ : Store},
      store₀.Offers inner op → op ≠ .state .reset → op ≠ .call .swap →
      ¬ (Task.evaluate (.ofList (.symbol op.name :: arguments)) inner).Writes
        (runTask bound m.level) store₀ cell v store' := by
    rintro op arguments inner store₀ hoffers hreset hswap ⟨callee, vs, store₁, happlies, hwrites⟩
    obtain ⟨home, rfl, -⟩ := hoffers.applies happlies
    exact not_writes_builtin hreset hswap hwrites
  obtain ⟨-, hwrites⟩ := hwrites
  obtain ⟨level', steps', task, store₀⟩ := m
  rcases GeneratorPart.of_within hgen hscope hwithin with hm | hpart
  · cases hm
    exact absurd hwrites (hbuiltin (hgen.offers (.label .symbol) (by decide)) nofun nofun)
  · cases hpart with
    | inert h => exact absurd hwrites h.not_writes
    | operand h => exact absurd hwrites h.not_writes
    | naming =>
      exact absurd hwrites (hbuiltin (hgen.offers (.text .printPlain) (by decide)) nofun nofun)
    | counting => exact writes_counting hgen hscope hwrites
    | successor =>
      obtain ⟨_, _, _, happlies, hwrites⟩ := hwrites
      cases happlies with
      | call hcallee =>
        cases hcallee
        cases hwrites
    | sum => exact absurd hwrites (hbuiltin (offers_asked hgen hscope) nofun nofun)

theorem GeneratorPart.lookup? {scope inner : Scope} {r : Running}
    (h : GeneratorPart counter scope store r) (hinner : inner.IsIn store) (name : String) :
    r.store.lookup? inner name = store.lookup? inner name := by
  cases h with
  | sum => exact Store.lookup?_addFrame hinner _ name
  | operand => exact Store.lookup?_addFrame hinner _ name
  | _ => rfl

def generatorCallee (home : FrameId) : Callee := .body ⟨[], none⟩ generatorBody (.global home)

def Moment.atBody (level steps : Nat) (home : FrameId) (store : Store) : Moment :=
  ⟨level, steps, .evaluate generatorBody ((Scope.global home).nest store.nextFrame),
    store.skipIdentity.addFrame []⟩

/-- A call of the generator goes on with its body in a frame of its own. -/
theorem Moment.Calls.exists_opened (h : call.Calls bound (generatorCallee home) body) :
    ∃ (opened : Store) (level steps : Nat), call.store.Extends opened ∧
      body = .atBody level steps home opened := by
  cases h with
  | @body _ _ _ _ opened _ vs _ _ happlies hstep =>
    rw [happlies.step_eq] at hstep
    have henter := settle_eq_tail.mp hstep
    cases vs with
    | nil =>
      have hbind : Parameters.bind ⟨[], none⟩ opened.heap.nextIdentity [] = .ok [] := rfl
      cases henter.symm.trans (Callee.enter_body hbind _)
      exact ⟨opened, _, _, happlies.extends, rfl⟩
    | cons v vs =>
      obtain ⟨_, _, _, hbound⟩ := bind_eq_ok henter
      obtain ⟨_, _, hfault, _⟩ := bind_eq_ok hbound
      cases hfault

/-- A call of the generator opens a frame, so what begins after its end is not the same call. -/
theorem Moment.Calls.ne_of_over (h : call.Calls bound (generatorCallee home) body)
    (hover : Store.Extends (call.after bound) m.store) : m ≠ call := by
  rintro rfl
  have hbody : body.store.Extends (body.after bound) :=
    body.keeps fun _ _ cell v store _ => store.extends_setCell cell v
  rw [Moment.after_eq_of_finish h.finish_eq] at hover
  obtain ⟨opened, level, steps, hopened, rfl⟩ := h.exists_opened
  have hopens : opened.nextFrame < (opened.skipIdentity.addFrame []).nextFrame := by
    rw [Store.nextFrame_addFrame]
    exact Nat.lt_succ_self _
  have hle := Nat.le_trans hbody.1 hover.1
  exact absurd hopened.1 (Nat.not_le_of_lt (Nat.lt_of_lt_of_le hopens hle))

def generatorCall : Value := .ofList [.symbol "gensym"]

def Moment.atCall (level steps : Nat) (home : FrameId) (store : Store) : Moment :=
  ⟨level, steps, .evaluate generatorCall (.global home), store⟩

namespace Store.HasGenerator

variable {level steps depth : Nat} {vs : List Value} (h : store.HasGenerator home counter)
include h

theorem isIn : (Scope.global home).IsIn store := h.canGenerate.isIn

theorem ordinary : Ordinary store (.global home) (.symbol "gensym") := by
  obtain ⟨id, metadata, hlookup⟩ := h.generator
  exact ordinary_symbol (by decide) hlookup rfl

theorem applies : (Task.evaluate generatorCall (.global home)).Applies
    (runTask (steps + 1) (depth + 1)) store (generatorCallee home) [] store := by
  obtain ⟨id, metadata, hlookup⟩ := h.generator
  exact .evaluate h.ordinary.specialForm_eq (h.ordinary.expansionOf_eq _) (runTask_symbol hlookup)
    evaluateAll_nil rfl rfl

theorem applies_only (happlies : (Task.evaluate generatorCall (.global home)).Applies
    (runTask steps depth) store callee vs store') : callee = generatorCallee home := by
  obtain ⟨id, metadata, hlookup⟩ := h.generator
  cases happlies with
  | evaluate _ _ hhead harguments _ hcallee =>
    obtain ⟨rfl, rfl⟩ := (ends_symbol hlookup).eq_of_run hhead
    cases hcallee
    rfl

theorem calls : Moment.Calls (bound + 1) (generatorCallee home)
    (.atCall (level + 1) (steps + 1) home store)
    (.atBody (level + 1) steps home store) := by
  refine .body h.applies ?_
  rw [h.applies.step_eq]
  have hbind : Parameters.bind ⟨[], none⟩ store.heap.nextIdentity [] = .ok [] := rfl
  exact settle_eq_tail.mpr (Callee.enter_body hbind _)

/-- Within the call nothing runs but its head and its body. -/
theorem within (hwithin : Moment.Within (bound + 1)
      (.atCall (level + 1) (steps + 1) home store) m) :
    m = (.atCall (level + 1) (steps + 1) home store) ∨
      m.running = ⟨.evaluate (.symbol "gensym") (.global home), store⟩ ∨
      Moment.Within (bound + 1) (.atBody (level + 1) steps home store) m := by
  rcases hwithin.cases_head with rfl | ⟨m', hleads, hwithin'⟩
  · exact .inl rfl
  refine .inr ?_
  cases hleads with
  | tail hstep =>
    have hcalls : Moment.Calls (bound + 1) (generatorCallee home)
        (.atCall (level + 1) (steps + 1) home store) (.atBody (level + 1) steps home store) :=
      h.calls
    cases hcalls with
    | body _ hbody =>
      cases hstep.symm.trans hbody
      exact .inr hwithin'
  | inner hasks =>
    rcases hasPart_call h.ordinary.specialForm_eq (h.ordinary.expansionOf_eq _) hasks.hasPart with
      hr | ⟨function, store', -, hr⟩ | ⟨callee, vs, store', happlies, hr⟩
    · cases hr
      rcases hwithin'.cases_head with rfl | ⟨_, hleads, _⟩
      · exact .inl rfl
      · exact ((IsInert.symbol "gensym").not_leads hleads).elim
    · exact (not_hasPart_free _ hr).elim
    · cases h.applies_only happlies
      exact (Callee.not_hasPart_body hr).elim

/-- No binding in the global scope is changed by the call. -/
theorem lookup?_within (hwithin : Moment.Within (bound + 1)
      (.atCall (level + 1) (steps + 1) home store) m) (name : String) :
    m.store.lookup? (.global home) name = store.lookup? (.global home) name := by
  obtain ⟨level', steps', task, store₀⟩ := m
  rcases h.within hwithin with hcall | hhead | hbody
  · cases hcall
    rfl
  · cases hhead
    rfl
  · have hopened := Store.lookup?_addFrame_nil store.skipIdentity (.global home) name
    have hscope : (Scope.global home).IsIn store.skipIdentity := h.isIn
    have hinner : (Scope.global home).IsIn (store.skipIdentity.addFrame []) :=
      hscope.addFrame []
    rcases GeneratorPart.of_within h.canGenerate.nest (hscope.nest []) hbody with hm | hpart
    · cases hm
      exact hopened
    · exact (hpart.lookup? hinner name).trans hopened

/-- Whatever the call writes, its body does. -/
theorem within_of_writes (hwithin : Moment.Within (bound + 1)
      (.atCall (level + 1) (steps + 1) home store) m)
    (hwrites : m.Writes (bound + 1) cell v store') :
    Moment.Within (bound + 1) (.atBody (level + 1) steps home store) m := by
  obtain ⟨-, hwrites⟩ := hwrites
  rcases h.within hwithin with rfl | hhead | hbody
  · obtain ⟨callee, vs, store₀, happlies, hwrites⟩ := hwrites
    cases h.applies_only happlies
    cases hwrites
  · obtain ⟨level', steps', task, store₀⟩ := m
    cases hhead
    exact ((IsInert.symbol "gensym").not_writes hwrites).elim
  · exact hbody

theorem finish_eq (hfinal : ¬ Exhausted (Moment.finish (bound + 1)
      (.atCall (level + 1) (steps + 1) home store))) :
    Moment.finish (bound + 1)
      (.atCall (level + 1) (steps + 1) home store) =
        generatorEnd counter store := by
  rw [h.calls.finish_eq] at hfinal ⊢
  exact (Moment.ends_of_finish hfinal).unique h.canGenerate.ends_body

end Store.HasGenerator

end SmallLisp
