import Mathlib.Data.List.TakeWhile
import SmallLisp.Proofs.EvaluationRules
import SmallLisp.Proofs.Lookups

/-! # Parameter lists and the scopes of calls

Which values declare parameters, how many arguments a call of a function of the program takes, and
which values its names have in the scope that the call opens.
-/
namespace SmallLisp

/-- A list of names declares parameters: it does not contain the rest marker, or the first marker
stands directly before the last name, which is another one. -/
inductive Declares : List String → Parameters → Prop where
  | positional {names : List String} (h : restMarker ∉ names) : Declares names ⟨names, none⟩
  | withRest {names : List String} {rest : String} (h : restMarker ∉ names)
      (hrest : rest ≠ restMarker) : Declares (names ++ [restMarker, rest]) ⟨names, some rest⟩

def Value.IsSequenceOf (v : Value) (items : List Value) : Prop :=
  ∃ metadata identity, v = .list items metadata identity ∨ v = .vector items metadata identity

theorem symbolNames?_map (names : List String) :
    symbolNames? (names.map .symbol) = some names := by
  induction names with
  | nil => rfl
  | cons name names ih => rw [List.map_cons, symbolNames?, ih, Option.map_some]

theorem eq_map_of_symbolNames? {items : List Value} {names : List String}
    (h : symbolNames? items = some names) : items = names.map .symbol := by
  induction items generalizing names with
  | nil =>
    cases h
    rfl
  | cons v items ih =>
    cases v with
    | symbol name =>
      rw [symbolNames?, Option.map_eq_some_iff] at h
      obtain ⟨others, hothers, rfl⟩ := h
      rw [ih hothers, List.map_cons]
    | _ => cases h

namespace Parameters

variable {names : List String} {items : List Value} {declared : Value} {parameters : Parameters}

theorem declares_of_ofNames (h : ofNames names = .ok parameters) : Declares names parameters := by
  have hbefore : restMarker ∉ names.takeWhile (· ≠ restMarker) := by
    intro hmem
    have hother := List.mem_takeWhile_imp (p := (· ≠ restMarker)) hmem
    exact of_decide_eq_true hother rfl
  have hnames := List.takeWhile_append_dropWhile (p := (· ≠ restMarker)) (l := names)
  unfold ofNames at h
  split at h
  · next hdrop =>
    rw [hdrop, List.append_nil] at hnames
    cases h
    exact .positional (hnames ▸ hbefore)
  · next marker rest hdrop =>
    have hmarker : marker = restMarker := by
      have hhead := List.head_dropWhile_not (p := (· ≠ restMarker)) (l := names)
        (by rw [hdrop]; exact List.cons_ne_nil _ _)
      simp only [hdrop, List.head_cons] at hhead
      exact of_not_not (of_decide_eq_false hhead)
    rw [hdrop, hmarker] at hnames
    split at h
    · cases h
    · next hrest =>
      cases h
      have hdeclares := Declares.withRest hbefore hrest
      rwa [hnames] at hdeclares
  · cases h

theorem ofNames_of_declares (h : Declares names parameters) : ofNames names = .ok parameters := by
  cases h with
  | positional h =>
    have hdrop : names.dropWhile (· ≠ restMarker) = [] := by
      rw [List.dropWhile_eq_nil_iff]
      exact fun name hname => decide_eq_true fun hmarker => h (hmarker ▸ hname)
    rw [ofNames, hdrop]
  | @withRest names rest h hrest =>
    have hbefore : ∀ name ∈ names, decide (name ≠ restMarker) = true := fun name hname =>
      decide_eq_true fun hmarker => h (hmarker ▸ hname)
    have hdrop : (names ++ [restMarker, rest]).dropWhile (· ≠ restMarker) = [restMarker, rest] := by
      rw [List.dropWhile_append_of_pos hbefore]
      exact List.dropWhile_cons_of_neg (by simp)
    have htake : (names ++ [restMarker, rest]).takeWhile (· ≠ restMarker) = names := by
      rw [List.takeWhile_append_of_pos hbefore, List.takeWhile_cons_of_neg (by simp),
        List.append_nil]
    rw [ofNames, hdrop, htake]
    exact if_neg hrest

theorem ofNames_eq_ok_iff : ofNames names = .ok parameters ↔ Declares names parameters :=
  ⟨declares_of_ofNames, ofNames_of_declares⟩

theorem ofValue_of_isSequenceOf (h : declared.IsSequenceOf items) : ofValue declared =
    match symbolNames? items with
    | some names => ofNames names
    | none => .error .parameterNotSymbol := by
  obtain ⟨metadata, identity, rfl | rfl⟩ := h
  · rfl
  · rfl

/-- The values that declare parameters are the lists and vectors of symbols whose names declare
them. -/
theorem ofValue_eq_ok_iff : ofValue declared = .ok parameters ↔
    ∃ names : List String,
      declared.IsSequenceOf (names.map .symbol) ∧ Declares names parameters := by
  constructor
  · intro h
    obtain ⟨items, hitems⟩ : ∃ items, declared.IsSequenceOf items := by
      cases declared with
      | list items metadata identity => exact ⟨items, metadata, identity, .inl rfl⟩
      | vector items metadata identity => exact ⟨items, metadata, identity, .inr rfl⟩
      | _ => cases h
    rw [ofValue_of_isSequenceOf hitems] at h
    cases hnames : symbolNames? items with
    | none =>
      rw [hnames] at h
      cases h
    | some names =>
      rw [hnames] at h
      rw [eq_map_of_symbolNames? hnames] at hitems
      exact ⟨names, hitems, ofNames_eq_ok_iff.mp h⟩
  · rintro ⟨names, hitems, hdeclares⟩
    rw [ofValue_of_isSequenceOf hitems, symbolNames?_map]
    exact ofNames_eq_ok_iff.mpr hdeclares

end Parameters

namespace Frame

variable {frame : Frame} {bindings before after : List (String × Value)} {name : String}

theorem find?_bindAll_of_not_mem (h : name ∉ bindings.map (·.1)) :
    (frame.bindAll bindings).find? name = frame.find? name := by
  induction bindings generalizing frame with
  | nil => rfl
  | cons binding bindings ih =>
    rw [List.map_cons, List.mem_cons, not_or] at h
    obtain ⟨hne, hothers⟩ := h
    calc (frame.bindAll (binding :: bindings)).find? name
        = ((frame.bind binding.1 binding.2).bindAll bindings).find? name := rfl
      _ = (frame.bind binding.1 binding.2).find? name := ih hothers
      _ = frame.find? name := find?_bind_of_ne hne _ _

/-- The last binding of a name counts. -/
theorem find?_bindAll_of_last {v : Value} (h : name ∉ after.map (·.1)) :
    (frame.bindAll (before ++ (name, v) :: after)).find? name = some v := by
  have hsplit : frame.bindAll (before ++ (name, v) :: after) =
      ((frame.bindAll before).bind name v).bindAll after := List.foldl_append
  rw [hsplit, find?_bindAll_of_not_mem h, find?_bind_self]

theorem isSome_find?_bindAll : ((frame.bindAll bindings).find? name).isSome ↔
    (frame.find? name).isSome ∨ name ∈ bindings.map (·.1) := by
  induction bindings generalizing frame with
  | nil => simp [bindAll]
  | cons binding bindings ih =>
    have hcons : frame.bindAll (binding :: bindings) =
        (frame.bind binding.1 binding.2).bindAll bindings := rfl
    rw [hcons, ih, List.map_cons, List.mem_cons]
    by_cases h : name = binding.1
    · simp [h, find?_bind_self]
    · simp [h, find?_bind_of_ne h]

end Frame

def Parameters.Accepts (parameters : Parameters) (count : Nat) : Prop :=
  count = parameters.names.length ∨ parameters.rest.isSome ∧ parameters.names.length ≤ count

/-- The frame binds the parameters to these arguments. A name that is declared more than once has
the value of its last place, and the name of the remaining arguments comes last of all. -/
structure Frame.BindsParameters (frame : Frame) (parameters : Parameters)
    (arguments : List Value) (identity : Identity) : Prop where
  names_iff : ∀ name, (frame.find? name).isSome ↔
    name ∈ parameters.names ∨ parameters.rest = some name
  last : ∀ before name after, parameters.names = before ++ name :: after → name ∉ after →
    parameters.rest ≠ some name → frame.find? name = arguments[before.length]?
  rest : ∀ name, parameters.rest = some name → frame.find? name =
    some (.list (arguments.drop parameters.names.length) .nil (some identity))

namespace Parameters

variable {parameters : Parameters} {arguments : List Value} {identity : Identity}

theorem Accepts.le {count : Nat} (h : parameters.Accepts count) :
    parameters.names.length ≤ count := by
  rcases h with h | ⟨-, h⟩
  · exact h.ge
  · exact h

/-- What a call binds, if its arguments are neither too few nor too many. -/
theorem bind_of_accepts (h : parameters.Accepts arguments.length) :
    parameters.bind identity arguments = .ok (parameters.names.zip arguments ++
      (parameters.rest.map fun name =>
        (name, .list (arguments.drop parameters.names.length) .nil (some identity))).toList) := by
  rw [Parameters.bind, if_neg (Nat.not_lt.mpr h.le)]
  cases hrest : parameters.rest with
  | some rest => rfl
  | none =>
    have hlength : arguments.length = parameters.names.length := by
      rcases h with h | ⟨h, -⟩
      · exact h
      · rw [hrest] at h
        cases h
    simp [hlength]

theorem bind_of_few (h : arguments.length < parameters.names.length) :
    parameters.bind identity arguments = .error .tooFew := if_pos h

theorem bind_of_many (hrest : parameters.rest = none)
    (h : parameters.names.length < arguments.length) :
    parameters.bind identity arguments = .error .tooMany := by
  rw [Parameters.bind, if_neg (Nat.lt_asymm h), hrest]
  exact if_pos h

theorem accepts_or (parameters : Parameters) (count : Nat) :
    parameters.Accepts count ∨ count < parameters.names.length ∨
      parameters.rest = none ∧ parameters.names.length < count := by
  rcases Nat.lt_trichotomy count parameters.names.length with h | h | h
  · exact .inr (.inl h)
  · exact .inl (.inl h)
  · cases hrest : parameters.rest with
    | none => exact .inr (.inr ⟨rfl, h⟩)
    | some rest => exact .inl (.inr ⟨by rw [hrest]; rfl, h.le⟩)

/-- The argument that a place in the list of names is given. -/
theorem zip_at {before after : List String} {name : String}
    (h : before.length < arguments.length) :
    (before ++ name :: after).zip arguments = before.zip (arguments.take before.length) ++
      (name, arguments[before.length]) :: after.zip (arguments.drop (before.length + 1)) := by
  have hlength : before.length = (arguments.take before.length).length := by
    rw [List.length_take, Nat.min_eq_left h.le]
  calc (before ++ name :: after).zip arguments
      = (before ++ name :: after).zip
          (arguments.take before.length ++ arguments.drop before.length) := by
        rw [List.take_append_drop]
    _ = before.zip (arguments.take before.length) ++
          (name :: after).zip (arguments.drop before.length) := List.zip_append hlength
    _ = _ := by rw [List.drop_eq_getElem_cons h, List.zip_cons_cons]

theorem bindAll_bindsParameters (h : parameters.names.length ≤ arguments.length) :
    (Frame.bindAll [] (parameters.names.zip arguments ++ (parameters.rest.map fun name =>
      (name, Value.list (arguments.drop parameters.names.length) .nil
        (some identity))).toList)).BindsParameters parameters arguments identity := by
  constructor
  · intro name
    rw [Frame.isSome_find?_bindAll, List.map_append, List.map_fst_zip h, List.mem_append]
    cases parameters.rest <;> simp [Frame.find?, eq_comm]
  · intro before name after hnames hlast hrest
    have hlt : before.length < arguments.length := by
      rw [hnames, List.length_append, List.length_cons] at h
      exact Nat.lt_of_lt_of_le (Nat.lt_add_of_pos_right (Nat.succ_pos _)) h
    rw [hnames, zip_at hlt, List.append_assoc, List.cons_append, Frame.find?_bindAll_of_last,
      List.getElem?_eq_getElem hlt]
    rw [List.map_append, List.mem_append, not_or]
    constructor
    · intro hmem
      obtain ⟨binding, hbinding, rfl⟩ := List.mem_map.mp hmem
      exact hlast (List.of_mem_zip hbinding).1
    · cases hlast' : parameters.rest with
      | none => exact List.not_mem_nil
      | some rest =>
        intro hmem
        rw [hlast'] at hrest
        exact hrest (congrArg some (List.mem_singleton.mp hmem).symm)
  · intro name hrest
    rw [hrest]
    exact Frame.find?_bindAll_of_last (List.not_mem_nil)

end Parameters

variable {parameters : Parameters} {arguments : List Value} {frame : Frame} {identity : Identity}

/-- With names that are pairwise different, the values of the positional names in order are the
first arguments. -/
theorem Frame.BindsParameters.positional (h : frame.BindsParameters parameters arguments identity)
    (hle : parameters.names.length ≤ arguments.length)
    (hnodup : (parameters.names ++ parameters.rest.toList).Nodup) :
    parameters.names.map (frame.find? ·) =
      (arguments.take parameters.names.length).map some := by
  have hlength : parameters.names.length = (arguments.take parameters.names.length).length := by
    rw [List.length_take, Nat.min_eq_left hle]
  obtain ⟨hnames, -, hdisjoint⟩ := List.nodup_append.mp hnodup
  refine List.ext_getElem (by rw [List.length_map, List.length_map, ← hlength]) fun i hi hi' => ?_
  rw [List.length_map] at hi
  have hsplit : parameters.names =
      parameters.names.take i ++ parameters.names[i] :: parameters.names.drop (i + 1) := by
    rw [← List.drop_eq_getElem_cons hi, List.take_append_drop]
  have hlast : parameters.names[i] ∉ parameters.names.drop (i + 1) := by
    rw [hsplit] at hnames
    exact (List.nodup_cons.mp (List.nodup_append.mp hnames).2.1).1
  have hrest : parameters.rest ≠ some parameters.names[i] := fun hrest =>
    hdisjoint _ (List.getElem_mem hi) _ (by rw [hrest]; exact List.mem_singleton_self _) rfl
  have hvalue := h.last _ _ _ hsplit hlast hrest
  rw [List.length_take, Nat.min_eq_left hi.le,
    List.getElem?_eq_getElem (Nat.lt_of_lt_of_le hi hle)] at hvalue
  rw [List.getElem_map, List.getElem_map, List.getElem_take]
  exact hvalue

section Entering

variable {form : Value} {scope : Scope} {store : Store} {run : Runner}

theorem Callee.enter_body_of_fault {fault : CountFault}
    (h : parameters.bind store.heap.nextIdentity arguments = .error fault) :
    (Callee.body parameters form scope).enter run arguments store =
      .error (.fault (.count fault)) store.skipIdentity := by
  simp only [Callee.enter, EvalM.newIdentity, bind_assoc, EvalM.get_bind, pure_bind, h]
  rfl

/-- Entering a function of the program binds the arguments, or there are too few of them, or too
many. -/
theorem Callee.enter_body_cases (parameters : Parameters) (arguments : List Value) (form : Value)
    (scope : Scope) (store : Store) (run : Runner) :
    let entered := (Callee.body parameters form scope).enter run arguments store
    (parameters.Accepts arguments.length ∧ ∃ frame : Frame,
      entered = .ok (.tail form (scope.nest store.nextFrame))
        (store.skipIdentity.addFrame frame) ∧
      frame.BindsParameters parameters arguments store.heap.nextIdentity) ∨
    (arguments.length < parameters.names.length ∧
      entered = .error (.fault (.count .tooFew)) store.skipIdentity) ∨
    (parameters.rest = none ∧ parameters.names.length < arguments.length ∧
      entered = .error (.fault (.count .tooMany)) store.skipIdentity) := by
  intro entered
  rcases parameters.accepts_or arguments.length with h | h | ⟨hrest, h⟩
  · exact .inl ⟨h, _, Callee.enter_body (Parameters.bind_of_accepts h) run,
      Parameters.bindAll_bindsParameters h.le⟩
  · exact .inr (.inl ⟨h, Callee.enter_body_of_fault (Parameters.bind_of_few h)⟩)
  · exact .inr (.inr ⟨hrest, h, Callee.enter_body_of_fault (Parameters.bind_of_many hrest h)⟩)

theorem Parameters.Accepts.not_few {count : Nat} (h : parameters.Accepts count) :
    ¬ count < parameters.names.length := Nat.not_lt.mpr h.le

theorem Parameters.Accepts.not_many {count : Nat} (h : parameters.Accepts count) :
    ¬ (parameters.rest = none ∧ parameters.names.length < count) := by
  rintro ⟨hrest, hlt⟩
  rcases h with h | ⟨h, -⟩
  · exact hlt.ne h.symm
  · rw [hrest] at h
    cases h

/-- What a call of a function of the program does before its body. Its arguments are bound in a
new frame inside the scope of the function, which stays as it is, or there are too few or too many
of them. -/
theorem parameters_declared_and_bound :
    (∀ (declared : Value) (parameters : Parameters),
      Parameters.ofValue declared = .ok parameters ↔ ∃ names : List String,
        declared.IsSequenceOf (names.map .symbol) ∧ Declares names parameters) ∧
    ∀ (parameters : Parameters) (arguments : List Value) (form : Value) (scope : Scope)
      (store : Store) (run : Runner),
      let entered := (Callee.body parameters form scope).enter run arguments store
      ((∃ step store', entered = .ok step store') ↔ parameters.Accepts arguments.length) ∧
      (entered = .error (.fault (.count .tooFew)) store.skipIdentity ↔
        arguments.length < parameters.names.length) ∧
      (entered = .error (.fault (.count .tooMany)) store.skipIdentity ↔
        parameters.rest = none ∧ parameters.names.length < arguments.length) ∧
      ∀ step store', entered = .ok step store' → ∃ frame : Frame,
        step = .tail form (scope.nest store.nextFrame) ∧
        store' = store.skipIdentity.addFrame frame ∧
        (∀ f < store.nextFrame, store'.frame f = store.frame f) ∧
        frame.BindsParameters parameters arguments store.heap.nextIdentity ∧
        ((parameters.names ++ parameters.rest.toList).Nodup → ∃ extra : List Value,
          arguments.map some = parameters.names.map (frame.find? ·) ++ extra.map some ∧
          ∀ name, parameters.rest = some name →
            frame.find? name = some (.list extra .nil (some store.heap.nextIdentity))) := by
  refine ⟨fun declared parameters => Parameters.ofValue_eq_ok_iff, ?_⟩
  intro parameters arguments form scope store run entered
  rcases Callee.enter_body_cases parameters arguments form scope store run with
    ⟨h, frame, hentered, hframe⟩ | ⟨h, hentered⟩ | ⟨hrest, h, hentered⟩
  · have hok : entered = .ok _ _ := hentered
    rw [hok]
    refine ⟨⟨fun _ => h, fun _ => ⟨_, _, rfl⟩⟩, ⟨nofun, fun hfew => absurd hfew h.not_few⟩,
      ⟨nofun, fun hmany => absurd hmany h.not_many⟩, ?_⟩
    rintro step store' hstep
    cases hstep
    refine ⟨frame, rfl, rfl, fun f hf => ?_, hframe, fun hnodup => ?_⟩
    · rw [Store.frame_addFrame]
      exact if_neg (Nat.ne_of_lt hf)
    · refine ⟨arguments.drop parameters.names.length, ?_, hframe.rest⟩
      rw [hframe.positional h.le hnodup, ← List.map_append, List.take_append_drop]
  · have hfew : entered = .error _ _ := hentered
    rw [hfew]
    exact ⟨⟨nofun, fun haccepts => absurd h haccepts.not_few⟩, ⟨fun _ => h, fun _ => rfl⟩,
      ⟨nofun, fun hmany => absurd hmany.2 (Nat.lt_asymm h)⟩, nofun⟩
  · have hmany : entered = .error _ _ := hentered
    rw [hmany]
    exact ⟨⟨nofun, fun haccepts => absurd ⟨hrest, h⟩ haccepts.not_many⟩,
      ⟨nofun, fun hfew => absurd hfew (Nat.lt_asymm h)⟩, ⟨fun _ => ⟨hrest, h⟩, fun _ => rfl⟩, nofun⟩

/-- Of two parameters with one name the second has its argument, and what is left is a list. -/
theorem parameters_declared_and_bound_repeated :
    let parameters : Parameters := ⟨["a", "a"], some "b"⟩
    let store := Store.initial .empty "" 0
    Parameters.ofValue (.ofVector [.symbol "a", .symbol "a", .symbol "&", .symbol "b"]) =
        .ok parameters ∧
      ∃ frame : Frame, (Callee.body parameters (.symbol "a") (.global 0)).enter
          (fun _ => EvalM.abort .exhausted) [.int 1, .int 2, .int 3] store =
        .ok (.tail (.symbol "a") ⟨store.nextFrame, [0]⟩) (store.skipIdentity.addFrame frame) ∧
      frame.find? "a" = some (.int 2) ∧
      frame.find? "b" = some (.list [.int 3] .nil (some store.heap.nextIdentity)) := by
  intro parameters store
  obtain ⟨hdeclared, hbound⟩ := parameters_declared_and_bound
  refine ⟨(hdeclared _ _).mpr ⟨["a", "a", "&", "b"], ⟨.nil, none, .inr rfl⟩,
    @Declares.withRest ["a", "a"] "b" (by decide) (by decide)⟩, ?_⟩
  obtain ⟨haccepted, -, -, hopened⟩ := hbound parameters [.int 1, .int 2, .int 3] (.symbol "a")
    (.global 0) store fun _ => EvalM.abort .exhausted
  obtain ⟨step, store', hentered⟩ := haccepted.mpr (.inr ⟨rfl, by decide⟩)
  obtain ⟨frame, rfl, rfl, -, hframe, -⟩ := hopened step store' hentered
  exact ⟨frame, hentered, hframe.last ["a"] "a" [] rfl (by decide) (by decide),
    hframe.rest "b" rfl⟩

end Entering

end SmallLisp
