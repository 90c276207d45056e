import SmallLisp.Proofs.Answers
import SmallLisp.Proofs.NormalTexts
import SmallLisp.Proofs.TemplateInstances

/-! # Data evaluates to itself

Data is made of what stands for itself: vectors and tables evaluate to new ones with the values of
their parts, and the keys of tables are not evaluated. So the value of data is the same data in
every scope, and the text of data is the answer of every session to it.
-/
namespace SmallLisp

namespace Value

/-- Data that evaluates to itself. The only list is the empty one. Symbols occur as keys alone,
since a key is no part that is evaluated. -/
inductive IsData : Value → Prop where
  | nil : IsData .nil
  | bool (b : Bool) : IsData (.bool b)
  | int {n : Int} (h : n.natAbs < Text.numeralBound) : IsData (.int n)
  | str (text : String) : IsData (.str text)
  | keyword {name : String} (h : KeywordName name) : IsData (.keyword name)
  | empty (identity : Option Identity) : IsData (.list [] .nil identity)
  | vector {items : List Value} {identity : Option Identity} (h : ∀ v ∈ items, IsData v) :
      IsData (.vector items .nil identity)
  | table {entries : List (Value × Value)} (hkeyed : Entries.Keyed entries)
      (hkeys : ∀ e ∈ entries, e.1.Readable) (hvalues : ∀ e ∈ entries, IsData e.2) :
      IsData (.table entries .nil)

mutual

def nesting : Value → Nat
  | .vector items _ _ => nestingAll items + 1
  | .table entries _ => nestingEntries entries + 1
  | _ => 1
termination_by structural x => x

def nestingAll : List Value → Nat
  | [] => 0
  | v :: vs => max (nesting v) (nestingAll vs)
termination_by structural x => x

def nestingEntries : List (Value × Value) → Nat
  | [] => 0
  | (_, v) :: entries => max (nesting v) (nestingEntries entries)
termination_by structural x => x

end

theorem nesting_le_nestingAll {v : Value} {items : List Value} (h : v ∈ items) :
    v.nesting ≤ nestingAll items := by
  induction h with
  | head vs => exact Nat.le_max_left _ _
  | tail _ _ ih => exact Nat.le_trans ih (Nat.le_max_right _ _)

theorem nestingEntries_eq (entries : Entries) :
    nestingEntries entries = nestingAll (Entries.values entries) := by
  induction entries with
  | nil => rfl
  | cons e entries ih => exact congrArg (max e.2.nesting) ih

variable {v : Value}

theorem IsData.readable (h : v.IsData) : v.Readable := by
  induction h with
  | nil => exact .nil
  | bool b => exact .bool b
  | int hn => exact .int hn
  | str text => exact .str text
  | keyword hname => exact .keyword hname
  | empty identity => exact .list (List.forall_mem_nil _)
  | vector _ ih => exact .vector ih
  | table hkeyed hkeys _ ih => exact .table hkeyed hkeys ih

theorem isError_asRead (v : Value) : v.asRead.isError = v.isError := by
  cases v <;> rfl

theorem IsData.isError_of_asRead_eq {w : Value} (h : v.IsData) (hw : w.asRead = v.asRead) :
    w.isError = false := by
  rw [← isError_asRead, hw, isError_asRead]
  cases h <;> rfl

theorem IsData.asRead (h : v.IsData) : v.asRead.IsData := by
  induction h with
  | nil => exact .nil
  | bool b => exact .bool b
  | int hn => exact .int hn
  | str text => exact .str text
  | keyword hname => exact .keyword hname
  | empty identity => exact .empty none
  | vector _ ih =>
    rw [Value.asRead, asReadAll_eq_map]
    exact .vector (List.forall_mem_map.mpr ih)
  | table hkeyed hkeys _ ih =>
    rw [Value.asRead]
    refine .table (keyed_asReadEntries hkeyed) ?_ ?_
    · rw [asReadEntries_eq_map]
      refine List.forall_mem_map.mpr fun e he => ?_
      rw [asRead_of_isKey (hkeyed.usable e he)]
      exact hkeys e he
    · rw [asReadEntries_eq_map]
      exact List.forall_mem_map.mpr ih

mutual

theorem nesting_asRead : ∀ v : Value, v.asRead.nesting = v.nesting
  | .vector items _ _ => congrArg (· + 1) (nestingAll_asReadAll items)
  | .table entries _ => congrArg (· + 1) (nestingEntries_asReadEntries entries)
  | .nil | .bool _ | .int _ | .str _ | .symbol _ | .keyword _ | .list _ _ _ | .atom _
  | .native _ _ _ _ | .closure _ _ _ _ _ _ | .error _ _ => rfl
termination_by structural x => x

theorem nestingAll_asReadAll : ∀ vs : List Value, nestingAll (asReadAll vs) = nestingAll vs
  | [] => rfl
  | v :: vs => by
    rw [asReadAll, nestingAll, nestingAll, nesting_asRead v, nestingAll_asReadAll vs]
termination_by structural x => x

theorem nestingEntries_asReadEntries : ∀ entries : List (Value × Value),
    nestingEntries (asReadEntries entries) = nestingEntries entries
  | [] => rfl
  | (k, v) :: entries => by
    rw [asReadEntries, nestingEntries, nestingEntries, nesting_asRead v,
      nestingEntries_asReadEntries entries]
termination_by structural x => x

end

section Render

variable (readable : Bool) {cell cell' : CellId → Except Abort (List Char)}

mutual

theorem render_asRead : ∀ v : Value, v.asRead.render readable cell = v.render readable cell
  | .list items metadata identity => by rw [asRead, render, render, renderAll_asRead items]
  | .vector items metadata identity => by rw [asRead, render, render, renderAll_asRead items]
  | .table entries metadata => by rw [asRead, render, render, renderEntries_asRead entries]
  | .nil | .bool _ | .int _ | .str _ | .symbol _ | .keyword _ | .atom _ | .native _ _ _ _
  | .closure _ _ _ _ _ _ | .error _ _ => rfl
termination_by structural x => x

theorem renderAll_asRead : ∀ vs : List Value,
    renderAll readable cell (asReadAll vs) = renderAll readable cell vs
  | [] => rfl
  | v :: vs => by rw [asReadAll, renderAll, renderAll, render_asRead v, renderAll_asRead vs]
termination_by structural x => x

theorem renderEntries_asRead : ∀ entries : List (Value × Value),
    renderEntries readable cell (asReadEntries entries) = renderEntries readable cell entries
  | [] => rfl
  | (k, v) :: entries => by
    rw [asReadEntries, renderEntries, renderEntries, render_asRead k, render_asRead v,
      renderEntries_asRead entries]
termination_by structural x => x

end

theorem renderAll_congr {vs : List Value}
    (h : ∀ v ∈ vs, v.render readable cell = v.render readable cell') :
    renderAll readable cell vs = renderAll readable cell' vs := by
  induction vs with
  | nil => rfl
  | cons v vs ih =>
    obtain ⟨hv, hvs⟩ := List.forall_mem_cons.mp h
    rw [renderAll, renderAll, hv, ih hvs]

theorem renderEntries_congr {entries : List (Value × Value)}
    (hkeys : ∀ e ∈ entries, e.1.render readable cell = e.1.render readable cell')
    (hvalues : ∀ e ∈ entries, e.2.render readable cell = e.2.render readable cell') :
    renderEntries readable cell entries = renderEntries readable cell' entries := by
  induction entries with
  | nil => rfl
  | cons e entries ih =>
    obtain ⟨hkey, hkeys⟩ := List.forall_mem_cons.mp hkeys
    obtain ⟨hvalue, hvalues⟩ := List.forall_mem_cons.mp hvalues
    rw [renderEntries, renderEntries, hkey, hvalue, ih hkeys hvalues]

/-- Data that can be read shows no cells, so its text is the same whatever they hold. -/
theorem Readable.render_eq (h : v.Readable) : v.render readable cell = v.render readable cell' := by
  induction h with
  | list _ ih => rw [render, render, renderAll_congr readable ih]
  | vector _ ih => rw [render, render, renderAll_congr readable ih]
  | table _ _ _ ihkeys ihvalues =>
    rw [render, render, renderEntries_congr readable ihkeys ihvalues]
  | _ => rfl

end Render

end Value

/-- The runner evaluates the value to one that differs in the identities of lists and vectors at
most, and no more than identities is used up. -/
def Runner.Repeats (run : Runner) (scope : Scope) (v : Value) : Prop :=
  ∀ store, ∃ w count, w.asRead = v.asRead ∧
    run (.evaluate v scope) store = .ok w (store.skipIdentities count)

variable {run : Runner} {scope : Scope} {store : Store} {v : Value} {items : List Value}
  {entries : Entries}

theorem evaluateAll_repeats (h : ∀ v ∈ items, run.Repeats scope v)
    (hdata : ∀ v ∈ items, v.IsData) (store : Store) :
    ∃ ws count, ws.map Value.asRead = items.map Value.asRead ∧
      evaluateAll run scope items store = .ok (.ok ws) (store.skipIdentities count) := by
  induction items generalizing store with
  | nil => exact ⟨[], 0, rfl, rfl⟩
  | cons v items ih =>
    obtain ⟨hv, hitems⟩ := List.forall_mem_cons.mp h
    obtain ⟨hvalue, hvalues⟩ := List.forall_mem_cons.mp hdata
    obtain ⟨w, count, hw, hfirst⟩ := hv store
    obtain ⟨ws, count', hws, hrest⟩ := ih hitems hvalues (store.skipIdentities count)
    have herror := hvalue.isError_of_asRead_eq hw
    refine ⟨w :: ws, count + count', by rw [List.map_cons, hw, hws, List.map_cons], ?_⟩
    rw [Store.skipIdentities_skipIdentities] at hrest
    exact evaluateAll_cons hfirst herror hrest

/-- Tables with these values for their keys differ in the identities inside of them at most. -/
theorem asReadEntries_zip {ws : List Value}
    (h : ws.map Value.asRead = (Entries.values entries).map Value.asRead) :
    Value.asReadEntries ((Entries.keys entries).zip ws) = Value.asReadEntries entries := by
  have hpairs : ∀ vs : List Value, Value.asReadEntries ((Entries.keys entries).zip vs) =
      ((Entries.keys entries).map Value.asRead).zip (vs.map Value.asRead) := by
    intro vs
    rw [Value.asReadEntries_eq_map, List.zip_map]
    rfl
  have hentries : (Entries.keys entries).zip (Entries.values entries) = entries := by
    rw [Entries.keys, Entries.values, List.zip_map']
    exact List.map_id entries
  rw [hpairs, h, ← hpairs, hentries]

theorem repeats_of_constant (steps depth : Nat)
    (h : ∀ run store, (Task.evaluate v scope).step (steps + 1) run store = .ok (.done v) store) :
    (runTask (steps + 1) (depth + 1)).Repeats scope v :=
  fun store => ⟨v, 0, rfl, runTask_of_done (h _ store)⟩

theorem repeats_vector {steps depth : Nat} {identity : Option Identity}
    (h : ∀ v ∈ items, (runTask (steps + 1) depth).Repeats scope v)
    (hdata : ∀ v ∈ items, v.IsData) :
    (runTask (steps + 1) (depth + 1)).Repeats scope (.vector items .nil identity) := by
  intro store
  obtain ⟨ws, count, hws, hall⟩ := evaluateAll_repeats h hdata store
  refine ⟨.vector ws .nil (some (store.skipIdentities count).heap.nextIdentity), count + 1, ?_,
    runTask_of_done ?_⟩
  · rw [Value.asRead, Value.asRead, Value.asReadAll_eq_map, Value.asReadAll_eq_map, hws]
  · rw [Task.step, stepForm, ← Store.skipIdentities_skipIdentities]
    simp only [Bind.bind, EStateM.bind, hall]
    rfl

theorem repeats_table {steps depth : Nat} (hkeyed : Entries.Keyed entries)
    (h : ∀ v ∈ Entries.values entries, (runTask (steps + 1) depth).Repeats scope v)
    (hdata : ∀ v ∈ Entries.values entries, v.IsData) :
    (runTask (steps + 1) (depth + 1)).Repeats scope (.table entries .nil) := by
  intro store
  obtain ⟨ws, count, hws, hall⟩ := evaluateAll_repeats h hdata store
  have hwritten : writeEntries [] ((Entries.keys entries).zip ws) =
      .ok ((Entries.keys entries).zip ws) := by
    have hzip := hkeyed.of_keys (Entries.keys_zip_sublist (Entries.keys entries) ws)
    rw [writeEntries, Entries.insertMany_eq_insertAll, Entries.insertAll_nil hzip]
    rfl
  refine ⟨.table ((Entries.keys entries).zip ws) .nil, count, ?_, runTask_of_done ?_⟩
  · rw [Value.asRead, Value.asRead, asReadEntries_zip hws]
  · rw [Task.step, stepForm]
    simp only [Bind.bind, EStateM.bind, hall, hwritten]
    rfl

/-- Every level of the evaluation takes one step, and the parts of the value are one level
deeper. -/
theorem Value.IsData.repeats (h : v.IsData) (scope : Scope) (steps : Nat) {depth : Nat}
    (hdepth : v.nesting ≤ depth) : (runTask (steps + 1) depth).Repeats scope v := by
  induction h generalizing depth with
  | @vector items identity hitems ih =>
    obtain ⟨depth, rfl⟩ := Nat.exists_eq_add_one_of_ne_zero (Nat.ne_zero_of_lt hdepth)
    have hlevel : Value.nestingAll items ≤ depth := Nat.le_of_succ_le_succ hdepth
    refine repeats_vector (fun v hv => ih v hv ?_) hitems
    exact Nat.le_trans (Value.nesting_le_nestingAll hv) hlevel
  | @table entries hkeyed hkeys hvalues ih =>
    obtain ⟨depth, rfl⟩ := Nat.exists_eq_add_one_of_ne_zero (Nat.ne_zero_of_lt hdepth)
    have hlevel : Value.nestingEntries entries ≤ depth := Nat.le_of_succ_le_succ hdepth
    rw [Value.nestingEntries_eq] at hlevel
    refine repeats_table hkeyed ?_ (List.forall_mem_map.mpr hvalues)
    refine List.forall_mem_map.mpr fun e he => ih e he ?_
    exact Nat.le_trans (Value.nesting_le_nestingAll (List.mem_map_of_mem he)) hlevel
  | _ =>
    obtain ⟨depth, rfl⟩ := Nat.exists_eq_add_one_of_ne_zero (Nat.ne_zero_of_lt hdepth)
    exact repeats_of_constant steps depth fun _ _ => rfl

/-- What a run within the smallest limits ends with is the end within all larger ones. -/
theorem Value.IsData.exists_value (h : v.IsData) (scope : Scope) (store : Store) :
    ∃ w count, w.asRead = v.asRead ∧ ∀ limits : Limits, 0 < limits.steps →
      v.nesting ≤ limits.depth →
        limits.runner (.evaluate v scope) store = .ok w (store.skipIdentities count) := by
  obtain ⟨w, count, hw, hrun⟩ := h.repeats scope 0 (Nat.le_refl _) store
  refine ⟨w, count, hw, fun limits hsteps hdepth => ?_⟩
  have hsame := runTask_approximates hsteps hdepth (.evaluate v scope) store
  rw [hrun] at hsame
  exact hsame id

theorem Value.IsData.exists_text (h : v.IsData) :
    ∃ text, readForms text = .ok [v.asRead] ∧ ∀ heap w, w.asRead = v.asRead →
      printValue heap true w = .ok text := by
  obtain ⟨text, htext, hdenotes⟩ := prints_of_readable (cellPrinter true .empty) h.readable
  refine ⟨String.ofList text, hdenotes.readForms, fun heap w hw => ?_⟩
  have hsame : w.render true (cellPrinter true heap) = .ok text := by
    rw [← Value.render_asRead, hw, Value.render_asRead, h.readable.render_eq, htext]
  rw [printValue, hsame]
  rfl

/-- The answer to one form is the text of its value. -/
theorem answer_of_value {source text : String} {form : Value} {store' : Store}
    (hread : readForms source = .ok [form]) (hrun : run (.evaluate form scope) store = .ok v store')
    (hv : v.isError = false) (hprint : printValue store'.heap true v = .ok text) :
    answer run scope source store = .ok text store' := by
  have hforms : evaluateForms run scope [form] store = .ok v store' := hrun
  rw [answer_forms hread (List.cons_ne_nil form [])]
  simp only [Bind.bind, EStateM.bind, catchUncaught, hforms, answerText_eq, hprint, hv]
  rfl

/-- In every scope data evaluates to itself, and in every session the answer to its text is this
text, within all limits that its nesting fits in. -/
theorem Value.IsData.evaluates_to_itself (h : v.IsData) (scope : Scope) (store : Store) :
    (∃ w count, w.asRead = v.asRead ∧
      ∀ limits : Limits, 0 < limits.steps → v.nesting ≤ limits.depth →
        limits.runner (.evaluate v scope) store = .ok w (store.skipIdentities count)) ∧
    ∃ text, (∀ heap, printValue heap true v = .ok text) ∧
      ∃ count, ∀ (limits : Limits) (predefined : List String), 0 < limits.steps →
        v.nesting ≤ limits.depth → (Session.mk limits.runner scope predefined).answer text store =
          .ok text (store.skipIdentities count) := by
  refine ⟨h.exists_value scope store, ?_⟩
  obtain ⟨text, hread, hprint⟩ := h.exists_text
  obtain ⟨w, count, hw, hrun⟩ := h.asRead.exists_value scope store
  -- what is evaluated is the data as it was read, which has the same nesting and the same text
  have hdata : v.asRead.asRead = v.asRead := (readForms_isRead hread _ List.mem_cons_self).2
  rw [hdata] at hw
  rw [v.nesting_asRead] at hrun
  refine ⟨text, fun heap => hprint heap v rfl, count, fun limits predefined hsteps hdepth => ?_⟩
  exact answer_of_value hread (hrun limits hsteps hdepth) (h.isError_of_asRead_eq hw)
    (hprint _ w hw)

/-- A table with a symbol as a key, and a vector with the empty list in it. -/
theorem Value.IsData.evaluates_to_itself_symbol :
    let v := Value.ofEntries [(.symbol "a", .ofVector [.bool true, .ofList [], .str "\n"]),
      (.nil, .keyword "")]
    let store := Store.initial .empty "" 0
    let text := "\x7ba [true () \"\\n\"], nil :\x7d"
    v.IsData ∧ v.nesting = 3 ∧ ∃ count, ∀ (limits : Limits) (predefined : List String),
      0 < limits.steps → 3 ≤ limits.depth →
        (Session.mk limits.runner (.global 0) predefined).answer text store =
          .ok text (store.skipIdentities count) := by
  intro v store text
  have hvector : Value.IsData (.ofVector [.bool true, .ofList [], .str "\n"]) := by
    refine .vector ?_
    simp only [List.forall_mem_cons]
    exact ⟨.bool true, .empty none, .str "\n", List.forall_mem_nil _⟩
  have hv : v.IsData := by
    refine .table ⟨by decide, by decide⟩ ?_ ?_
    · simp only [List.forall_mem_cons]
      exact ⟨.symbol (by decide), .nil, List.forall_mem_nil _⟩
    · simp only [List.forall_mem_cons]
      exact ⟨hvector, .keyword (by decide), List.forall_mem_nil _⟩
  have htext : printValue .empty true v = .ok text := by rfl
  obtain ⟨_, text', hprint, hanswers⟩ := hv.evaluates_to_itself (.global 0) store
  rw [hprint, Except.ok.injEq] at htext
  rw [htext] at hanswers
  exact ⟨hv, rfl, hanswers⟩

end SmallLisp
