import SmallLisp.Proofs.PrintableValues
import SmallLisp.Value.BoundedPrinter

/-! # Values that have a text within some levels

A value is printed within so many levels just if no way into it is longer than that and no integer
that is shown is too long. Its text is then the one that it has without a bound, and every value
that has a text has it within some number of levels.
-/
namespace SmallLisp

def PrintableWithin (heap : Heap) : Nat → Value → Prop
  | 0, _ => False
  | levels + 1, v =>
    (∀ n, v = .int n → n.natAbs < Text.numeralBound) ∧
      ∀ u ∈ v.shown heap, PrintableWithin heap levels u

variable {heap : Heap} {readable : Bool} {v : Value} {levels : Nat}

theorem PrintableWithin.succ (h : PrintableWithin heap levels v) :
    PrintableWithin heap (levels + 1) v := by
  induction levels generalizing v with
  | zero => exact h.elim
  | succ levels ih =>
    obtain ⟨hnumeral, hshown⟩ := h
    exact ⟨hnumeral, fun u hu => ih (hshown u hu)⟩

theorem PrintableWithin.mono (h : PrintableWithin heap levels v) {levels' : Nat}
    (hle : levels ≤ levels') : PrintableWithin heap levels' v := by
  induction hle with
  | refl => exact h
  | step _ ih => exact ih.succ

/-- Finitely many values that are printable within levels of their own are so within the same. -/
theorem exists_levels_of_forall {vs : List Value}
    (h : ∀ v ∈ vs, ∃ levels, PrintableWithin heap levels v) :
    ∃ levels, ∀ v ∈ vs, PrintableWithin heap levels v := by
  induction vs with
  | nil => exact ⟨0, List.forall_mem_nil _⟩
  | cons v vs ih =>
    obtain ⟨⟨levels, hv⟩, hvs⟩ := List.forall_mem_cons.mp h
    obtain ⟨levels', hvs⟩ := ih hvs
    refine ⟨max levels levels', List.forall_mem_cons.mpr ⟨hv.mono (by omega), ?_⟩⟩
    intro u hu
    exact (hvs u hu).mono (by omega)

theorem printable_iff_within : Printable heap v ↔ ∃ levels, PrintableWithin heap levels v := by
  constructor
  · intro h
    induction h with
    | intro hnumeral _ ih =>
      obtain ⟨levels, hshown⟩ := exists_levels_of_forall ih
      exact ⟨levels + 1, hnumeral, hshown⟩
  · rintro ⟨levels, h⟩
    induction levels generalizing v with
    | zero => exact h.elim
    | succ levels ih =>
      obtain ⟨hnumeral, hshown⟩ := h
      exact .intro hnumeral fun u hu => ih (hshown u hu)

section Step

variable {α β : Type} {cell cell' : CellId → Except Abort (List Char)}
  {part part' : Value → Except Abort (List Char)}

theorem exists_bind_pure_iff {x : Except Abort α} {f : α → β} :
    (∃ b, (do return f (← x)) = Except.ok (ε := Abort) b) ↔ ∃ a, x = .ok a := by
  constructor
  · rintro ⟨b, h⟩
    obtain ⟨a, ha, _⟩ := bind_eq_ok_iff.mp h
    exact ⟨a, ha⟩
  · rintro ⟨a, ha⟩
    exact ⟨f a, bind_eq_ok_iff.mpr ⟨a, ha, rfl⟩⟩

theorem exists_mapM_iff {f : α → Except Abort β} {xs : List α} :
    (∃ ys, xs.mapM f = .ok ys) ↔ ∀ x ∈ xs, ∃ y, f x = .ok y := by
  induction xs with
  | nil => exact iff_of_true ⟨[], rfl⟩ (List.forall_mem_nil _)
  | cons x xs ih =>
    rw [List.forall_mem_cons, ← ih, List.mapM_cons]
    constructor
    · rintro ⟨ys, h⟩
      obtain ⟨y, hy, h⟩ := bind_eq_ok_iff.mp h
      obtain ⟨ys, hys, _⟩ := bind_eq_ok_iff.mp h
      exact ⟨⟨y, hy⟩, ys, hys⟩
    · rintro ⟨⟨y, hy⟩, ys, hys⟩
      exact ⟨y :: ys, bind_eq_ok_iff.mpr ⟨y, hy, bind_eq_ok_iff.mpr ⟨ys, hys, rfl⟩⟩⟩

/-- A value has a text just if all that is shown of it has one. -/
theorem exists_renderStep_iff :
    (∃ text, v.renderStep readable (fun id => part (heap.content id)) part = .ok text) ↔
      (∀ n, v = .int n → n.natAbs < Text.numeralBound) ∧
        ∀ u ∈ v.shown heap, ∃ text, part u = .ok text := by
  have hother : v.isNumber = false → ∀ n, v = .int n → n.natAbs < Text.numeralBound := by
    rintro hv n rfl
    cases hv
  cases v with
  | int n =>
    rw [Value.renderStep, exists_numeralText_iff]
    constructor
    · intro hshort
      refine ⟨fun m hm => ?_, List.forall_mem_nil _⟩
      cases hm
      exact hshort
    · rintro ⟨hnumeral, _⟩
      exact hnumeral n rfl
  | list items metadata identity =>
    exact exists_bind_pure_iff.trans (exists_mapM_iff.trans ⟨fun h => ⟨hother rfl, h⟩, And.right⟩)
  | vector items metadata identity =>
    exact exists_bind_pure_iff.trans (exists_mapM_iff.trans ⟨fun h => ⟨hother rfl, h⟩, And.right⟩)
  | table entries metadata =>
    refine exists_bind_pure_iff.trans (exists_mapM_iff.trans ⟨fun h => ⟨hother rfl, ?_⟩, ?_⟩)
    · rw [Value.shown, List.forall_mem_append, Entries.keys, Entries.values, List.forall_mem_map,
        List.forall_mem_map]
      constructor
      · intro e he
        obtain ⟨text, htext⟩ := h e he
        obtain ⟨key, hkey, _⟩ := bind_eq_ok_iff.mp htext
        exact ⟨key, hkey⟩
      · intro e he
        obtain ⟨text, htext⟩ := h e he
        obtain ⟨_, _, htext⟩ := bind_eq_ok_iff.mp htext
        obtain ⟨value, hvalue, _⟩ := bind_eq_ok_iff.mp htext
        exact ⟨value, hvalue⟩
    · rintro ⟨_, hshown⟩ e he
      obtain ⟨hkeys, hvalues⟩ := List.forall_mem_append.mp hshown
      obtain ⟨key, hkey⟩ := hkeys e.1 (List.mem_map_of_mem he)
      obtain ⟨value, hvalue⟩ := hvalues e.2 (List.mem_map_of_mem he)
      exact ⟨_, bind_eq_ok_iff.mpr ⟨key, hkey, bind_eq_ok_iff.mpr ⟨value, hvalue, rfl⟩⟩⟩
  | atom id =>
    refine exists_bind_pure_iff.trans ⟨fun h => ⟨hother rfl, ?_⟩, fun h => ?_⟩
    · exact List.forall_mem_singleton.mpr h
    · exact h.2 _ (List.mem_singleton_self _)
  | error message cause =>
    cases cause with
    | none => exact iff_of_true ⟨_, rfl⟩ ⟨hother rfl, List.forall_mem_nil _⟩
    | some cause =>
      refine ⟨fun h => ⟨hother rfl, List.forall_mem_singleton.mpr h⟩, fun h => ?_⟩
      exact h.2 _ (List.mem_singleton_self _)
  | _ => exact iff_of_true ⟨_, rfl⟩ ⟨hother rfl, List.forall_mem_nil _⟩

end Step

theorem exists_renderWithin_iff :
    (∃ text, v.renderWithin readable heap levels = .ok text) ↔ PrintableWithin heap levels v := by
  induction levels generalizing v with
  | zero => exact iff_of_false nofun id
  | succ levels ih => simp only [Value.renderWithin, PrintableWithin, exists_renderStep_iff, ih]

theorem exists_printWithin_iff :
    (∃ text, printWithin levels heap readable v = .ok text) ↔ PrintableWithin heap levels v := by
  rw [← exists_renderWithin_iff, printWithin]
  cases v.renderWithin readable heap levels with
  | ok text => exact iff_of_true ⟨_, rfl⟩ ⟨_, rfl⟩
  | error reason => exact iff_of_false nofun nofun

theorem GivesUpFor.mapM {α β : Type} {reasons : Abort → Prop} {f : α → Except Abort β}
    (hf : ∀ a, GivesUpFor reasons (f a)) (xs : List α) : GivesUpFor reasons (xs.mapM f) := by
  induction xs with
  | nil => exact givesUpFor_ok _
  | cons x xs ih =>
    rw [List.mapM_cons]
    exact (hf x).bind fun _ => ih.bind fun _ => givesUpFor_ok _

def Abort.OfBoundedPrinting : Abort → Prop
  | .exhausted => True
  | .longNumeral => True
  | _ => False

theorem renderWithin_gives_up (readable : Bool) (heap : Heap) (levels : Nat) (v : Value) :
    GivesUpFor Abort.OfBoundedPrinting (v.renderWithin readable heap levels) := by
  induction levels generalizing v with
  | zero =>
    intro reason h
    cases h
    trivial
  | succ levels ih =>
    rw [Value.renderWithin]
    cases v with
    | int n => exact givesUpFor_numeralText trivial n
    | list items _ _ => exact (GivesUpFor.mapM ih items).bind fun _ => givesUpFor_ok _
    | vector items _ _ => exact (GivesUpFor.mapM ih items).bind fun _ => givesUpFor_ok _
    | table entries _ =>
      refine (GivesUpFor.mapM (fun e => ?_) entries).bind fun _ => givesUpFor_ok _
      exact (ih e.1).bind fun _ => (ih e.2).bind fun _ => givesUpFor_ok _
    | atom id => exact (ih (heap.content id)).bind fun _ => givesUpFor_ok _
    | error message cause =>
      cases cause with
      | none => exact givesUpFor_ok _
      | some cause => exact ih cause
    | _ => exact givesUpFor_ok _

theorem printWithin_gives_up (levels : Nat) (heap : Heap) (readable : Bool) (v : Value) :
    GivesUpFor Abort.OfBoundedPrinting (printWithin levels heap readable v) :=
  (renderWithin_gives_up readable heap levels v).map _

/-- Two computations that come to the same, if both come to something. -/
def SameResult {α : Type} (x y : Except Abort α) : Prop := ∀ a b, x = .ok a → y = .ok b → a = b

section SameResult

variable {α β : Type} {cell cell' : CellId → Except Abort (List Char)}
  {part part' : Value → Except Abort (List Char)}

theorem sameResult_refl (x : Except Abort α) : SameResult x x := by
  intro a b ha hb
  rw [ha] at hb
  cases hb
  rfl

theorem sameResult_error (reason : Abort) (y : Except Abort α) : SameResult (.error reason) y := by
  intro a b ha
  cases ha

theorem sameResult_of_error (x : Except Abort α) (reason : Abort) :
    SameResult x (.error reason) := by
  intro a b _ hb
  cases hb

theorem SameResult.bind {x y : Except Abort α} {f g : α → Except Abort β} (hxy : SameResult x y)
    (hfg : ∀ a, SameResult (f a) (g a)) : SameResult (x >>= f) (y >>= g) := by
  intro b b' hb hb'
  obtain ⟨a, ha, hb⟩ := bind_eq_ok_iff.mp hb
  obtain ⟨a', ha', hb'⟩ := bind_eq_ok_iff.mp hb'
  have hsame := hxy a a' ha ha'
  subst hsame
  exact hfg a b b' hb hb'

theorem SameResult.map {x y : Except Abort α} (hxy : SameResult x y) (f : α → β) :
    SameResult (x.map f) (y.map f) := by
  intro b b' hb hb'
  cases hx : x with
  | error reason =>
    rw [hx] at hb
    cases hb
  | ok a =>
    cases hy : y with
    | error reason =>
      rw [hy] at hb'
      cases hb'
    | ok a' =>
      rw [hx] at hb
      rw [hy] at hb'
      cases hb
      cases hb'
      rw [hxy a a' hx hy]

theorem sameResult_mapM {f g : α → Except Abort β} (hfg : ∀ a, SameResult (f a) (g a))
    (xs : List α) : SameResult (xs.mapM f) (xs.mapM g) := by
  induction xs with
  | nil => exact sameResult_refl _
  | cons x xs ih =>
    rw [List.mapM_cons, List.mapM_cons]
    exact (hfg x).bind fun _ => ih.bind fun _ => sameResult_refl _

theorem sameResult_renderStep (hcell : ∀ id, SameResult (cell id) (cell' id))
    (hpart : ∀ v, SameResult (part v) (part' v)) (v : Value) :
    SameResult (v.renderStep readable cell part) (v.renderStep readable cell' part') := by
  cases v with
  | list items metadata identity =>
    exact (sameResult_mapM hpart items).bind fun _ => sameResult_refl _
  | vector items metadata identity =>
    exact (sameResult_mapM hpart items).bind fun _ => sameResult_refl _
  | table entries metadata =>
    refine (sameResult_mapM (fun e => ?_) entries).bind fun _ => sameResult_refl _
    exact (hpart e.1).bind fun _ => (hpart e.2).bind fun _ => sameResult_refl _
  | atom id => exact (hcell id).bind fun _ => sameResult_refl _
  | error message cause =>
    cases cause with
    | none => exact sameResult_refl _
    | some cause => exact hpart cause
  | _ => exact sameResult_refl _

theorem renderAll_eq_mapM (vs : List Value) :
    Value.renderAll readable cell vs = vs.mapM (Value.render readable cell) := by
  induction vs with
  | nil => rfl
  | cons v vs ih =>
    rw [Value.renderAll, List.mapM_cons, ih]

theorem renderEntries_eq_mapM (entries : Entries) :
    Value.renderEntries readable cell entries = entries.mapM fun (k, v) => do
      let key ← Value.render readable cell k
      let value ← Value.render readable cell v
      return key ++ ' ' :: value := by
  induction entries with
  | nil => rfl
  | cons e entries ih =>
    obtain ⟨k, v⟩ := e
    rw [Value.renderEntries, List.mapM_cons, ih]
    simp only [bind_assoc, pure_bind]

theorem render_eq_renderStep (v : Value) :
    v.render readable cell = v.renderStep readable cell (Value.render readable cell) := by
  cases v with
  | list items metadata identity => rw [Value.render, renderAll_eq_mapM, Value.renderStep]
  | vector items metadata identity => rw [Value.render, renderAll_eq_mapM, Value.renderStep]
  | table entries metadata => rw [Value.render, renderEntries_eq_mapM, Value.renderStep]
  | error message cause =>
    cases cause with
    | none => rfl
    | some cause => rfl
  | _ => rfl

end SameResult

/-- The induction is on the levels, each of which shows one value or goes into one cell. -/
theorem sameResult_renderWithin (depth : Nat) (around : List CellId) (v : Value) :
    SameResult (v.renderWithin readable heap levels)
      (v.render readable (renderCell readable heap depth around)) := by
  induction levels generalizing depth around v with
  | zero => exact sameResult_error _ _
  | succ levels ih =>
    rw [render_eq_renderStep]
    refine sameResult_renderStep (fun id => ?_) (ih depth around) v
    cases depth with
    | zero => exact sameResult_of_error _ _
    | succ depth =>
      rw [renderCell]
      split
      · exact sameResult_of_error _ _
      · exact ih depth (id :: around) (heap.content id)

theorem printValue_of_within {text : String}
    (h : printWithin levels heap readable v = .ok text) :
    printValue heap readable v = .ok text := by
  have hprintable := printable_iff_within.mpr ⟨levels, exists_printWithin_iff.mp ⟨text, h⟩⟩
  obtain ⟨text', htext'⟩ := (exists_printValue_iff heap readable v).mpr hprintable
  have hsame : SameResult (printWithin levels heap readable v) (printValue heap readable v) :=
    (sameResult_renderWithin _ _ v).map _
  rw [hsame text text' h htext']
  exact htext'

theorem exists_levels_of_printValue {text : String}
    (h : printValue heap readable v = .ok text) :
    ∃ levels, ∀ levels' ≥ levels, printWithin levels' heap readable v = .ok text := by
  obtain ⟨levels, hwithin⟩ :=
    printable_iff_within.mp ((exists_printValue_iff heap readable v).mp ⟨text, h⟩)
  refine ⟨levels, fun levels' hle => ?_⟩
  obtain ⟨text', htext'⟩ : ∃ text', printWithin levels' heap readable v = .ok text' :=
    exists_printWithin_iff.mpr (hwithin.mono hle)
  have hsame := printValue_of_within htext'
  rw [h] at hsame
  cases hsame
  exact htext'

/-- A cell that holds itself is not printed within any number of levels. -/
theorem renderWithin_self {id : CellId} (h : heap.content id = .atom id) (levels : Nat) :
    (Value.atom id).renderWithin readable heap levels = .error .exhausted := by
  induction levels with
  | zero => rfl
  | succ levels ih =>
    rw [Value.renderWithin, Value.renderStep, h, ih]
    rfl

end SmallLisp
