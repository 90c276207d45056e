import SmallLisp.Proofs.CallRules
import SmallLisp.Proofs.ErrorContainment
import SmallLisp.Proofs.KeyEquality

/-! # Equality is equality of normal forms

The normal form of a value holds what equality looks at: vectors have become lists, metadata is left
out, and cells and functions are known by their numbers. Values without error values are equal just
if they have one normal form, so equality is an equivalence on them.
-/
namespace SmallLisp

/-- A value as equality sees it. The keys of a table are no collections, so that their normal forms
are their codes. -/
inductive NormalForm where
  | plain (code : KeyCode)
  | items (items : List NormalForm)
  | entries (entries : List (NormalForm × NormalForm))
  | failure (message : String)

namespace Value

mutual

def normalForm : Value → NormalForm
  | .nil => .plain .nil
  | .bool b => .plain (.bool b)
  | .int n => .plain (.int n)
  | .str text => .plain (.str text)
  | .symbol name => .plain (.symbol name)
  | .keyword name => .plain (.keyword name)
  | .list items _ _ => .items (normalForms items)
  | .vector items _ _ => .items (normalForms items)
  | .table entries _ => .entries (normalEntries entries)
  | .atom cell => .plain (.atom cell)
  | .native id _ _ _ => .plain (.native id)
  | .closure id _ _ _ _ _ => .plain (.closure id)
  | .error message _ => .failure message
termination_by structural v => v

def normalForms : List Value → List NormalForm
  | [] => []
  | v :: vs => normalForm v :: normalForms vs
termination_by structural vs => vs

def normalEntries : List (Value × Value) → List (NormalForm × NormalForm)
  | [] => []
  | (key, value) :: entries => (normalForm key, normalForm value) :: normalEntries entries
termination_by structural entries => entries

end

def Shape.normalForm : Shape → NormalForm
  | .code c => .plain c
  | .items vs => .items (vs.map Value.normalForm)
  | .entries es => .entries (es.map fun e => (e.1.normalForm, e.2.normalForm))
  | .failure message _ => .failure message

variable {v w u : Value}

theorem normalForms_eq_map (vs : List Value) : normalForms vs = vs.map normalForm := by
  induction vs with
  | nil => rfl
  | cons v vs ih => rw [normalForms, ih, List.map_cons]

theorem normalEntries_eq_map (entries : Entries) :
    normalEntries entries = entries.map fun e => (e.1.normalForm, e.2.normalForm) := by
  induction entries with
  | nil => rfl
  | cons e entries ih => rw [normalEntries, ih, List.map_cons]

theorem normalForm_eq_shape (v : Value) : v.normalForm = v.shape.normalForm := by
  cases v with
  | list items => rw [normalForm, normalForms_eq_map, shape, Shape.normalForm]
  | vector items => rw [normalForm, normalForms_eq_map, shape, Shape.normalForm]
  | table entries => rw [normalForm, normalEntries_eq_map, shape, Shape.normalForm]
  | _ => rfl

theorem forall₂_iff_map_eq {α β : Type} {r : α → α → Prop} {f : α → β} {xs ys : List α}
    (h : ∀ x ∈ xs, ∀ y, r x y ↔ f x = f y) : List.Forall₂ r xs ys ↔ xs.map f = ys.map f := by
  induction xs generalizing ys with
  | nil => cases ys <;> simp
  | cons x xs ih =>
    obtain ⟨hx, hxs⟩ := List.forall_mem_cons.mp h
    cases ys with
    | nil => simp
    | cons y ys =>
      rw [List.forall₂_cons, List.map_cons, List.map_cons, List.cons.injEq, hx y, ih hxs]

/-- Only failures may be told apart by more than their normal forms. -/
theorem Shape.same_iff_normalForm {a b : Shape} (ha : ∀ message cause, a ≠ .failure message cause)
    (h : ∀ u ∈ a.parts, ∀ x, Value.same u x = true ↔ u.normalForm = x.normalForm) :
    a.Same b ↔ a.normalForm = b.normalForm := by
  cases a with
  | failure message cause => exact absurd rfl (ha message cause)
  | code c => cases b <;> simp [Shape.Same, Shape.normalForm]
  | items vs =>
    cases b with
    | items ws =>
      rw [Shape.normalForm, Shape.normalForm, NormalForm.items.injEq]
      exact forall₂_iff_map_eq h
    | _ => simp [Shape.Same, Shape.normalForm]
  | entries es =>
    cases b with
    | entries fs =>
      rw [Shape.normalForm, Shape.normalForm, NormalForm.entries.injEq]
      refine forall₂_iff_map_eq fun e he f => ?_
      obtain ⟨hkey, hvalue⟩ := Shape.mem_parts he
      rw [h _ hkey, h _ hvalue, Prod.mk.injEq]
    | _ => simp [Shape.Same, Shape.normalForm]

theorem shape_ne_failure (h : v.isError = false) (message : String) (cause : Option Value) :
    v.shape ≠ .failure message cause := by
  cases v with
  | error => cases h
  | _ => nofun

theorem ErrorFree.same_iff (h : v.ErrorFree) : same v w = true ↔ v.normalForm = w.normalForm := by
  induction h generalizing w with
  | @intro v hroot _ ih =>
    rw [Value.same_iff, normalForm_eq_shape, normalForm_eq_shape]
    refine Shape.same_iff_normalForm (shape_ne_failure hroot) fun u hu x => ?_
    exact ih u (mem_parts_of_shape hu)

theorem ErrorFree.equals_iff (h : v.ErrorFree) :
    v.equals w = true ↔ v.normalForm = w.normalForm := by
  rw [equals_eq_same, h.same_iff]

end Value

variable {vs : List Value}

theorem allSame_iff_isChain (vs : List Value) :
    allSame vs = true ↔ vs.IsChain fun v w => v.equals w = true := by
  induction vs using allSame.induct with
  | case1 v w rest ih => rw [allSame, Bool.and_eq_true, List.isChain_cons_cons, ih]
  | case2 vs hshort =>
    match vs with
    | [] => simp [allSame]
    | [v] => simp [allSame]
    | v :: w :: rest => exact absurd rfl (hshort v w rest)

/-- Where all neighbours are equal, all are. -/
theorem allSame_iff (h : ∀ v ∈ vs, v.ErrorFree) :
    allSame vs = true ↔ ∀ v ∈ vs, ∀ w ∈ vs, v.equals w = true := by
  have htrans : IsTrans Value fun v w => v.equals w = true := by
    refine ⟨fun v w u hvw hwu => ?_⟩
    rw [Value.equals_eq_same] at *
    exact Value.same_trans hvw hwu
  rw [allSame_iff_isChain, List.isChain_iff_pairwise]
  constructor
  · intro hpairwise v hv w hw
    have hforms : (vs.map Value.normalForm).Pairwise Eq :=
      List.pairwise_map.mpr (hpairwise.imp_of_mem fun hv _ hvw => (h _ hv).equals_iff.mp hvw)
    have hall := hforms.forall_of_forall fun _ _ => rfl
    exact (h v hv).equals_iff.mpr (hall (List.mem_map_of_mem hv) (List.mem_map_of_mem hw))
  · exact List.pairwise_of_forall_mem_list

variable {v w : Value}

/-- Values without error values are equal just if their normal forms are, and equality is an
equivalence on them. The builtin tells whether all its arguments are equal. -/
theorem equality_of_normal_forms (hv : v.ErrorFree) (hw : w.ErrorFree)
    (u : Value) (hvs : ∀ v ∈ vs, v.ErrorFree) (id : Identity) (home : FrameId) (metadata : Value)
    (store : Store) :
    (v.equals w = true ↔ v.normalForm = w.normalForm) ∧
    v.equals v = true ∧
    (v.equals w = true → w.equals v = true) ∧
    (v.equals w = true → w.equals u = true → v.equals u = true) ∧
    ∃ b, (Task.call (.native id (.plain (.collection .equal)) home metadata) vs).Ends store
        (.ok (.bool b) store) ∧
      (b = true ↔ ∀ v ∈ vs, ∀ w ∈ vs, v.equals w = true) := by
  have hself : v.equals v = true := hv.equals_iff.mpr rfl
  have hcall : (Task.call (.native id (.plain (.collection .equal)) home metadata) vs).Ends store
      (.ok (.bool (allSame vs)) store) := ends_collection .equal vs store id home metadata
  refine ⟨hv.equals_iff, hself, fun hvw => ?_, fun hvw hwu => ?_, _, hcall, allSame_iff hvs⟩
  · exact hw.equals_iff.mpr (hv.equals_iff.mp hvw).symm
  · exact hv.equals_iff.mpr ((hv.equals_iff.mp hvw).trans (hw.equals_iff.mp hwu))

/-- A list with metadata and a vector. -/
theorem equality_of_normal_forms_kinds :
    let v := Value.list [.bool true] (.str "note") none
    let w := Value.ofVector [.bool true]
    let store := Store.initial .empty "" 0
    v.ErrorFree ∧ w.ErrorFree ∧ v.equals w = true ∧ w.equals v = true ∧
      (Task.call (.native 0 (.plain (.collection .equal)) 0 .nil) [v, w]).Ends store
        (.ok (.bool true) store) := by
  intro v w store
  have htrue : (Value.bool true).ErrorFree := Value.every_of_parts_nil rfl rfl
  have hitems : ∀ u ∈ [Value.bool true], u.ErrorFree := List.forall_mem_singleton.mpr htrue
  have hv : v.ErrorFree :=
    Value.every_list.mpr ⟨rfl, Value.every_of_parts_nil rfl rfl, hitems⟩
  have hw : w.ErrorFree :=
    Value.every_vector.mpr ⟨rfl, Value.every_of_parts_nil rfl rfl, hitems⟩
  have hvs : ∀ u ∈ [v, w], u.ErrorFree := by
    rw [List.forall_mem_cons, List.forall_mem_singleton]
    exact ⟨hv, hw⟩
  obtain ⟨hforms, hself, hback, -, b, hcall, hb⟩ :=
    equality_of_normal_forms hv hw v hvs 0 0 .nil store
  have hvw : v.equals w = true := hforms.mpr rfl
  have hall : ∀ x ∈ [v, w], ∀ y ∈ [v, w], x.equals y = true := by
    simp only [List.mem_cons, List.not_mem_nil, or_false, forall_eq_or_imp, forall_eq]
    exact ⟨⟨hself, hvw⟩, hback hvw, hw.equals_iff.mpr rfl⟩
  rw [hb.mpr hall] at hcall
  exact ⟨hv, hw, hvw, hback hvw, hcall⟩

end SmallLisp
