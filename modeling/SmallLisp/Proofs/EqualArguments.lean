import SmallLisp.Proofs.NormalForms

/-! # Builtins on collections do not tell equal arguments apart

All builtins on collections but `conj` either fail on two lists of arguments that are equal one by
one, or have equal results on them. What is taken from equal values in one way is equal again, and
so is what is built from equal values, at every step of the way.
-/
namespace SmallLisp

/-- Equal values without error values. -/
structure Alike (v w : Value) : Prop where
  left : v.ErrorFree
  right : w.ErrorFree
  forms : v.normalForm = w.normalForm

structure AlikePair (e f : Value × Value) : Prop where
  first : Alike e.1 f.1
  second : Alike e.2 f.2

def Agree {ε α β : Type} (r : α → β → Prop) : Except ε α → Except ε β → Prop
  | .ok a, .ok b => r a b
  | .error _, .error _ => True
  | _, _ => False

variable {v w u x key key' value value' : Value} {vs ws : List Value} {es fs : Entries}

section Agree

variable {ε α β γ δ : Type} {r : α → β → Prop} {s : γ → δ → Prop} {x : Except ε α} {y : Except ε β}

theorem Agree.bind {f : α → Except ε γ} {g : β → Except ε δ} (h : Agree r x y)
    (hf : ∀ a b, r a b → Agree s (f a) (g b)) : Agree s (x >>= f) (y >>= g) := by
  cases x with
  | error e =>
    cases y with
    | error e' => trivial
    | ok b => exact h.elim
  | ok a =>
    cases y with
    | error e' => exact h.elim
    | ok b => exact hf a b h

theorem Agree.mapError {ε' : Type} {f : ε → ε'} (h : Agree r x y) :
    Agree r (x.mapError f) (y.mapError f) := by
  cases x with
  | error e =>
    cases y with
    | error e' => trivial
    | ok b => exact h.elim
  | ok a =>
    cases y with
    | error e' => exact h.elim
    | ok b => exact h

theorem agree_mapM {f : γ → Except ε α} {g : δ → Except ε β} {cs : List γ} {ds : List δ}
    (h : List.Forall₂ s cs ds) (hf : ∀ c d, s c d → Agree r (f c) (g d)) :
    Agree (List.Forall₂ r) (cs.mapM f) (ds.mapM g) := by
  induction h with
  | nil => exact List.Forall₂.nil
  | cons hhead _ ih =>
    rw [List.mapM_cons, List.mapM_cons]
    exact (hf _ _ hhead).bind fun a b hab => ih.bind fun as bs h => List.Forall₂.cons hab h

end Agree

theorem Alike.refl (h : v.ErrorFree) : Alike v v := ⟨h, h, rfl⟩

theorem Alike.equals_eq (hv : Alike v w) (hu : Alike u x) : v.equals u = w.equals x := by
  rw [Bool.eq_iff_iff, hv.left.equals_iff, hv.right.equals_iff, hv.forms, hu.forms]

theorem forall₂_of_mem {α β : Type} {r s : α → β → Prop} {xs : List α} {ys : List β}
    (h : List.Forall₂ r xs ys) (hrs : ∀ x ∈ xs, ∀ y ∈ ys, r x y → s x y) :
    List.Forall₂ s xs ys := by
  refine List.forall₂_iff_zip.mpr ⟨h.length_eq, fun {x y} hxy => ?_⟩
  obtain ⟨hx, hy⟩ := List.of_mem_zip hxy
  exact hrs x hx y hy (List.forall₂_zip h hxy)

theorem map_eq_iff_forall₂ {α β : Type} {f : α → β} {xs ys : List α} :
    xs.map f = ys.map f ↔ List.Forall₂ (fun x y => f x = f y) xs ys :=
  (Value.forall₂_iff_map_eq fun _ _ _ => Iff.rfl).symm

theorem Value.ErrorFree.shape_parts (h : v.ErrorFree) : ∀ u ∈ v.shape.parts, u.ErrorFree :=
  fun u hu => h.inside u (mem_parts_of_shape hu)

/-- Equal values have one code, or their elements or entries are equal one by one. -/
theorem Alike.shapes (h : Alike v w) :
    (∃ c, v.shape = .code c ∧ w.shape = .code c) ∨
    (∃ vs ws, v.shape = .items vs ∧ w.shape = .items ws ∧ List.Forall₂ Alike vs ws) ∨
    ∃ es fs, v.shape = .entries es ∧ w.shape = .entries fs ∧ List.Forall₂ AlikePair es fs := by
  have hforms := h.forms
  have hv := h.left.shape_parts
  have hw := h.right.shape_parts
  have hfailure := Value.shape_ne_failure h.left.root
  rw [Value.normalForm_eq_shape, Value.normalForm_eq_shape] at hforms
  cases hvs : v.shape with
  | failure message cause => exact absurd hvs (hfailure message cause)
  | code c =>
    cases hws : w.shape with
    | code d =>
      rw [hvs, hws] at hforms
      cases hforms
      exact .inl ⟨c, rfl, rfl⟩
    | _ =>
      rw [hvs, hws] at hforms
      cases hforms
  | items vs =>
    cases hws : w.shape with
    | items ws =>
      rw [hvs] at hforms hv
      rw [hws] at hforms hw
      have hall := map_eq_iff_forall₂.mp (NormalForm.items.inj hforms)
      refine .inr (.inl ⟨vs, ws, rfl, rfl, forall₂_of_mem hall fun x hx y hy hxy => ?_⟩)
      exact ⟨hv x hx, hw y hy, hxy⟩
    | _ =>
      rw [hvs, hws] at hforms
      cases hforms
  | entries es =>
    cases hws : w.shape with
    | entries fs =>
      rw [hvs] at hforms hv
      rw [hws] at hforms hw
      have hall := map_eq_iff_forall₂.mp (NormalForm.entries.inj hforms)
      refine .inr (.inr ⟨es, fs, rfl, rfl, forall₂_of_mem hall fun e he f hf hef => ?_⟩)
      obtain ⟨hkeys, hvalues⟩ := Prod.mk.inj hef
      obtain ⟨hkey, hvalue⟩ := Value.Shape.mem_parts he
      obtain ⟨hkey', hvalue'⟩ := Value.Shape.mem_parts hf
      exact ⟨⟨hv _ hkey, hw _ hkey', hkeys⟩, ⟨hv _ hvalue, hw _ hvalue', hvalues⟩⟩
    | _ =>
      rw [hvs, hws] at hforms
      cases hforms

namespace Value.Shape

def elements? : Shape → Option (List Value)
  | .code .nil => some []
  | .items vs => some vs
  | _ => none

def count? : Shape → Option Nat
  | .items vs => some vs.length
  | .entries es => some es.length
  | _ => none

def isVacant : Shape → Bool
  | .code .nil => true
  | .items vs => vs.isEmpty
  | .entries es => es.isEmpty
  | _ => false

def isKey : Shape → Bool
  | .items _ => false
  | .entries _ => false
  | _ => true

def code? : Shape → Option KeyCode
  | .code c => some c
  | _ => none

end Value.Shape

theorem Value.elements?_eq_shape (v : Value) : v.elements? = v.shape.elements? := by
  cases v <;> rfl

theorem elementCount?_eq_shape (v : Value) : elementCount? v = v.shape.count? := by
  cases v <;> rfl

theorem isVacant_eq_shape (v : Value) : isVacant v = v.shape.isVacant := by
  cases v <;> rfl

theorem Value.isKey_eq_shape (v : Value) : v.isKey = v.shape.isKey := by
  cases v <;> rfl

/-- What goes by no more than the number of parts is the same for equal values. -/
theorem Alike.shape_eq {α : Type} (h : Alike v w) (look : Value.Shape → α)
    (hitems : ∀ vs ws, vs.length = ws.length → look (.items vs) = look (.items ws))
    (hentries : ∀ es fs : Entries, es.length = fs.length →
      look (.entries es) = look (.entries fs)) : look v.shape = look w.shape := by
  rcases h.shapes with ⟨c, hv, hw⟩ | ⟨vs, ws, hv, hw, hall⟩ | ⟨es, fs, hv, hw, hall⟩
  · rw [hv, hw]
  · rw [hv, hw]
    exact hitems vs ws hall.length_eq
  · rw [hv, hw]
    exact hentries es fs hall.length_eq

theorem isEmpty_eq_of_length_eq {α : Type} {xs ys : List α} (h : xs.length = ys.length) :
    xs.isEmpty = ys.isEmpty := by
  rw [Bool.eq_iff_iff, List.isEmpty_iff_length_eq_zero, List.isEmpty_iff_length_eq_zero, h]

theorem Alike.count?_eq (h : Alike v w) : elementCount? v = elementCount? w := by
  rw [elementCount?_eq_shape, elementCount?_eq_shape]
  exact h.shape_eq _ (fun _ _ => congrArg some) (fun _ _ => congrArg some)

theorem Alike.isVacant_eq (h : Alike v w) : isVacant v = isVacant w := by
  rw [isVacant_eq_shape, isVacant_eq_shape]
  exact h.shape_eq _ (fun _ _ => isEmpty_eq_of_length_eq) (fun _ _ => isEmpty_eq_of_length_eq)

theorem Alike.isKey_eq (h : Alike v w) : v.isKey = w.isKey := by
  rw [Value.isKey_eq_shape, Value.isKey_eq_shape]
  exact h.shape_eq _ (fun _ _ _ => rfl) (fun _ _ _ => rfl)

theorem Alike.code?_eq (h : Alike v w) : v.shape.code? = w.shape.code? :=
  h.shape_eq _ (fun _ _ _ => rfl) (fun _ _ _ => rfl)

theorem Alike.expectElements (h : Alike v w) (function : String) :
    Agree (List.Forall₂ Alike) (expectElements function v) (expectElements function w) := by
  unfold SmallLisp.expectElements
  rw [Value.elements?_eq_shape, Value.elements?_eq_shape]
  rcases h.shapes with ⟨c, hv, hw⟩ | ⟨vs, ws, hv, hw, hall⟩ | ⟨es, fs, hv, hw, _⟩
  · rw [hv, hw]
    cases c with
    | nil => exact List.Forall₂.nil
    | _ => trivial
  · rw [hv, hw]
    exact hall
  · rw [hv, hw]
    trivial

theorem Value.ErrorFree.exists_table (h : v.ErrorFree) (hv : v.shape = .entries es) :
    ∃ metadata, v = .table es metadata ∧ metadata.ErrorFree := by
  cases v with
  | table entries metadata =>
    cases hv
    exact ⟨metadata, rfl, (every_table.mp h).2.1⟩
  | _ => cases hv

theorem exists_fault_expectTable (hv : ∀ es, v.shape ≠ .entries es) (function : String) :
    ∃ fault, expectTable function v = .error fault := by
  cases v with
  | table entries metadata => exact absurd rfl (hv entries)
  | _ => exact ⟨_, rfl⟩

structure AlikeTables (r s : Entries × Value) : Prop where
  entries : List.Forall₂ AlikePair r.1 s.1
  left : r.2.ErrorFree
  right : s.2.ErrorFree

theorem Alike.expectTable (h : Alike v w) (function : String) :
    Agree AlikeTables (expectTable function v) (expectTable function w) := by
  have hfaults : (∀ es, v.shape ≠ .entries es) → (∀ es, w.shape ≠ .entries es) →
      Agree AlikeTables (SmallLisp.expectTable function v) (SmallLisp.expectTable function w) := by
    intro hv hw
    obtain ⟨fault, hfault⟩ := exists_fault_expectTable hv function
    obtain ⟨fault', hfault'⟩ := exists_fault_expectTable hw function
    rw [hfault, hfault']
    trivial
  rcases h.shapes with ⟨c, hv, hw⟩ | ⟨vs, ws, hv, hw, _⟩ | ⟨es, fs, hv, hw, hall⟩
  · exact hfaults (by rw [hv]; nofun) (by rw [hw]; nofun)
  · exact hfaults (by rw [hv]; nofun) (by rw [hw]; nofun)
  · obtain ⟨metadata, rfl, hm⟩ := h.left.exists_table hv
    obtain ⟨metadata', rfl, hm'⟩ := h.right.exists_table hw
    exact ⟨hall, hm, hm'⟩

/-! ## What is built from equal values is equal -/

theorem errorFree_nil : Value.nil.ErrorFree := Value.every_of_parts_nil rfl rfl

theorem forall_left_of_forall₂ {α β : Type} {r : α → β → Prop} {p : α → Prop} {xs : List α}
    {ys : List β} (h : List.Forall₂ r xs ys) (hp : ∀ x y, r x y → p x) : ∀ x ∈ xs, p x :=
  ((List.forall₂_and_left _ _).mp (h.imp fun x y hxy => ⟨hp x y hxy, hxy⟩)).1

theorem forall_left_of_alike (h : List.Forall₂ Alike vs ws) : ∀ v ∈ vs, v.ErrorFree :=
  forall_left_of_forall₂ h fun _ _ hvw => hvw.left

theorem forall_right_of_alike (h : List.Forall₂ Alike vs ws) : ∀ w ∈ ws, w.ErrorFree :=
  forall_left_of_forall₂ h.flip fun _ _ hvw => hvw.right

theorem alike_of_items (hv : v.shape = .items vs) (hw : w.shape = .items ws)
    (hleft : v.ErrorFree) (hright : w.ErrorFree) (h : List.Forall₂ Alike vs ws) : Alike v w := by
  refine ⟨hleft, hright, ?_⟩
  rw [Value.normalForm_eq_shape, Value.normalForm_eq_shape, hv, hw]
  exact congrArg NormalForm.items (map_eq_iff_forall₂.mpr (h.imp fun _ _ hvw => hvw.forms))

theorem alike_ofList (h : List.Forall₂ Alike vs ws) : Alike (.ofList vs) (.ofList ws) :=
  alike_of_items rfl rfl
    (Value.every_list.mpr ⟨rfl, errorFree_nil, forall_left_of_alike h⟩)
    (Value.every_list.mpr ⟨rfl, errorFree_nil, forall_right_of_alike h⟩) h

theorem alike_ofVector (h : List.Forall₂ Alike vs ws) : Alike (.ofVector vs) (.ofVector ws) :=
  alike_of_items rfl rfl
    (Value.every_vector.mpr ⟨rfl, errorFree_nil, forall_left_of_alike h⟩)
    (Value.every_vector.mpr ⟨rfl, errorFree_nil, forall_right_of_alike h⟩) h

theorem alike_table {metadata metadata' : Value} (hm : metadata.ErrorFree)
    (hm' : metadata'.ErrorFree) (h : List.Forall₂ AlikePair es fs) :
    Alike (.table es metadata) (.table fs metadata') := by
  have hleft := forall_left_of_forall₂ h fun _ _ hef =>
    And.intro hef.first.left hef.second.left
  have hright := forall_left_of_forall₂ h.flip fun _ _ hef =>
    And.intro hef.first.right hef.second.right
  refine ⟨Value.every_table.mpr ⟨rfl, hm, hleft⟩, Value.every_table.mpr ⟨rfl, hm', hright⟩, ?_⟩
  rw [Value.normalForm_eq_shape, Value.normalForm_eq_shape]
  refine congrArg NormalForm.entries (map_eq_iff_forall₂.mpr (h.imp fun _ _ hef => ?_))
  rw [hef.first.forms, hef.second.forms]

theorem alike_bool (b : Bool) : Alike (.bool b) (.bool b) :=
  .refl (Value.every_of_parts_nil rfl rfl)

theorem alike_int (n : Int) : Alike (.int n) (.int n) :=
  .refl (Value.every_of_parts_nil rfl rfl)

theorem alike_str (text : String) : Alike (.str text) (.str text) :=
  .refl (Value.every_of_parts_nil rfl rfl)

theorem alike_getD {a b : Option Value} (h : Option.Rel Alike a b) :
    Alike (a.getD .nil) (b.getD .nil) := by
  cases h with
  | some hab => exact hab
  | none => exact .refl errorFree_nil

namespace Entries

theorem find?_alike (hkey : Alike key key') (h : List.Forall₂ AlikePair es fs) :
    Option.Rel Alike (find? key es) (find? key' fs) := by
  induction h with
  | nil => exact .none
  | cons hef _ ih =>
    rw [find?, find?, hkey.equals_eq hef.first]
    split
    · exact .some hef.second
    · exact ih

theorem insert_alike (hkey : Alike key key') (hvalue : Alike value value')
    (h : List.Forall₂ AlikePair es fs) :
    List.Forall₂ AlikePair (insert key value es) (insert key' value' fs) := by
  induction h with
  | nil => exact .cons ⟨hkey, hvalue⟩ .nil
  | cons hef hrest ih =>
    rw [insert, insert, hkey.equals_eq hef.first]
    split
    · exact .cons ⟨hef.first, hvalue⟩ hrest
    · exact .cons hef ih

theorem erase_alike (hkey : Alike key key') (h : List.Forall₂ AlikePair es fs) :
    List.Forall₂ AlikePair (erase key es) (erase key' fs) := by
  induction h with
  | nil => exact .nil
  | cons hef hrest ih =>
    rw [erase, erase, hkey.equals_eq hef.first]
    split
    · exact hrest
    · exact .cons hef ih

theorem eraseAll_alike (hkeys : List.Forall₂ Alike vs ws) (h : List.Forall₂ AlikePair es fs) :
    List.Forall₂ AlikePair (eraseAll vs es) (eraseAll ws fs) := by
  induction hkeys generalizing es fs with
  | nil => exact h
  | cons hkey _ ih =>
    simp only [eraseAll, List.foldl_cons, hkey.isKey_eq]
    split
    · exact ih (erase_alike hkey h)
    · exact ih h

theorem insertAll_alike {pairs pairs' : List (Value × Value)}
    (hpairs : List.Forall₂ AlikePair pairs pairs') (h : List.Forall₂ AlikePair es fs) :
    Agree (List.Forall₂ AlikePair) (insertAll es pairs) (insertAll fs pairs') := by
  induction hpairs generalizing es fs with
  | nil => exact h
  | cons hpair _ ih =>
    rw [insertAll, insertAll, hpair.first.isKey_eq]
    split
    · exact ih (insert_alike hpair.first hpair.second h)
    · trivial

theorem lookup?_alike (hkey : Alike key key') (h : List.Forall₂ AlikePair es fs) :
    Option.Rel Alike (lookup? key es) (lookup? key' fs) := by
  rw [lookup?, lookup?, hkey.isKey_eq]
  split
  · exact find?_alike hkey h
  · exact .none

theorem pairUp_alike (h : List.Forall₂ Alike vs ws) :
    List.Forall₂ AlikePair (pairUp vs) (pairUp ws) := by
  induction vs using pairUp.induct generalizing ws with
  | case1 key value rest ih =>
    obtain ⟨key', others, hkey, hothers, rfl⟩ := List.forall₂_cons_left_iff.mp h
    obtain ⟨value', rest', hvalue, hrest, rfl⟩ := List.forall₂_cons_left_iff.mp hothers
    exact .cons ⟨hkey, hvalue⟩ (ih hrest)
  | case2 vs hshort =>
    cases h with
    | nil => exact .nil
    | cons _ hrest =>
      cases hrest with
      | nil => exact .nil
      | cons _ _ => exact absurd rfl (hshort _ _ _)

theorem insertFlat_alike (hflat : List.Forall₂ Alike vs ws) (h : List.Forall₂ AlikePair es fs) :
    Agree (List.Forall₂ AlikePair) (insertFlat es vs) (insertFlat fs ws) := by
  rw [insertFlat, insertFlat, hflat.length_eq]
  split
  · rw [writeEntries, writeEntries, insertMany_eq_insertAll, insertMany_eq_insertAll]
    exact (insertAll_alike (pairUp_alike hflat) h).mapError
  · trivial

end Entries

theorem alike_listOrNil (h : List.Forall₂ Alike vs ws) : Alike (listOrNil vs) (listOrNil ws) := by
  rw [listOrNil, listOrNil, isEmpty_eq_of_length_eq h.length_eq]
  split
  · exact .refl errorFree_nil
  · exact alike_ofList h

theorem isSome_eq_of_rel {α β : Type} {r : α → β → Prop} {a : Option α} {b : Option β}
    (h : Option.Rel r a b) : a.isSome = b.isSome := by
  cases h with
  | some _ => rfl
  | none => rfl

theorem forall₂_flatten {α β : Type} {r : α → β → Prop} {xss : List (List α)} {yss : List (List β)}
    (h : List.Forall₂ (List.Forall₂ r) xss yss) : List.Forall₂ r xss.flatten yss.flatten := by
  induction h with
  | nil => exact .nil
  | cons hhead _ ih => exact List.rel_append hhead ih

theorem getElem?_alike (h : List.Forall₂ Alike vs ws) (i : Nat) :
    (∃ v w, vs[i]? = some v ∧ ws[i]? = some w ∧ Alike v w) ∨ vs[i]? = none ∧ ws[i]? = none := by
  by_cases hi : i < vs.length
  · have hi' : i < ws.length := by rwa [← h.length_eq]
    refine .inl ⟨vs[i], ws[i], List.getElem?_eq_getElem hi, List.getElem?_eq_getElem hi', ?_⟩
    exact h.get hi hi'
  · have hi' : ¬ i < ws.length := by rwa [← h.length_eq]
    exact .inr ⟨List.getElem?_eq_none (by omega), List.getElem?_eq_none (by omega)⟩

theorem allSame_alike (h : List.Forall₂ Alike vs ws) : allSame vs = allSame ws := by
  induction vs using allSame.induct generalizing ws with
  | case1 v u rest ih =>
    obtain ⟨w, others, hv, hothers, rfl⟩ := List.forall₂_cons_left_iff.mp h
    obtain ⟨x, rest', hu, hrest, rfl⟩ := List.forall₂_cons_left_iff.mp hothers
    rw [allSame, allSame, hv.equals_eq hu, ih hothers]
  | case2 vs hshort =>
    cases h with
    | nil => rfl
    | cons _ hrest =>
      cases hrest with
      | nil => rfl
      | cons _ _ => exact absurd rfl (hshort _ _ _)

/-! ## Builtins -/

theorem onlyArgument_alike (function : String) (h : List.Forall₂ Alike vs ws) :
    Agree Alike (onlyArgument function vs) (onlyArgument function ws) := by
  match h with
  | .nil => trivial
  | .cons hvw .nil => exact hvw
  | .cons _ (.cons _ _) => trivial

theorem twoArguments_alike (function : String) (h : List.Forall₂ Alike vs ws) :
    Agree AlikePair (twoArguments function vs) (twoArguments function ws) := by
  match h with
  | .nil => trivial
  | .cons _ .nil => trivial
  | .cons hfirst (.cons hsecond .nil) => exact ⟨hfirst, hsecond⟩
  | .cons _ (.cons _ (.cons _ _)) => trivial

namespace CollectionOp

-- Equal values may be a list and a vector, but of no other two kinds, and these builtins treat
-- lists and vectors alike.
theorem elementAt_eq_code (items : List Value) (index : Value) :
    elementAt items index = match index.shape.code? with
      | some (.int n) => elementAt items (.int n)
      | _ => .error (.kind .indexNotNumber) := by
  cases index <;> rfl

theorem elementAt_alike (h : List.Forall₂ Alike vs ws) (hindex : Alike v w) :
    Agree Alike (elementAt vs v) (elementAt ws w) := by
  rw [elementAt_eq_code vs, elementAt_eq_code ws, hindex.code?_eq]
  split
  · next n _ =>
    simp only [elementAt]
    split
    · trivial
    · rcases getElem?_alike h n.toNat with ⟨v, w, hv, hw, hvw⟩ | ⟨hv, hw⟩
      · rw [hv, hw]
        exact hvw
      · rw [hv, hw]
        trivial
  · trivial

theorem seq_apply_eq_code (v : Value) :
    seq.apply [v] = match v.shape.code? with
      | some (.str text) => .ok (listOrNil (text.toList.map fun c => .str (String.singleton c)))
      | _ => do return listOrNil (← expectElements seq.name v) := by
  cases v <;> rfl

theorem get_apply_eq_code (v key : Value) :
    get.apply [v, key] = match v.shape.code? with
      | some .nil => .ok .nil
      | _ => do
        let (entries, _) ← expectTable get.name v
        return (entries.lookup? key).getD .nil := by
  cases v <;> rfl

theorem contains_apply_eq_code (v key : Value) :
    contains.apply [v, key] = match v.shape.code? with
      | some .nil => .ok (.bool false)
      | _ => do
        let (entries, _) ← expectTable contains.name v
        return .bool (entries.lookup? key).isSome := by
  cases v <;> rfl

theorem seq_alike (h : Alike v w) : Agree Alike (seq.apply [v]) (seq.apply [w]) := by
  rw [seq_apply_eq_code, seq_apply_eq_code, h.code?_eq]
  split
  · refine alike_listOrNil (List.forall₂_same.mpr fun u hu => ?_)
    obtain ⟨c, _, rfl⟩ := List.mem_map.mp hu
    exact alike_str _
  · exact (h.expectElements _).bind fun items items' hitems => alike_listOrNil hitems

theorem get_alike (h : Alike v w) (hkey : Alike key key') :
    Agree Alike (get.apply [v, key]) (get.apply [w, key']) := by
  rw [get_apply_eq_code, get_apply_eq_code, h.code?_eq]
  split
  · exact .refl errorFree_nil
  · exact (h.expectTable _).bind fun r s hrs =>
      alike_getD (Entries.lookup?_alike hkey hrs.entries)

theorem contains_alike (h : Alike v w) (hkey : Alike key key') :
    Agree Alike (contains.apply [v, key]) (contains.apply [w, key']) := by
  rw [contains_apply_eq_code, contains_apply_eq_code, h.code?_eq]
  split
  · exact alike_bool false
  · refine (h.expectTable _).bind fun r s hrs => ?_
    have hfound := isSome_eq_of_rel (Entries.lookup?_alike hkey hrs.entries)
    dsimp only
    rw [hfound]
    exact alike_bool _

/-- All builtins on collections but `conj` agree on equal arguments. -/
theorem apply_alike {op : CollectionOp} (hop : op ≠ .conj) (h : List.Forall₂ Alike vs ws) :
    Agree Alike (op.apply vs) (op.apply ws) := by
  have honly : ∀ name, Agree Alike (onlyArgument name vs) (onlyArgument name ws) := fun name =>
    onlyArgument_alike name h
  have htwo : ∀ name, Agree AlikePair (twoArguments name vs) (twoArguments name ws) := fun name =>
    twoArguments_alike name h
  cases op with
  | conj => exact absurd rfl hop
  | equal =>
    simp only [apply, allSame_alike h]
    exact alike_bool _
  | isEmpty =>
    refine (honly _).bind fun v w hvw => ?_
    rw [hvw.isVacant_eq]
    exact alike_bool _
  | count =>
    refine (honly _).bind fun v w hvw => ?_
    rw [hvw.count?_eq]
    exact alike_int _
  | list => exact alike_ofList h
  | vector => exact alike_ofVector h
  | vec =>
    refine (honly _).bind fun v w hvw => ?_
    exact (hvw.expectElements _).bind fun items items' hitems => alike_ofVector hitems
  | cons =>
    refine (htwo _).bind fun r s hrs => ?_
    refine (hrs.second.expectElements _).bind fun items items' hitems => ?_
    exact alike_ofList (.cons hrs.first hitems)
  | concat =>
    have hparts := agree_mapM h fun v w hvw => hvw.expectElements concat.name
    exact hparts.bind fun parts parts' hall => alike_ofList (forall₂_flatten hall)
  | nth =>
    refine (htwo _).bind fun r s hrs => ?_
    exact (hrs.first.expectElements _).bind fun items items' hitems =>
      elementAt_alike hitems hrs.second
  | first =>
    refine (honly _).bind fun v w hvw => (hvw.expectElements _).bind fun items items' hitems => ?_
    cases hitems with
    | nil => exact .refl errorFree_nil
    | cons hhead _ => exact hhead
  | rest =>
    refine (honly _).bind fun v w hvw => (hvw.expectElements _).bind fun items items' hitems => ?_
    cases hitems with
    | nil => exact alike_ofList .nil
    | cons _ htail => exact alike_ofList htail
  | seq => exact (honly _).bind fun v w hvw => seq_alike hvw
  | table =>
    exact (Entries.insertFlat_alike h .nil).bind fun es fs hes =>
      alike_table errorFree_nil errorFree_nil hes
  | assoc =>
    cases h with
    | nil => trivial
    | cons htable hflat =>
      refine (htable.expectTable _).bind fun r s hrs => ?_
      exact (Entries.insertFlat_alike hflat hrs.entries).bind fun es fs hes =>
        alike_table hrs.left hrs.right hes
  | dissoc =>
    cases h with
    | nil => trivial
    | cons htable hkeys =>
      refine (htable.expectTable _).bind fun r s hrs => alike_table hrs.left hrs.right ?_
      rw [Entries.eraseMany_eq_eraseAll, Entries.eraseMany_eq_eraseAll]
      exact Entries.eraseAll_alike hkeys hrs.entries
  | get => exact (htwo _).bind fun r s hrs => get_alike hrs.first hrs.second
  | contains => exact (htwo _).bind fun r s hrs => contains_alike hrs.first hrs.second
  | keys =>
    refine (honly _).bind fun v w hvw => (hvw.expectTable _).bind fun r s hrs => ?_
    exact alike_ofList (List.rel_map (fun e f hef => hef.first) hrs.entries)
  | vals =>
    refine (honly _).bind fun v w hvw => (hvw.expectTable _).bind fun r s hrs => ?_
    exact alike_ofList (List.rel_map (fun e f hef => hef.second) hrs.entries)

end CollectionOp

theorem Value.ErrorFree.identified (h : v.ErrorFree) (identity : Identity) :
    (v.identified identity).ErrorFree := by
  cases v with
  | list items metadata => exact every_list.mpr (every_list.mp h)
  | vector items metadata => exact every_vector.mpr (every_vector.mp h)
  | _ => exact h

theorem Value.normalForm_identified (v : Value) (identity : Identity) :
    (v.identified identity).normalForm = v.normalForm := by
  cases v <;> rfl

theorem Alike.identified (h : Alike v w) (identity identity' : Identity) :
    Alike (v.identified identity) (w.identified identity') := by
  refine ⟨h.left.identified identity, h.right.identified identity', ?_⟩
  rw [Value.normalForm_identified, Value.normalForm_identified, h.forms]

def AgreeEnds (result result' : EStateM.Result Failure Store Value) : Prop :=
  (Fails result ∧ Fails result') ∨
  ∃ v w store store', result = .ok v store ∧ result' = .ok w store' ∧
    v.ErrorFree ∧ w.ErrorFree ∧ v.equals w = true

theorem Alike.agreeEnds (h : Alike v w) (store store' : Store) :
    AgreeEnds (.ok v store) (.ok w store') :=
  .inr ⟨v, w, store, store', rfl, rfl, h.left, h.right, h.left.equals_iff.mpr h.forms⟩

theorem fails_errorOf (fault : Fault) (store : Store) : Fails (EvalM.errorOf fault store) := by
  have hstops := (errorOf_ends fault store).2
  intro v store' hv
  rw [hv] at hstops
  exact hstops

theorem CollectionOp.ending_agree {op : CollectionOp} (hop : op ≠ .conj)
    (h : List.Forall₂ Alike vs ws) (store store' : Store) :
    AgreeEnds (op.ending vs store) (op.ending ws store') := by
  have hagree := apply_alike hop h
  unfold CollectionOp.ending
  cases hvs : op.apply vs with
  | error fault =>
    cases hws : op.apply ws with
    | error fault' => exact .inl ⟨fails_errorOf fault store, fails_errorOf fault' store'⟩
    | ok w =>
      rw [hvs, hws] at hagree
      exact hagree.elim
  | ok v =>
    cases hws : op.apply ws with
    | error fault =>
      rw [hvs, hws] at hagree
      exact hagree.elim
    | ok w =>
      rw [hvs, hws] at hagree
      have halike : Alike v w := hagree
      dsimp only
      split
      · exact halike.agreeEnds store store'
      · rw [EvalM.identify_eq, EvalM.identify_eq]
        exact (halike.identified _ _).agreeEnds _ _

theorem forall₂_alike (hvs : ∀ v ∈ vs, v.ErrorFree) (hws : ∀ w ∈ ws, w.ErrorFree)
    (h : List.Forall₂ (fun v w => v.equals w = true) vs ws) : List.Forall₂ Alike vs ws :=
  forall₂_of_mem h fun v hv w hw hvw => ⟨hvs v hv, hws w hw, (hvs v hv).equals_iff.mp hvw⟩

/-- Two calls of a builtin on collections other than `conj` with arguments that are equal one by
one both fail, or they have equal values. -/
theorem equal_arguments_agree {op : CollectionOp} (hop : op ≠ .conj)
    (hvs : ∀ v ∈ vs, v.ErrorFree) (hws : ∀ w ∈ ws, w.ErrorFree)
    (hequal : List.Forall₂ (fun v w => v.equals w = true) vs ws) (id id' : Identity)
    (home home' : FrameId) (metadata metadata' : Value) (store store' : Store) :
    ∃ result result',
      (Task.call (.native id (.plain (.collection op)) home metadata) vs).Ends store result ∧
      (Task.call (.native id' (.plain (.collection op)) home' metadata') ws).Ends store' result' ∧
      AgreeEnds result result' :=
  ⟨_, _, ends_collection op vs store id home metadata,
    ends_collection op ws store' id' home' metadata',
    CollectionOp.ending_agree hop (forall₂_alike hvs hws hequal) store store'⟩

/-- A list with metadata and a vector in place of it. -/
theorem equal_arguments_agree_kinds :
    let note := Value.str "note"
    let vs := [.int 1, .list [.int 2] note none]
    let ws := [.int 1, .ofVector [.int 2]]
    let store := Store.initial .empty "" 0
    List.Forall₂ (fun v w : Value => v.equals w = true) vs ws ∧ ∃ result result',
      (Task.call (.native 0 (.plain (.collection .cons)) 0 .nil) vs).Ends store result ∧
      (Task.call (.native 0 (.plain (.collection .cons)) 0 .nil) ws).Ends store result' ∧
      AgreeEnds result result' := by
  intro note vs ws store
  have hone : (Value.int 1).ErrorFree := Value.every_of_parts_nil rfl rfl
  have hnote : note.ErrorFree := Value.every_of_parts_nil rfl rfl
  have htwo : ∀ u ∈ [Value.int 2], u.ErrorFree :=
    List.forall_mem_singleton.mpr (Value.every_of_parts_nil rfl rfl)
  have hlist : (Value.list [.int 2] note none).ErrorFree :=
    Value.every_list.mpr ⟨rfl, hnote, htwo⟩
  have hvector : (Value.ofVector [.int 2]).ErrorFree :=
    Value.every_vector.mpr ⟨rfl, errorFree_nil, htwo⟩
  have hvs : ∀ v ∈ vs, v.ErrorFree :=
    List.forall_mem_cons.mpr ⟨hone, List.forall_mem_singleton.mpr hlist⟩
  have hws : ∀ w ∈ ws, w.ErrorFree :=
    List.forall_mem_cons.mpr ⟨hone, List.forall_mem_singleton.mpr hvector⟩
  have hequal : List.Forall₂ (fun v w : Value => v.equals w = true) vs ws :=
    .cons (hone.equals_iff.mpr rfl) (.cons (hlist.equals_iff.mpr rfl) .nil)
  exact ⟨hequal, equal_arguments_agree (by decide) hvs hws hequal 0 0 0 0 .nil .nil store store⟩

/-- Lists and vectors differ by where they grow. -/
example : CollectionOp.conj.apply [.ofList [.int 1], .int 2] = .ok (.ofList [.int 2, .int 1]) ∧
    CollectionOp.conj.apply [.ofVector [.int 1], .int 2] = .ok (.ofVector [.int 1, .int 2]) :=
  ⟨rfl, rfl⟩

end SmallLisp
