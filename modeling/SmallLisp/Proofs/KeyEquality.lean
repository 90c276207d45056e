import Mathlib.Data.List.Forall2
import Mathlib.Data.Option.Basic
import SmallLisp.Proofs.TableKeys
import SmallLisp.Proofs.ValueParts

/-! # Equality is an equivalence

Both comparisons of values are transitive, and symmetric on values whose tables have been built by
writing: there no two keys of a table are the same, so tables of one length that agree in one
direction agree in the other. On keys the two differ in truth values only.
-/
namespace SmallLisp

namespace Value

inductive Shape where
  | code (code : KeyCode)
  | items (items : List Value)
  | entries (entries : Entries)
  | failure (message : String) (cause : Option Value)

def shape : Value → Shape
  | .nil => .code .nil
  | .bool b => .code (.bool b)
  | .int n => .code (.int n)
  | .str text => .code (.str text)
  | .symbol name => .code (.symbol name)
  | .keyword name => .code (.keyword name)
  | .list items _ _ => .items items
  | .vector items _ _ => .items items
  | .table entries _ => .entries entries
  | .atom cell => .code (.atom cell)
  | .native id _ _ _ => .code (.native id)
  | .closure id _ _ _ _ _ => .code (.closure id)
  | .error message cause => .failure message cause

/-- The code by which a key counts in the loose comparison. -/
def looseCode : KeyCode → KeyCode
  | .bool b => .int (if b then 1 else 0)
  | code => code

def Shape.Same : Shape → Shape → Prop
  | .code c, .code d => c = d
  | .items vs, .items ws => List.Forall₂ (fun v w => same v w = true) vs ws
  | .entries es, .entries fs =>
    List.Forall₂ (fun e f => same e.1 f.1 = true ∧ same e.2 f.2 = true) es fs
  | .failure s c, .failure t d => s = t ∧ Option.Rel (fun v w => loose v w = true) c d
  | _, _ => False

def Shape.Loose : Shape → Shape → Prop
  | .code c, .code d => looseCode c = looseCode d
  | .items vs, .items ws => List.Forall₂ (fun v w => loose v w = true) vs ws
  | .entries es, .entries fs => es.length = fs.length ∧
    ∀ e ∈ es, ∃ f ∈ fs, same e.1 f.1 = true ∧ loose e.2 f.2 = true
  | .failure s c, .failure t d => s = t ∧ Option.Rel (fun v w => loose v w = true) c d
  | _, _ => False

theorem sameAll_iff {vs ws : List Value} :
    sameAll vs ws = true ↔ List.Forall₂ (fun v w => same v w = true) vs ws := by
  induction vs generalizing ws with
  | nil => cases ws <;> simp [sameAll]
  | cons v vs ih =>
    cases ws with
    | nil => simp [sameAll]
    | cons w ws => simp [sameAll, ih]

theorem sameEntries_iff {es fs : Entries} : sameEntries es fs = true ↔
    List.Forall₂ (fun e f => same e.1 f.1 = true ∧ same e.2 f.2 = true) es fs := by
  induction es generalizing fs with
  | nil => cases fs <;> simp [sameEntries]
  | cons e es ih =>
    cases fs with
    | nil => simp [sameEntries]
    | cons f fs => simp [sameEntries, ih]

theorem looseAll_iff {vs ws : List Value} :
    looseAll vs ws = true ↔ List.Forall₂ (fun v w => loose v w = true) vs ws := by
  induction vs generalizing ws with
  | nil => cases ws <;> simp [looseAll]
  | cons v vs ih =>
    cases ws with
    | nil => simp [looseAll]
    | cons w ws => simp [looseAll, ih]

theorem looseWithin_iff {es fs : Entries} : looseWithin es fs = true ↔
    ∀ e ∈ es, ∃ f ∈ fs, same e.1 f.1 = true ∧ loose e.2 f.2 = true := by
  induction es with
  | nil => simp [looseWithin]
  | cons e es ih =>
    rw [looseWithin, Bool.and_eq_true, ih, List.forall_mem_cons]
    simp only [List.any_eq_true, Bool.and_eq_true]

theorem looseCause_iff {c d : Option Value} :
    looseCause c d = true ↔ Option.Rel (fun v w => loose v w = true) c d := by
  cases c <;> cases d <;> simp [looseCause]

theorem same_iff {v w : Value} : same v w = true ↔ v.shape.Same w.shape := by
  cases v <;> cases w <;>
    simp [same, shape, Shape.Same, sameAll_iff, sameEntries_iff, looseCause_iff]

theorem loose_iff {v w : Value} : loose v w = true ↔ v.shape.Loose w.shape := by
  cases v <;> cases w <;>
    simp [loose, looseInt?, looseCode, shape, Shape.Loose, looseAll_iff, looseWithin_iff,
      looseCause_iff]
  -- what is left are numbers, which the loose comparison looks at from the other side
  all_goals exact eq_comm

def Shape.parts : Shape → List Value
  | .code _ => []
  | .items vs => vs
  | .entries es => Entries.keys es ++ Entries.values es
  | .failure _ cause => cause.toList

theorem mem_parts_of_shape {v u : Value} (h : u ∈ v.shape.parts) : u ∈ v.parts := by
  cases v with
  | list => exact List.mem_cons_of_mem _ h
  | vector => exact List.mem_cons_of_mem _ h
  | table => exact List.mem_cons_of_mem _ h
  | error => exact h
  | _ => cases h

theorem Shape.mem_parts {es : Entries} {e : Value × Value} (h : e ∈ es) :
    e.1 ∈ (Shape.entries es).parts ∧ e.2 ∈ (Shape.entries es).parts :=
  ⟨List.mem_append_left _ (List.mem_map_of_mem h), List.mem_append_right _ (List.mem_map_of_mem h)⟩

theorem sizeOf_lt_of_mem_entries {entries : Entries} {u : Value}
    (h : u ∈ Entries.keys entries ++ Entries.values entries) : sizeOf u < sizeOf entries := by
  rw [List.mem_append, Entries.keys, Entries.values, List.mem_map, List.mem_map] at h
  rcases h with ⟨⟨key, value⟩, he, rfl⟩ | ⟨⟨key, value⟩, he, rfl⟩
  all_goals
    have hsize := List.sizeOf_lt_of_mem he
    simp only [Prod.mk.sizeOf_spec] at hsize ⊢
    omega

theorem sizeOf_lt_of_mem_parts {v u : Value} (h : u ∈ v.parts) : sizeOf u < sizeOf v := by
  cases v with
  | list items metadata identity =>
    rw [list.sizeOf_spec]
    rcases List.mem_cons.mp h with rfl | hu
    · omega
    · have := List.sizeOf_lt_of_mem hu
      omega
  | vector items metadata identity =>
    rw [vector.sizeOf_spec]
    rcases List.mem_cons.mp h with rfl | hu
    · omega
    · have := List.sizeOf_lt_of_mem hu
      omega
  | table entries metadata =>
    rw [table.sizeOf_spec]
    rcases List.mem_cons.mp h with rfl | hu
    · omega
    · have := sizeOf_lt_of_mem_entries hu
      omega
  | native id op home metadata =>
    rw [native.sizeOf_spec, List.mem_singleton.mp h]
    omega
  | closure id parameters body scope expands metadata =>
    rw [closure.sizeOf_spec]
    rcases List.mem_cons.mp h with rfl | hu
    · omega
    · rw [List.mem_singleton.mp hu]
      omega
  | error message cause =>
    obtain rfl := Option.mem_toList.mp h
    rw [error.sizeOf_spec, Option.some.sizeOf_spec]
    omega
  | _ => cases h

theorem every_of_forall {p : Value → Prop} (h : ∀ v, p v) (v : Value) : Every p v :=
  .intro (h v) fun u hu =>
    have := sizeOf_lt_of_mem_parts hu
    every_of_forall h u
termination_by sizeOf v

def Continues (v : Value) : Prop :=
  (∀ w u, same v w = true → same w u = true → same v u = true) ∧
    ∀ w u, loose v w = true → loose w u = true → loose v u = true

theorem forall₂_trans {α : Type} {r : α → α → Prop} {xs ys zs : List α}
    (h : ∀ x ∈ xs, ∀ y z, r x y → r y z → r x z) (hxy : List.Forall₂ r xs ys)
    (hyz : List.Forall₂ r ys zs) : List.Forall₂ r xs zs := by
  induction hxy generalizing zs with
  | nil => exact hyz
  | cons hhead _ ih =>
    cases hyz with
    | cons hhead' htail' =>
      refine .cons (h _ List.mem_cons_self _ _ hhead hhead') (ih ?_ htail')
      exact fun x hx => h x (List.mem_cons_of_mem _ hx)

theorem rel_trans {r : Value → Value → Prop} {c d e : Option Value}
    (h : ∀ x ∈ c.toList, ∀ y z, r x y → r y z → r x z) (hcd : Option.Rel r c d)
    (hde : Option.Rel r d e) : Option.Rel r c e := by
  cases hcd with
  | none => exact hde
  | some hxy =>
    cases hde with
    | some hyz => exact .some (h _ (by simp) _ _ hxy hyz)

theorem Shape.Same.trans {a b c : Shape} (h : ∀ u ∈ a.parts, u.Continues) (hab : a.Same b)
    (hbc : b.Same c) : a.Same c := by
  match a, b, c with
  | .code _, .code _, .code _ => exact Eq.trans hab hbc
  | .items _, .items _, .items _ => exact forall₂_trans (fun v hv => (h v hv).1) hab hbc
  | .entries _, .entries _, .entries _ =>
    refine forall₂_trans (fun e he f g hef hfg => ?_) hab hbc
    obtain ⟨hkey, hvalue⟩ := Shape.mem_parts he
    exact ⟨(h _ hkey).1 _ _ hef.1 hfg.1, (h _ hvalue).1 _ _ hef.2 hfg.2⟩
  | .failure _ _, .failure _ _, .failure _ _ =>
    exact ⟨hab.1.trans hbc.1, rel_trans (fun v hv => (h v hv).2) hab.2 hbc.2⟩

theorem Shape.Loose.trans {a b c : Shape} (h : ∀ u ∈ a.parts, u.Continues) (hab : a.Loose b)
    (hbc : b.Loose c) : a.Loose c := by
  match a, b, c with
  | .code _, .code _, .code _ => exact Eq.trans hab hbc
  | .items _, .items _, .items _ => exact forall₂_trans (fun v hv => (h v hv).2) hab hbc
  | .entries _, .entries _, .entries _ =>
    refine ⟨hab.1.trans hbc.1, fun e he => ?_⟩
    obtain ⟨hkey, hvalue⟩ := Shape.mem_parts he
    obtain ⟨f, hf, hkeys, hvalues⟩ := hab.2 e he
    obtain ⟨g, hg, hkeys', hvalues'⟩ := hbc.2 f hf
    exact ⟨g, hg, (h _ hkey).1 _ _ hkeys hkeys', (h _ hvalue).2 _ _ hvalues hvalues'⟩
  | .failure _ _, .failure _ _, .failure _ _ =>
    exact ⟨hab.1.trans hbc.1, rel_trans (fun v hv => (h v hv).2) hab.2 hbc.2⟩

theorem continues (v : Value) : v.Continues := by
  induction every_of_forall (p := fun _ => True) (fun _ => trivial) v with
  | @intro v _ _ ih =>
    have hparts : ∀ u ∈ v.shape.parts, u.Continues := fun u hu => ih u (mem_parts_of_shape hu)
    refine ⟨fun w u hvw hwu => ?_, fun w u hvw hwu => ?_⟩
    · rw [same_iff] at *
      exact hvw.trans hparts hwu
    · rw [loose_iff] at *
      exact hvw.trans hparts hwu

theorem same_trans {v w u : Value} (hvw : same v w = true) (hwu : same w u = true) :
    same v u = true :=
  v.continues.1 w u hvw hwu

def KeyedTable : Value → Prop
  | .table entries _ => Entries.Keyed entries
  | _ => True

/-- All tables in the value have been built by writing. -/
def Built (v : Value) : Prop := v.Every KeyedTable

def Reverses (v : Value) : Prop :=
  (∀ w, same v w = true → same w v = true) ∧ ∀ w, loose v w = true → loose w v = true

theorem forall₂_symm {α : Type} {r : α → α → Prop} {xs ys : List α}
    (h : ∀ x ∈ xs, ∀ y, r x y → r y x) (hxy : List.Forall₂ r xs ys) : List.Forall₂ r ys xs := by
  induction hxy with
  | nil => exact .nil
  | cons hhead _ ih =>
    exact .cons (h _ List.mem_cons_self _ hhead) (ih fun x hx => h x (List.mem_cons_of_mem _ hx))

theorem rel_symm {r : Value → Value → Prop} {c d : Option Value}
    (h : ∀ x ∈ c.toList, ∀ y, r x y → r y x) (hcd : Option.Rel r c d) : Option.Rel r d c := by
  cases hcd with
  | none => exact .none
  | some hxy => exact .some (h _ (by simp) _ hxy)

/-- If everything in one list has a partner in another one of the same length, and no two have the
same partner, then nothing in the other list is left without one. -/
theorem exists_partner {α : Type} {r : α → α → Prop} {xs ys : List α}
    (hlength : xs.length = ys.length) (hpartner : ∀ x ∈ xs, ∃ y ∈ ys, r x y)
    (hdistinct : xs.Pairwise fun x x' => ∀ y, r x y → ¬ r x' y) :
    ∀ y ∈ ys, ∃ x ∈ xs, r x y := by
  induction xs generalizing ys with
  | nil =>
    rw [List.length_nil, eq_comm, List.length_eq_zero_iff] at hlength
    simp [hlength]
  | cons x xs ih =>
    obtain ⟨hx, hrest⟩ := List.pairwise_cons.mp hdistinct
    obtain ⟨⟨y, hy, hxy⟩, hothers⟩ := List.forall_mem_cons.mp hpartner
    obtain ⟨before, after, rfl⟩ := List.append_of_mem hy
    have hsmaller : xs.length = (before ++ after).length := by
      simp only [List.length_cons, List.length_append] at hlength ⊢
      omega
    -- the partner of the first is the partner of no other
    have hleft : ∀ x' ∈ xs, ∃ y' ∈ before ++ after, r x' y' := by
      intro x' hx'
      obtain ⟨y', hy', hr⟩ := hothers x' hx'
      refine ⟨y', ?_, hr⟩
      have hne : y' ≠ y := by
        rintro rfl
        exact hx x' hx' y' hxy hr
      simpa [hne] using hy'
    intro z hz
    by_cases hzy : z = y
    · exact ⟨x, List.mem_cons_self, hzy ▸ hxy⟩
    · have hz' : z ∈ before ++ after := by simpa [hzy] using hz
      obtain ⟨x', hx', hr⟩ := ih hsmaller hleft hrest z hz'
      exact ⟨x', List.mem_cons_of_mem _ hx', hr⟩

theorem Shape.Same.symm {a b : Shape} (h : ∀ u ∈ a.parts, u.Reverses) (hab : a.Same b) :
    b.Same a := by
  match a, b with
  | .code _, .code _ => exact Eq.symm hab
  | .items _, .items _ => exact forall₂_symm (fun v hv => (h v hv).1) hab
  | .entries _, .entries _ =>
    refine forall₂_symm (fun e he f hef => ?_) hab
    obtain ⟨hkey, hvalue⟩ := Shape.mem_parts he
    exact ⟨(h _ hkey).1 _ hef.1, (h _ hvalue).1 _ hef.2⟩
  | .failure _ _, .failure _ _ => exact ⟨hab.1.symm, rel_symm (fun v hv => (h v hv).2) hab.2⟩

theorem Shape.Loose.symm {a b : Shape} (h : ∀ u ∈ a.parts, u.Reverses)
    (hkeyed : ∀ es, a = .entries es → Entries.Keyed es) (hab : a.Loose b) : b.Loose a := by
  match a, b with
  | .code _, .code _ => exact Eq.symm hab
  | .items _, .items _ => exact forall₂_symm (fun v hv => (h v hv).2) hab
  | .entries es, .entries fs =>
    refine ⟨hab.1.symm, fun f hf => ?_⟩
    -- two entries with one partner would have the same key
    have hdistinct : es.Pairwise fun e e' => ∀ f : Value × Value,
        same e.1 f.1 = true ∧ loose e.2 f.2 = true →
        ¬ (same e'.1 f.1 = true ∧ loose e'.2 f.2 = true) := by
      refine (hkeyed es rfl).distinct.imp_of_mem fun {e e'} he _ hne f hef hef' => ?_
      have hback := (h _ (Shape.mem_parts he).1).1 _ hef.1
      rw [same_trans hef'.1 hback] at hne
      cases hne
    obtain ⟨e, he, hkeys, hvalues⟩ := exists_partner hab.1 hab.2 hdistinct f hf
    obtain ⟨hkey, hvalue⟩ := Shape.mem_parts he
    exact ⟨e, he, (h _ hkey).1 _ hkeys, (h _ hvalue).2 _ hvalues⟩
  | .failure _ _, .failure _ _ => exact ⟨hab.1.symm, rel_symm (fun v hv => (h v hv).2) hab.2⟩

theorem Built.reverses {v : Value} (h : v.Built) : v.Reverses := by
  induction h with
  | @intro v hroot _ ih =>
    have hparts : ∀ u ∈ v.shape.parts, u.Reverses := fun u hu => ih u (mem_parts_of_shape hu)
    have hkeyed : ∀ es, v.shape = .entries es → Entries.Keyed es := by
      intro es hes
      cases v with
      | table entries metadata =>
        cases hes
        exact hroot
      | _ => cases hes
    refine ⟨fun w hvw => ?_, fun w hvw => ?_⟩
    · rw [same_iff] at *
      exact hvw.symm hparts
    · rw [loose_iff] at *
      exact hvw.symm hparts hkeyed

theorem Built.same_comm {v w : Value} (hv : v.Built) (hw : w.Built) : same v w = same w v :=
  Bool.eq_iff_iff.mpr ⟨hv.reverses.1 w, hw.reverses.1 v⟩

def isTruthValue : Value → Bool
  | .bool _ => true
  | _ => false

/-- Keys are the same if they agree loosely and both or none of them is a truth value. So the loose
comparison tells keys apart once truth values are marked. -/
theorem same_eq_loose {v w : Value} (hv : v.isKey = true) (hw : w.isKey = true) :
    same v w = (v.isTruthValue == w.isTruthValue && loose v w) := by
  cases v <;> cases hv <;> cases w <;> cases hw <;> simp [same, loose, looseInt?, isTruthValue]
  case bool.refl.bool.refl b c => cases b <;> cases c <;> decide
  case int.refl.int.refl m n => exact eq_comm

theorem same_eq_false_of_not_isKey {v w : Value} (hv : v.isKey = false) (hw : w.isKey = true) :
    same v w = false := by
  cases v <;> cases hv <;> cases w <;> cases hw <;> rfl

end Value

end SmallLisp
