import SmallLisp.Builtin.Collection
import SmallLisp.Builtin.KindTest
import SmallLisp.Builtin.Label
import SmallLisp.Builtin.Number
import SmallLisp.Proofs.Reading

/-! # Builtins that only look at their arguments

From valid arguments these builtins make valid values, if they make any.
-/
namespace SmallLisp

/-- A computation whose result, if it has one, has a property. -/
def Gives {ε α : Type} (x : Except ε α) (p : α → Prop) : Prop := ∀ a, x = .ok a → p a

section Rules

variable {ε α β : Type} {p q : α → Prop}

theorem gives_ok {a : α} (h : p a) : Gives (.ok a : Except ε α) p := by
  intro b hb
  cases hb
  exact h

theorem gives_error (e : ε) : Gives (.error e : Except ε α) p := fun _ h => nomatch h

theorem Gives.bind {x : Except ε α} {f : α → Except ε β} {q : β → Prop} (hx : Gives x p)
    (hf : ∀ a, p a → Gives (f a) q) : Gives (x >>= f) q := by
  intro b hb
  cases hr : x with
  | error e =>
    rw [hr] at hb
    cases hb
  | ok a =>
    rw [hr] at hb
    exact hf a (hx a hr) b hb

theorem gives_mapM {f : α → Except ε β} {q : β → Prop} {xs : List α}
    (hf : ∀ a ∈ xs, Gives (f a) q) : Gives (xs.mapM f) fun ys => ∀ b ∈ ys, q b := by
  induction xs with
  | nil => exact gives_ok (List.forall_mem_nil _)
  | cons a xs ih =>
    rw [List.mapM_cons]
    refine (hf a List.mem_cons_self).bind fun b hb => ?_
    refine (ih fun c hc => hf c (List.mem_cons_of_mem a hc)).bind fun ys hys => ?_
    exact gives_ok (List.forall_mem_cons.mpr ⟨hb, hys⟩)

end Rules

variable {home : FrameId} {tolerant : Bool} {layout : Layout home tolerant} {arguments : List Value}

theorem onlyArgument_gives (function : String) (h : ∀ v ∈ arguments, v.Valid layout) :
    Gives (onlyArgument function arguments) (Value.Valid layout) := by
  unfold onlyArgument
  split
  · exact gives_ok (h _ List.mem_cons_self)
  · exact gives_error _

theorem twoArguments_gives (function : String) (h : ∀ v ∈ arguments, v.Valid layout) :
    Gives (twoArguments function arguments) fun r => r.1.Valid layout ∧ r.2.Valid layout := by
  unfold twoArguments
  split
  · obtain ⟨hv, hw⟩ := List.forall_mem_cons.mp h
    exact gives_ok ⟨hv, hw _ List.mem_cons_self⟩
  · exact gives_error _

theorem expectElements_gives (function : String) {v : Value} (h : v.Valid layout) :
    Gives (expectElements function v) fun items => ∀ u ∈ items, u.Valid layout := by
  unfold expectElements
  split
  · next hitems => exact gives_ok (h.elements hitems)
  · exact gives_error _

theorem expectTable_gives (function : String) {v : Value} (h : v.Valid layout) :
    Gives (expectTable function v) fun r => Entries.Keyed r.1 ∧ r.2.Valid layout ∧
      ∀ e ∈ r.1, e.1.Valid layout ∧ e.2.Valid layout := by
  unfold expectTable
  split
  · exact gives_ok (Value.valid_table.mp h)
  · exact gives_error _

theorem insertFlat_gives {entries : Entries} (hkeyed : Entries.Keyed entries)
    (hentries : ∀ e ∈ entries, e.1.Valid layout ∧ e.2.Valid layout)
    (h : ∀ v ∈ arguments, v.Valid layout) :
    Gives (insertFlat entries arguments) fun written => Entries.Keyed written ∧
      ∀ e ∈ written, e.1.Valid layout ∧ e.2.Valid layout := by
  unfold insertFlat
  split
  · intro written hw
    exact writeEntries_forall hkeyed hentries
      (fun e he => ⟨h _ (mem_pairUp he).1, h _ (mem_pairUp he).2⟩) hw
  · exact gives_error _

theorem find_valid {entries : Entries} {key v : Value}
    (h : ∀ e ∈ entries, e.1.Valid layout ∧ e.2.Valid layout)
    (hv : entries.find? key = some v) : v.Valid layout := by
  induction entries with
  | nil => cases hv
  | cons e entries ih =>
    obtain ⟨he, hrest⟩ := List.forall_mem_cons.mp h
    simp only [Entries.find?] at hv
    split at hv
    · cases hv
      exact he.2
    · exact ih hrest hv

theorem lookup_valid {entries : Entries} (key : Value)
    (h : ∀ e ∈ entries, e.1.Valid layout ∧ e.2.Valid layout) :
    ((entries.lookup? key).getD .nil).Valid layout := by
  unfold Entries.lookup?
  split
  · cases hv : entries.find? key with
    | none => exact Value.valid_nil
    | some v => exact find_valid h hv
  · exact Value.valid_nil

theorem KindTest.apply_gives (test : KindTest) (h : ∀ v ∈ arguments, v.Valid layout) :
    Gives (test.apply arguments) (Value.Valid layout) :=
  (onlyArgument_gives _ h).bind fun _ _ => gives_ok (Value.valid_bool _)

theorem NumberOp.onIntegers_gives (op : NumberOp) (ns : List Int) :
    Gives (op.onIntegers ns) (Value.Valid layout) := by
  have hquotient : ∀ x : Except Fault Int, Gives (x.map Value.int) (Value.Valid layout) := by
    intro x
    cases x with
    | error f => exact gives_error f
    | ok n => exact gives_ok (Value.valid_int n)
  cases op with
  | subtract =>
    match ns with
    | [] => exact gives_error _
    | [_] => exact gives_ok (Value.valid_int _)
    | _ :: _ :: _ => exact gives_ok (Value.valid_int _)
  | divide =>
    match ns with
    | [] => exact gives_error _
    | [_] => exact hquotient _
    | _ :: _ :: _ => exact hquotient _
  | add => exact gives_ok (Value.valid_int _)
  | multiply => exact gives_ok (Value.valid_int _)
  | less => exact gives_ok (Value.valid_bool _)
  | lessEqual => exact gives_ok (Value.valid_bool _)
  | greater => exact gives_ok (Value.valid_bool _)
  | greaterEqual => exact gives_ok (Value.valid_bool _)

theorem NumberOp.apply_gives (op : NumberOp) :
    Gives (op.apply arguments) (Value.Valid layout) := by
  unfold NumberOp.apply
  split
  · exact gives_error _
  · split
    · exact op.onIntegers_gives _
    · exact gives_error _

theorem LabelOp.apply_gives (op : LabelOp) (h : ∀ v ∈ arguments, v.Valid layout) :
    Gives (op.apply arguments) (Value.Valid layout) := by
  refine (onlyArgument_gives _ h).bind fun v hv => ?_
  cases op with
  | symbol =>
    dsimp only
    split
    · exact gives_ok (Value.valid_symbol _)
    · exact gives_error _
  | keyword =>
    dsimp only
    split
    · exact gives_ok (Value.valid_keyword _)
    · exact gives_ok (Value.valid_keyword _)
    · exact gives_error _
  | metadata =>
    dsimp only
    split
    · next hm => exact gives_ok (hv.metadata hm)
    · exact gives_error _

theorem listOrNil_valid {items : List Value} (h : ∀ v ∈ items, v.Valid layout) :
    (listOrNil items).Valid layout := by
  unfold listOrNil
  split
  · exact Value.valid_nil
  · exact Value.valid_ofList h

namespace CollectionOp

theorem elementAt_gives {items : List Value} (index : Value)
    (h : ∀ v ∈ items, v.Valid layout) :
    Gives (elementAt items index) (Value.Valid layout) := by
  unfold elementAt
  split
  · split
    · exact gives_error _
    · split
      · next hv => exact gives_ok (h _ (List.mem_of_getElem? hv))
      · exact gives_error _
  · exact gives_error _

theorem conjoin_gives {collection : Value} {items : List Value}
    (hcollection : collection.Valid layout) (hitems : ∀ v ∈ items, v.Valid layout) :
    Gives (conjoin collection items) (Value.Valid layout) := by
  have hreverse : ∀ v ∈ items.reverse, v.Valid layout := fun v hv =>
    hitems v (List.mem_reverse.mp hv)
  unfold conjoin
  split
  · obtain ⟨hmetadata, hold⟩ := Value.valid_vector.mp hcollection
    exact gives_ok (Value.valid_vector.mpr
      ⟨hmetadata, List.forall_mem_append.mpr ⟨hold, hitems⟩⟩)
  · obtain ⟨_, hold⟩ := Value.valid_list.mp hcollection
    exact gives_ok (Value.valid_ofList (List.forall_mem_append.mpr ⟨hreverse, hold⟩))
  · exact gives_ok (Value.valid_ofList hreverse)
  · exact gives_error _

theorem apply_gives (op : CollectionOp) (h : ∀ v ∈ arguments, v.Valid layout) :
    Gives (op.apply arguments) (Value.Valid layout) := by
  have honly : ∀ name, Gives (onlyArgument name arguments) (Value.Valid layout) := fun name =>
    onlyArgument_gives name h
  have helements : ∀ name, ∀ v : Value, v.Valid layout →
      Gives (expectElements name v) fun items => ∀ u ∈ items, u.Valid layout :=
    fun name _ hv => expectElements_gives name hv
  cases op with
  | equal => exact gives_ok (Value.valid_bool _)
  | isEmpty => exact (honly _).bind fun _ _ => gives_ok (Value.valid_bool _)
  | count => exact (honly _).bind fun _ _ => gives_ok (Value.valid_int _)
  | list => exact gives_ok (Value.valid_ofList h)
  | vector => exact gives_ok (Value.valid_ofVector h)
  | vec =>
    exact (honly _).bind fun v hv => (helements _ v hv).bind fun items hitems =>
      gives_ok (Value.valid_ofVector hitems)
  | cons =>
    refine (twoArguments_gives _ h).bind fun r hr => ?_
    refine (helements _ _ hr.2).bind fun items hitems => ?_
    exact gives_ok (Value.valid_ofList (List.forall_mem_cons.mpr ⟨hr.1, hitems⟩))
  | concat =>
    refine (gives_mapM fun v hv => helements _ v (h v hv)).bind fun parts hparts => ?_
    refine gives_ok (Value.valid_ofList fun v hv => ?_)
    obtain ⟨part, hpart, hmem⟩ := List.mem_flatten.mp hv
    exact hparts part hpart v hmem
  | nth =>
    refine (twoArguments_gives _ h).bind fun r hr => ?_
    exact (helements _ _ hr.1).bind fun items hitems => elementAt_gives r.2 hitems
  | first =>
    refine (honly _).bind fun v hv => (helements _ v hv).bind fun items hitems => ?_
    cases items with
    | nil => exact gives_ok Value.valid_nil
    | cons u items => exact gives_ok (hitems u List.mem_cons_self)
  | rest =>
    refine (honly _).bind fun v hv => (helements _ v hv).bind fun items hitems => ?_
    exact gives_ok (Value.valid_ofList fun u hu => hitems u (List.mem_of_mem_tail hu))
  | conj =>
    cases arguments with
    | nil => exact gives_error _
    | cons collection items =>
      obtain ⟨hcollection, hitems⟩ := List.forall_mem_cons.mp h
      exact conjoin_gives hcollection hitems
  | seq =>
    refine (honly _).bind fun v hv => ?_
    split
    · refine gives_ok (listOrNil_valid fun u hu => ?_)
      obtain ⟨c, _, rfl⟩ := List.mem_map.mp hu
      exact Value.valid_str _
    · exact (helements _ _ hv).bind fun items hitems => gives_ok (listOrNil_valid hitems)
  | table =>
    refine (insertFlat_gives Entries.keyed_nil (List.forall_mem_nil _) h).bind fun written hw => ?_
    exact gives_ok (Value.valid_ofEntries hw.1 hw.2)
  | assoc =>
    cases arguments with
    | nil => exact gives_error _
    | cons v flat =>
      obtain ⟨htable, hflat⟩ := List.forall_mem_cons.mp h
      refine (expectTable_gives _ htable).bind fun r hr => ?_
      obtain ⟨hkeyed, hmetadata, hentries⟩ := hr
      refine (insertFlat_gives hkeyed hentries hflat).bind fun written hw => ?_
      exact gives_ok (Value.valid_table.mpr ⟨hw.1, hmetadata, hw.2⟩)
  | dissoc =>
    cases arguments with
    | nil => exact gives_error _
    | cons v unwanted =>
      refine (expectTable_gives _ (h v List.mem_cons_self)).bind fun r hr => ?_
      obtain ⟨hkeyed, hmetadata, hentries⟩ := hr
      have hsub := Entries.eraseAll_sublist unwanted r.1
      refine gives_ok (Value.valid_table.mpr ?_)
      rw [Entries.eraseMany_eq_eraseAll]
      exact ⟨hkeyed.sublist hsub, hmetadata, fun e he => hentries e (hsub.subset he)⟩
  | get =>
    refine (twoArguments_gives _ h).bind fun r hr => ?_
    dsimp only
    split
    · exact gives_ok Value.valid_nil
    · exact (expectTable_gives _ hr.1).bind fun t ht => gives_ok (lookup_valid r.2 ht.2.2)
  | contains =>
    refine (twoArguments_gives _ h).bind fun r hr => ?_
    dsimp only
    split
    · exact gives_ok (Value.valid_bool _)
    · exact (expectTable_gives _ hr.1).bind fun t ht => gives_ok (Value.valid_bool _)
  | keys =>
    refine (honly _).bind fun v hv => (expectTable_gives _ hv).bind fun r hr => ?_
    refine gives_ok (Value.valid_ofList fun u hu => ?_)
    obtain ⟨e, he, rfl⟩ := List.mem_map.mp hu
    exact (hr.2.2 e he).1
  | vals =>
    refine (honly _).bind fun v hv => (expectTable_gives _ hv).bind fun r hr => ?_
    refine gives_ok (Value.valid_ofList fun u hu => ?_)
    obtain ⟨e, he, rfl⟩ := List.mem_map.mp hu
    exact (hr.2.2 e he).2

end CollectionOp

end SmallLisp
