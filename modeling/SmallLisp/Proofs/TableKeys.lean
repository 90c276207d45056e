import SmallLisp.Value.Entries.Many

/-! # The keys of tables

Every table is built by writing entries to an empty one, so its keys are usable and no key is the
same as an earlier one. Writing such entries to an empty table again gives them back as they are.
-/
namespace SmallLisp.Entries

/-- What holds of the entries of a table. A key is compared with those before it, as it is when it
is written. -/
structure Keyed (entries : Entries) : Prop where
  usable : ∀ e ∈ entries, e.1.isKey = true
  distinct : entries.Pairwise fun e f => f.1.same e.1 = false

theorem keyed_nil : Keyed [] := ⟨by simp, .nil⟩

theorem Keyed.sublist {es fs : Entries} (h : Keyed fs) (hs : es.Sublist fs) : Keyed es :=
  ⟨fun e he => h.usable e (hs.subset he), h.distinct.sublist hs⟩

/-- Only the keys matter. -/
theorem Keyed.of_keys {es fs : Entries} (h : Keyed fs) (hs : (keys es).Sublist (keys fs)) :
    Keyed es := by
  have hall : ∀ k ∈ keys fs, k.isKey = true := List.forall_mem_map.mpr h.usable
  have hpairwise : (keys fs).Pairwise fun j k => k.same j = false :=
    List.pairwise_map.mpr h.distinct
  exact ⟨fun e he => hall e.1 (hs.subset (List.mem_map_of_mem he)),
    List.pairwise_map.mp (hpairwise.sublist hs)⟩

theorem keys_zip_sublist (ks vs : List Value) : (keys (ks.zip vs)).Sublist ks := by
  induction ks generalizing vs with
  | nil => exact List.Sublist.refl _
  | cons k ks ih =>
    cases vs with
    | nil => exact List.nil_sublist _
    | cons v vs => exact (ih vs).cons_cons k

theorem mem_insert {key value : Value} {es : Entries} {e : Value × Value}
    (he : e ∈ insert key value es) :
    (e.1 = key ∨ ∃ f ∈ es, f.1 = e.1) ∧ (e.2 = value ∨ ∃ f ∈ es, f.2 = e.2) := by
  induction es with
  | nil =>
    simp only [insert, List.mem_singleton] at he
    subst he
    exact ⟨.inl rfl, .inl rfl⟩
  | cons f es ih =>
    simp only [insert] at he
    split at he
    · rcases List.mem_cons.mp he with rfl | he
      · exact ⟨.inr ⟨f, List.mem_cons_self, rfl⟩, .inl rfl⟩
      · exact ⟨.inr ⟨e, List.mem_cons_of_mem f he, rfl⟩, .inr ⟨e, List.mem_cons_of_mem f he, rfl⟩⟩
    · rcases List.mem_cons.mp he with rfl | he
      · exact ⟨.inr ⟨_, List.mem_cons_self, rfl⟩, .inr ⟨_, List.mem_cons_self, rfl⟩⟩
      · obtain ⟨hkey, hvalue⟩ := ih he
        refine ⟨hkey.imp_right ?_, hvalue.imp_right ?_⟩
        · rintro ⟨g, hg, hge⟩
          exact ⟨g, List.mem_cons_of_mem f hg, hge⟩
        · rintro ⟨g, hg, hge⟩
          exact ⟨g, List.mem_cons_of_mem f hg, hge⟩

theorem keyed_insert {key value : Value} {es : Entries} (h : Keyed es)
    (hkey : key.isKey = true) : Keyed (insert key value es) := by
  refine ⟨fun e he => ?_, ?_⟩
  · rcases (mem_insert he).1 with hek | ⟨f, hf, hfe⟩
    · exact hek ▸ hkey
    · exact hfe ▸ h.usable f hf
  · induction es with
    | nil => exact List.pairwise_singleton _ _
    | cons e es ih =>
      have htail := h.sublist (List.sublist_cons_self e es)
      obtain ⟨hhead, hrest⟩ := List.pairwise_cons.mp h.distinct
      simp only [insert, Value.equals_eq_same]
      by_cases hs : key.same e.1 = true
      · rw [if_pos hs]
        exact List.pairwise_cons.mpr ⟨hhead, hrest⟩
      · rw [if_neg hs]
        refine List.pairwise_cons.mpr ⟨fun f hf => ?_, ih htail⟩
        rcases (mem_insert hf).1 with hfk | ⟨g, hg, hgf⟩
        · rw [hfk]
          exact Bool.eq_false_iff.mpr hs
        · rw [← hgf]
          exact hhead g hg

theorem erase_sublist (key : Value) (es : Entries) : (erase key es).Sublist es := by
  induction es with
  | nil => exact List.Sublist.refl _
  | cons e es ih =>
    simp only [erase]
    split
    · exact List.sublist_cons_self e es
    · exact ih.cons_cons e

theorem eraseAll_sublist (keys : List Value) (es : Entries) : (eraseAll keys es).Sublist es := by
  induction keys generalizing es with
  | nil => exact List.Sublist.refl _
  | cons key keys ih =>
    simp only [eraseAll, List.foldl_cons]
    split
    · exact (ih (erase key es)).trans (erase_sublist key es)
    · exact ih es

/-- Writing many pairs keeps the keys in order, and every entry comes from one of the two. -/
theorem keyed_insertAll {es pairs written : Entries} (h : Keyed es)
    (hw : insertAll es pairs = .ok written) : Keyed written := by
  induction pairs generalizing es with
  | nil => exact Except.ok.inj hw ▸ h
  | cons pair pairs ih =>
    obtain ⟨key, value⟩ := pair
    simp only [insertAll] at hw
    split at hw
    · next hkey => exact ih (keyed_insert h hkey) hw
    · cases hw

theorem mem_insertAll {es pairs written : Entries} (hw : insertAll es pairs = .ok written)
    {e : Value × Value} (he : e ∈ written) :
    (∃ f ∈ es ++ pairs, f.1 = e.1) ∧ ∃ f ∈ es ++ pairs, f.2 = e.2 := by
  induction pairs generalizing es with
  | nil =>
    rw [← Except.ok.inj hw] at he
    simp only [List.append_nil]
    exact ⟨⟨e, he, rfl⟩, ⟨e, he, rfl⟩⟩
  | cons pair pairs ih =>
    obtain ⟨key, value⟩ := pair
    simp only [insertAll] at hw
    split at hw
    · obtain ⟨⟨f, hf, hfe⟩, g, hg, hge⟩ := ih hw
      constructor
      · rcases List.mem_append.mp hf with hf | hf
        · rcases (mem_insert hf).1 with hfk | ⟨f', hf', hff⟩
          · exact ⟨(key, value), by simp, hfk ▸ hfe⟩
          · exact ⟨f', List.mem_append_left _ hf', hff.trans hfe⟩
        · exact ⟨f, List.mem_append_right _ (List.mem_cons_of_mem _ hf), hfe⟩
      · rcases List.mem_append.mp hg with hg | hg
        · rcases (mem_insert hg).2 with hgv | ⟨g', hg', hgg⟩
          · exact ⟨(key, value), by simp, hgv ▸ hge⟩
          · exact ⟨g', List.mem_append_left _ hg', hgg.trans hge⟩
        · exact ⟨g, List.mem_append_right _ (List.mem_cons_of_mem _ hg), hge⟩
    · cases hw

theorem insertAll_eq_append {es pairs : Entries} (h : Keyed (es ++ pairs)) :
    insertAll es pairs = .ok (es ++ pairs) := by
  induction pairs generalizing es with
  | nil => simp [insertAll]
  | cons pair pairs ih =>
    obtain ⟨key, value⟩ := pair
    have hkey : key.isKey = true := h.usable (key, value) (by simp)
    have hnew : ∀ e ∈ es, key.same e.1 = false := fun e he =>
      (List.pairwise_append.mp h.distinct).2.2 e he (key, value) List.mem_cons_self
    have hsplit : es ++ (key, value) :: pairs = (es ++ [(key, value)]) ++ pairs := by simp
    rw [insertAll, if_pos hkey, insert_of_forall_same_eq_false value hnew, hsplit]
    exact ih (hsplit ▸ h)

theorem insertAll_nil {es : Entries} (h : Keyed es) : insertAll [] es = .ok es :=
  insertAll_eq_append h

end SmallLisp.Entries
