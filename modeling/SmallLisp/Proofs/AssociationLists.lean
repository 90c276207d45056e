import SmallLisp.Proofs.Grammar
import SmallLisp.Proofs.KeyEquality

/-! # Entries are an association list

No two keys of a table are the same, so what is done to the first entry of a key is done to all
its entries: what is written, erased or looked up can be said without regard to the order in which
keys are compared. Writing many pairs may be done by way of a table of their own.
-/
namespace SmallLisp.Entries

variable {entries written : Entries} {pairs : List (Value × Value)} {key value : Value}

def set (key value : Value) (entries : Entries) : Entries :=
  if entries.any fun e => key.same e.1 then
    entries.map fun e => if key.same e.1 then (e.1, value) else e
  else entries ++ [(key, value)]

def without (keys : List Value) (entries : Entries) : Entries :=
  entries.filter fun e => !keys.any fun key => key.same e.1

def valueAt? (key : Value) (entries : Entries) : Option Value :=
  (List.find? (fun e => key.same e.1) entries).map (·.2)

structure BuiltKeys (entries : Entries) : Prop where
  keyed : Keyed entries
  built : ∀ e ∈ entries, e.1.Built

theorem builtKeys_nil : BuiltKeys [] := ⟨keyed_nil, List.forall_mem_nil _⟩

theorem BuiltKeys.sublist (h : BuiltKeys entries) (hs : written.Sublist entries) :
    BuiltKeys written :=
  ⟨h.keyed.sublist hs, fun e he => h.built e (hs.subset he)⟩

theorem BuiltKeys.insert (h : BuiltKeys entries) (hkey : key.isKey = true) (hbuilt : key.Built)
    (value : Value) : BuiltKeys (insert key value entries) := by
  refine ⟨keyed_insert h.keyed hkey, fun e he => ?_⟩
  rcases (mem_insert he).1 with hnew | ⟨f, hf, hold⟩
  · exact hnew ▸ hbuilt
  · exact hold ▸ h.built f hf

theorem BuiltKeys.different (h : BuiltKeys entries) :
    entries.Pairwise fun e f => e.1.same f.1 = false ∧ f.1.same e.1 = false := by
  refine h.keyed.distinct.imp_of_mem fun {e f} he hf hne => ⟨?_, hne⟩
  rw [(h.built e he).same_comm (h.built f hf), hne]

theorem BuiltKeys.same_eq_false {e f : Value × Value} (h : BuiltKeys (e :: entries))
    (hbuilt : key.Built) (he : key.same e.1 = true) (hf : f ∈ entries) :
    key.same f.1 = false := by
  by_contra hsame
  rw [Bool.not_eq_false] at hsame
  have hne := (List.pairwise_cons.mp h.keyed.distinct).1 f hf
  rw [Value.same_trans (hbuilt.reverses.1 _ hsame) he] at hne
  cases hne

theorem BuiltKeys.tail {e : Value × Value} (h : BuiltKeys (e :: entries)) : BuiltKeys entries :=
  h.sublist (List.sublist_cons_self e entries)

theorem set_cons_of_same {e : Value × Value} (he : key.same e.1 = true)
    (hothers : ∀ f ∈ entries, key.same f.1 = false) (value : Value) :
    set key value (e :: entries) = (e.1, value) :: entries := by
  have hmap : (entries.map fun f => if key.same f.1 then (f.1, value) else f) = entries :=
    (List.map_congr_left fun f hf => by rw [hothers f hf]; rfl).trans (List.map_id entries)
  rw [set, List.any_cons, he, Bool.true_or, if_pos rfl, List.map_cons, if_pos he, hmap]

theorem set_cons_of_ne {e : Value × Value} (he : key.same e.1 = false) (value : Value) :
    set key value (e :: entries) = e :: set key value entries := by
  simp only [set, List.any_cons, he, Bool.false_or, List.map_cons, Bool.false_eq_true, if_false]
  split
  · rfl
  · rfl

/-- Only the first entry of a key is written to, and there is no other one. -/
theorem insert_eq_set (h : BuiltKeys entries) (hbuilt : key.Built) (value : Value) :
    insert key value entries = set key value entries := by
  induction entries with
  | nil => rfl
  | cons e entries ih =>
    rw [Entries.insert, Value.equals_eq_same]
    cases he : key.same e.1 with
    | true => rw [if_pos rfl, set_cons_of_same he fun f => h.same_eq_false hbuilt he]
    | false => rw [if_neg Bool.false_ne_true, set_cons_of_ne he, ih h.tail]

theorem erase_eq_without (h : BuiltKeys entries) (hbuilt : key.Built) :
    erase key entries = without [key] entries := by
  induction entries with
  | nil => rfl
  | cons e entries ih =>
    rw [erase, Value.equals_eq_same, without, List.filter_cons]
    simp only [List.any_cons, List.any_nil, Bool.or_false]
    cases he : key.same e.1 with
    | true =>
      have hothers : entries.filter (fun f => !key.same f.1) = entries :=
        List.filter_eq_self.mpr fun f hf => by rw [h.same_eq_false hbuilt he hf]; rfl
      simp [hothers]
    | false =>
      rw [ih h.tail]
      simp [without]

theorem without_without (key : Value) (keys : List Value) (entries : Entries) :
    without keys (without [key] entries) = without (key :: keys) entries := by
  rw [without, without, without, List.filter_filter]
  refine List.filter_congr fun e _ => ?_
  simp [Bool.and_comm]

theorem without_unusable (h : BuiltKeys entries) (hkey : key.isKey = false) :
    without [key] entries = entries := by
  refine List.filter_eq_self.mpr fun e he => ?_
  have hne := Value.same_eq_false_of_not_isKey hkey (h.keyed.usable e he)
  simp [hne]

theorem eraseAll_eq_without {keys : List Value} (h : BuiltKeys entries)
    (hbuilt : ∀ key ∈ keys, key.Built) : eraseAll keys entries = without keys entries := by
  induction keys generalizing entries with
  | nil => simp [eraseAll, without]
  | cons key keys ih =>
    obtain ⟨hkey, hkeys⟩ := List.forall_mem_cons.mp hbuilt
    have hstep : (if key.isKey then erase key entries else entries) = without [key] entries := by
      cases husable : key.isKey with
      | true => exact erase_eq_without h hkey
      | false => exact (without_unusable h husable).symm
    have hsmaller : BuiltKeys (without [key] entries) := h.sublist List.filter_sublist
    have hothers := ih hsmaller hkeys
    rw [without_without] at hothers
    rw [eraseAll, List.foldl_cons, hstep]
    exact hothers

theorem find?_eq_valueAt? (key : Value) (entries : Entries) :
    find? key entries = valueAt? key entries := by
  induction entries with
  | nil => rfl
  | cons e entries ih =>
    rw [find?, Value.equals_eq_same, valueAt?, List.find?_cons]
    cases key.same e.1 with
    | true => rfl
    | false => exact ih

theorem valueAt?_unusable (h : BuiltKeys entries) (hkey : key.isKey = false) :
    valueAt? key entries = none := by
  have hnone : List.find? (fun e => key.same e.1) entries = none := by
    refine List.find?_eq_none.mpr fun e he => ?_
    rw [Value.same_eq_false_of_not_isKey hkey (h.keyed.usable e he)]
    exact Bool.false_ne_true
  rw [valueAt?, hnone]
  rfl

theorem lookup?_eq_valueAt? (h : BuiltKeys entries) (key : Value) :
    lookup? key entries = valueAt? key entries := by
  rw [lookup?]
  cases husable : key.isKey with
  | true => exact find?_eq_valueAt? key entries
  | false => exact (valueAt?_unusable h husable).symm

theorem valueAt?_eq_some_iff (h : BuiltKeys entries) (hbuilt : key.Built) :
    valueAt? key entries = some value ↔ ∃ e ∈ entries, key.same e.1 = true ∧ e.2 = value := by
  induction entries with
  | nil => simp [valueAt?]
  | cons e entries ih =>
    rw [valueAt?, List.find?_cons]
    simp only [List.mem_cons, or_and_right, exists_or, exists_eq_left]
    cases he : key.same e.1 with
    | true =>
      have hothers : ¬ ∃ f ∈ entries, key.same f.1 = true ∧ f.2 = value := by
        rintro ⟨f, hf, hsame, -⟩
        rw [h.same_eq_false hbuilt he hf] at hsame
        cases hsame
      simp [hothers]
    | false =>
      simp only [Bool.false_eq_true, false_and, false_or]
      exact ih h.tail

theorem isSome_valueAt? (key : Value) (entries : Entries) :
    (valueAt? key entries).isSome = entries.any fun e => key.same e.1 := by
  rw [valueAt?, Option.isSome_map, List.isSome_find?]

/-- Nothing is taken out for a key without a value. -/
theorem without_of_none (h : valueAt? key entries = none) : without [key] entries = entries := by
  rw [valueAt?, Option.map_eq_none_iff, List.find?_eq_none] at h
  refine List.filter_eq_self.mpr fun e he => ?_
  simpa using h e he

theorem take_of_valueAt? (h : BuiltKeys entries) (hbuilt : key.Built)
    (hvalue : valueAt? key entries = some value) :
    take key entries = .ok (value, without [key] entries) := by
  have hkey : key.isKey = true := by
    by_contra hunusable
    rw [valueAt?_unusable h (Bool.not_eq_true _ ▸ hunusable)] at hvalue
    cases hvalue
  have hsome : entries.isEmpty = false := by
    cases entries with
    | nil => cases hvalue
    | cons e entries => rfl
  rw [take, hsome, access, if_pos hkey, find?_eq_valueAt?, hvalue, erase_eq_without h hbuilt]
  rfl

theorem take_of_none (hnone : valueAt? key entries = none) :
    take key entries =
      .error (if !entries.isEmpty && !key.isKey then .unusable else .missing) := by
  rw [take, access, find?_eq_valueAt?, hnone]
  cases entries.isEmpty with
  | true => rfl
  | false =>
    cases key.isKey with
    | true => rfl
    | false => rfl

/-- The first of the keys that cannot be one is refused, and then nothing is written. -/
def setAll (pairs : List (Value × Value)) (entries : Entries) : Except Value Entries :=
  match List.find? (fun pair => !pair.1.isKey) pairs with
  | some pair => .error pair.1
  | none => .ok (pairs.foldl (fun entries pair => set pair.1 pair.2 entries) entries)

theorem setAll_cons_of_isKey (hkey : key.isKey = true) :
    setAll ((key, value) :: pairs) entries = setAll pairs (set key value entries) := by
  simp [setAll, hkey]

theorem insertAll_eq_setAll (h : BuiltKeys entries) (hpairs : ∀ pair ∈ pairs, pair.1.Built) :
    insertAll entries pairs = setAll pairs entries := by
  induction pairs generalizing entries with
  | nil => rfl
  | cons pair pairs ih =>
    obtain ⟨key, value⟩ := pair
    obtain ⟨hbuilt, hothers⟩ := List.forall_mem_cons.mp hpairs
    rw [insertAll]
    cases hkey : key.isKey with
    | true =>
      rw [if_pos rfl, ih (h.insert hkey hbuilt value) hothers, insert_eq_set h hbuilt,
        setAll_cons_of_isKey hkey]
    | false => simp [setAll, hkey]

theorem BuiltKeys.insertAll (h : BuiltKeys entries) (hpairs : ∀ pair ∈ pairs, pair.1.Built)
    (hw : insertAll entries pairs = .ok written) : BuiltKeys written := by
  refine ⟨keyed_insertAll h.keyed hw, fun e he => ?_⟩
  obtain ⟨⟨f, hf, hkey⟩, -⟩ := mem_insertAll hw he
  rcases List.mem_append.mp hf with hf | hf
  · exact hkey ▸ h.built f hf
  · exact hkey ▸ hpairs f hf

def insertEach (entries : Entries) (pairs : List (Value × Value)) : Entries :=
  pairs.foldl (fun entries pair => Entries.insert pair.1 pair.2 entries) entries

theorem exists_mem_insert_of_mem {e : Value × Value} (he : e ∈ entries) (key value : Value) :
    ∃ f ∈ insert key value entries, f.1 = e.1 := by
  induction entries with
  | nil => cases he
  | cons g entries ih =>
    rw [Entries.insert]
    split
    · rcases List.mem_cons.mp he with rfl | he
      · exact ⟨_, List.mem_cons_self, rfl⟩
      · exact ⟨e, List.mem_cons_of_mem _ he, rfl⟩
    · rcases List.mem_cons.mp he with rfl | he
      · exact ⟨_, List.mem_cons_self, rfl⟩
      · obtain ⟨f, hf, hkey⟩ := ih he
        exact ⟨f, List.mem_cons_of_mem _ hf, hkey⟩

theorem exists_mem_insert (key value : Value) (entries : Entries) :
    ∃ e ∈ insert key value entries, key.same e.1 = true := by
  induction entries with
  | nil => exact ⟨(key, value), List.mem_cons_self, Value.same_self key⟩
  | cons e entries ih =>
    rw [Entries.insert, Value.equals_eq_same]
    cases he : key.same e.1 with
    | true => exact ⟨(e.1, value), List.mem_cons_self, he⟩
    | false =>
      obtain ⟨f, hf, hsame⟩ := ih
      exact ⟨f, List.mem_cons_of_mem _ hf, hsame⟩

theorem insert_insert {key' value' : Value} (hbuilt : key.Built) (hsame : key.same key' = true)
    (entries : Entries) :
    insert key value (insert key' value' entries) = insert key' value entries := by
  induction entries with
  | nil => simp [insert, hsame]
  | cons e entries ih =>
    have hiff : key.same e.1 = key'.same e.1 :=
      Bool.eq_iff_iff.mpr ⟨Value.same_trans (hbuilt.reverses.1 _ hsame), Value.same_trans hsame⟩
    simp only [insert, Value.equals_eq_same]
    cases he : key'.same e.1 with
    | true => simp [insert, hiff, he]
    | false => simp [insert, hiff, he, ih]

/-- Where a key is present, writing to it can be exchanged with writing to another one. -/
theorem insert_comm {key' value' : Value} (hbuilt : key'.Built) (hne : key.same key' = false)
    (hpresent : ∃ e ∈ entries, key.same e.1 = true) :
    insert key value (insert key' value' entries) =
      insert key' value' (insert key value entries) := by
  induction entries with
  | nil =>
    obtain ⟨e, he, -⟩ := hpresent
    cases he
  | cons e entries ih =>
    cases he : key.same e.1 with
    | true =>
      have he' : key'.same e.1 = false := by
        by_contra hsame
        rw [Bool.not_eq_false] at hsame
        rw [Value.same_trans he (hbuilt.reverses.1 _ hsame)] at hne
        cases hne
      simp [insert, he, he']
    | false =>
      cases he' : key'.same e.1 with
      | true => simp [insert, he, he']
      | false =>
        have hrest : ∃ f ∈ entries, key.same f.1 = true := by
          obtain ⟨f, hf, hsame⟩ := hpresent
          rcases List.mem_cons.mp hf with rfl | hf
          · rw [he] at hsame
            cases hsame
          · exact ⟨f, hf, hsame⟩
        simp [insert, he, he', ih hrest]

theorem insert_insertEach (hbuilt : ∀ pair ∈ pairs, pair.1.Built)
    (hne : ∀ pair ∈ pairs, key.same pair.1 = false)
    (hpresent : ∃ e ∈ entries, key.same e.1 = true) :
    insert key value (insertEach entries pairs) = insertEach (insert key value entries) pairs := by
  induction pairs generalizing entries with
  | nil => rfl
  | cons pair pairs ih =>
    obtain ⟨hpair, hothers⟩ := List.forall_mem_cons.mp hbuilt
    obtain ⟨hnew, hrest⟩ := List.forall_mem_cons.mp hne
    have hstill : ∃ e ∈ insert pair.1 pair.2 entries, key.same e.1 = true := by
      obtain ⟨e, he, hsame⟩ := hpresent
      obtain ⟨f, hf, hkey⟩ := exists_mem_insert_of_mem he pair.1 pair.2
      exact ⟨f, hf, hkey ▸ hsame⟩
    have hstep := ih hothers hrest hstill
    rw [insert_comm hpair hnew hpresent] at hstep
    exact hstep

theorem insertEach_insert (h : BuiltKeys pairs) (hbuilt : key.Built) (value : Value)
    (entries : Entries) :
    insertEach entries (insert key value pairs) = insert key value (insertEach entries pairs) := by
  induction pairs generalizing entries with
  | nil => rfl
  | cons pair pairs ih =>
    rw [Entries.insert, Value.equals_eq_same]
    cases hpair : key.same pair.1 with
    | true =>
      -- once the pair is written its key is present, and no later pair has this key
      have hpresent : ∃ e ∈ insert pair.1 pair.2 entries, key.same e.1 = true := by
        obtain ⟨e, he, hsame⟩ := exists_mem_insert pair.1 pair.2 entries
        exact ⟨e, he, Value.same_trans hpair hsame⟩
      have hlater : insert key value (insertEach (insert pair.1 pair.2 entries) pairs) = _ :=
        insert_insertEach h.tail.built (fun f hf => h.same_eq_false hbuilt hpair hf) hpresent
      rw [insert_insert hbuilt hpair] at hlater
      exact hlater.symm
    | false => exact ih h.tail (insert pair.1 pair.2 entries)

theorem insertEach_insertEach (h : BuiltKeys written) (husable : ∀ pair ∈ pairs, pair.1.isKey = true)
    (hbuilt : ∀ pair ∈ pairs, pair.1.Built) (entries : Entries) :
    insertEach entries (insertEach written pairs) =
      insertEach (insertEach entries written) pairs := by
  induction pairs generalizing written with
  | nil => rfl
  | cons pair pairs ih =>
    obtain ⟨hkey, hkeys⟩ := List.forall_mem_cons.mp husable
    obtain ⟨hpair, hothers⟩ := List.forall_mem_cons.mp hbuilt
    have hstep := ih (h.insert hkey hpair pair.2) hkeys hothers
    rw [insertEach_insert h hpair] at hstep
    exact hstep

/-- Pairs may be written to an empty table first, and then the entries of that table. -/
theorem insertAll_collected (hbuilt : ∀ pair ∈ pairs, pair.1.Built)
    (hw : insertAll [] pairs = .ok written) (entries : Entries) :
    insertAll entries written = insertAll entries pairs := by
  have hwritten := (builtKeys_nil.insertAll hbuilt hw).keyed.usable
  obtain ⟨husable, rfl⟩ := insertAll_eq_ok_iff.mp hw
  have hright : insertAll entries pairs = .ok (insertEach entries pairs) :=
    insertAll_eq_ok_iff.mpr ⟨husable, rfl⟩
  have hleft : insertAll entries (insertEach [] pairs) =
      .ok (insertEach entries (insertEach [] pairs)) := insertAll_eq_ok_iff.mpr ⟨hwritten, rfl⟩
  have hsame : insertEach entries (insertEach [] pairs) = insertEach entries pairs :=
    insertEach_insertEach builtKeys_nil husable hbuilt entries
  rw [hright, ← hsame]
  exact hleft

end SmallLisp.Entries
