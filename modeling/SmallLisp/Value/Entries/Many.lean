import SmallLisp.Value.Entries
import SmallLisp.Value.KeyCode
import Std.Data.HashMap
import Std.Data.HashSet

/-! # Writing many entries

Writing entries one by one compares every key with those before it. Where all keys have codes, the
same entries come out of a table of codes that is gone through once: every key has the place where
it came first and the value that came last.
-/
namespace SmallLisp.Entries

/-- Keys in the order in which they came first, latest first, and their latest values. -/
structure Collected where
  order : List (KeyCode × Value)
  latest : Std.HashMap KeyCode Value

namespace Collected

def empty : Collected := ⟨[], ∅⟩

def write (t : Collected) (code : KeyCode) (key value : Value) : Collected :=
  if t.latest.contains code then { t with latest := t.latest.insert code value }
  else ⟨(code, key) :: t.order, t.latest.insert code value⟩

def entries (t : Collected) : Entries :=
  t.order.reverse.map fun k => (k.2, t.latest.getD k.1 .nil)

structure Sound (t : Collected) : Prop where
  coded : ∀ k ∈ t.order, k.2.keyCode? = some k.1
  nodup : (t.order.map (·.1)).Nodup
  mem_latest : ∀ c, c ∈ t.latest ↔ c ∈ t.order.map (·.1)

theorem sound_empty : empty.Sound := ⟨by simp [empty], by simp [empty], by simp [empty]⟩

theorem sound_write {t : Collected} (ht : t.Sound) {c : KeyCode} {k : Value} (v : Value)
    (hk : k.keyCode? = some c) : (t.write c k v).Sound := by
  unfold write
  split
  · rename_i h
    refine ⟨ht.coded, ht.nodup, fun d => ?_⟩
    have hc := (ht.mem_latest c).1 (Std.HashMap.mem_iff_contains.2 h)
    simp only [Std.HashMap.mem_insert, beq_iff_eq, ht.mem_latest d]
    exact ⟨fun hd => hd.elim (fun hcd => hcd ▸ hc) id, Or.inr⟩
  · rename_i h
    have hc : c ∉ t.order.map (·.1) := fun hm =>
      h (Std.HashMap.mem_iff_contains.1 ((ht.mem_latest c).2 hm))
    refine ⟨?_, by simpa using ⟨by simpa using hc, by simpa using ht.nodup⟩, fun d => ?_⟩
    · intro j hj
      cases hj with
      | head => exact hk
      | tail _ hj => exact ht.coded j hj
    · simp only [Std.HashMap.mem_insert, beq_iff_eq, ht.mem_latest d, List.map_cons,
        List.mem_cons]
      exact ⟨fun hd => hd.imp_left Eq.symm, fun hd => hd.imp_left Eq.symm⟩

end Collected

theorem insert_map_of_mem {ks : List (KeyCode × Value)} (value : KeyCode → Value) {c : KeyCode}
    {k : Value} (v : Value) (hcoded : ∀ j ∈ ks, j.2.keyCode? = some j.1)
    (hnodup : (ks.map (·.1)).Nodup) (hk : k.keyCode? = some c) (hc : c ∈ ks.map (·.1)) :
    insert k v (ks.map fun j => (j.2, value j.1)) =
      ks.map fun j => (j.2, if c = j.1 then v else value j.1) := by
  induction ks with
  | nil => simp at hc
  | cons j ks ih =>
    have hj := hcoded j List.mem_cons_self
    have hsame := Value.same_iff_keyCode?_eq hk hj
    rw [List.map_cons, List.nodup_cons] at hnodup
    simp only [List.map_cons, insert, Value.equals_eq_same]
    by_cases hcj : c = j.1
    · rw [if_pos (hsame.2 hcj), if_pos hcj]
      congr 1
      refine List.map_congr_left fun i hi => ?_
      have : c ≠ i.1 := fun h => hnodup.1 (hcj ▸ h ▸ List.mem_map_of_mem hi)
      rw [if_neg this]
    · rw [if_neg (fun h => hcj (hsame.1 h)), if_neg hcj]
      congr 1
      refine ih (fun i hi => hcoded i (List.mem_cons_of_mem _ hi)) hnodup.2 ?_
      simpa [hcj] using hc

theorem insert_of_forall_same_eq_false {k : Value} (v : Value) {es : Entries}
    (h : ∀ e ∈ es, k.same e.1 = false) : insert k v es = es ++ [(k, v)] := by
  induction es with
  | nil => rfl
  | cons e es ih =>
    simp only [insert, Value.equals_eq_same, h e List.mem_cons_self, List.cons_append]
    rw [if_neg (by simp), ih fun i hi => h i (List.mem_cons_of_mem _ hi)]

theorem Collected.entries_write {t : Collected} (ht : t.Sound) {c : KeyCode} {k : Value}
    (v : Value) (hk : k.keyCode? = some c) :
    (t.write c k v).entries = insert k v t.entries := by
  have hcoded : ∀ j ∈ t.order.reverse, j.2.keyCode? = some j.1 := fun j hj =>
    ht.coded j (List.mem_reverse.1 hj)
  unfold write
  split
  · rename_i h
    have hc := (ht.mem_latest c).1 (Std.HashMap.mem_iff_contains.2 h)
    simp only [entries, Std.HashMap.getD_insert, beq_iff_eq]
    refine (insert_map_of_mem (fun d => t.latest.getD d .nil) v hcoded ?_ hk ?_).symm
    · rw [List.map_reverse]
      exact List.pairwise_reverse.2 (ht.nodup.imp Ne.symm)
    · rw [List.map_reverse]
      exact List.mem_reverse.2 hc
  · rename_i h
    have hc : ∀ j ∈ t.order, c ≠ j.1 := fun j hj hcj =>
      h (Std.HashMap.mem_iff_contains.1
        ((ht.mem_latest c).2 (hcj ▸ List.mem_map_of_mem (f := Prod.fst) hj)))
    rw [insert_of_forall_same_eq_false]
    · simp only [entries, List.reverse_cons, List.map_append, List.map_cons, List.map_nil,
        Std.HashMap.getD_insert_self]
      congr 1
      refine List.map_congr_left fun j hj => ?_
      rw [Std.HashMap.getD_insert, if_neg]
      simpa using hc j (List.mem_reverse.1 hj)
    · intro e he
      obtain ⟨j, hj, rfl⟩ := List.mem_map.1 he
      rw [Bool.eq_false_iff]
      exact fun hs => hc j (List.mem_reverse.1 hj)
        ((Value.same_iff_keyCode?_eq hk (hcoded j hj)).1 hs)

def collect? (t : Collected) : List (Value × Value) → Option Collected
  | [] => some t
  | (k, v) :: es =>
    match k.keyCode? with
    | some c => collect? (t.write c k v) es
    | none => none

theorem insertAll_of_collect? {t u : Collected} (ht : t.Sound) {es : List (Value × Value)}
    (h : collect? t es = some u) : insertAll t.entries es = .ok u.entries ∧ u.Sound := by
  induction es generalizing t with
  | nil =>
    simp only [collect?, Option.some.injEq] at h
    exact ⟨h ▸ rfl, h ▸ ht⟩
  | cons e es ih =>
    obtain ⟨k, v⟩ := e
    simp only [collect?] at h
    split at h
    · rename_i c hk
      simp only [insertAll, Value.isKey_of_keyCode? hk, if_true]
      rw [← Collected.entries_write ht v hk]
      exact ih (Collected.sound_write ht v hk) h
    · exact absurd h (by simp)

/-- Collecting never takes keys away, and adds one for each entry only if all keys are new. -/
theorem entries_of_collect? {t u : Collected} (ht : t.Sound) {es : List (Value × Value)}
    (h : collect? t es = some u) : u.order.length ≤ t.order.length + es.length ∧
      (u.order.length = t.order.length + es.length → u.entries = t.entries ++ es) := by
  induction es generalizing t with
  | nil =>
    simp only [collect?, Option.some.injEq] at h
    subst h
    simp
  | cons e es ih =>
    obtain ⟨k, v⟩ := e
    simp only [collect?] at h
    split at h
    · rename_i c hk
      have hu := ih (Collected.sound_write ht v hk) h
      by_cases hc : t.latest.contains c = true
      · have hlen : (t.write c k v).order.length = t.order.length := by
          simp [Collected.write, hc]
        simp only [List.length_cons]
        exact ⟨by omega, by omega⟩
      · have hlen : (t.write c k v).order.length = t.order.length + 1 := by
          simp [Collected.write, hc]
        have hentries : (t.write c k v).entries = t.entries ++ [(k, v)] := by
          rw [Collected.entries_write ht v hk, insert_of_forall_same_eq_false]
          intro e he
          obtain ⟨j, hj, rfl⟩ := List.mem_map.1 he
          rw [Bool.eq_false_iff]
          intro hs
          have hcj := (Value.same_iff_keyCode?_eq hk (ht.coded j (List.mem_reverse.1 hj))).1 hs
          exact hc (Std.HashMap.mem_iff_contains.1 ((ht.mem_latest c).2
            (hcj ▸ List.mem_map_of_mem (f := Prod.fst) (List.mem_reverse.1 hj))))
        simp only [List.length_cons]
        refine ⟨by omega, fun hlast => ?_⟩
        rw [hu.2 (by omega), hentries]
        simp
    · exact absurd h (by simp)

def collected? (es : Entries) : Option Collected :=
  (collect? .empty es).filter fun t => t.order.length == es.length

theorem entries_of_collected? {es : Entries} {t : Collected} (h : collected? es = some t) :
    t.entries = es ∧ t.Sound := by
  obtain ⟨hc, hlen⟩ := Option.filter_eq_some_iff.1 h
  have hall := entries_of_collect? Collected.sound_empty hc
  refine ⟨?_, (insertAll_of_collect? Collected.sound_empty hc).2⟩
  rw [hall.2 (by simpa [Collected.empty] using hlen)]
  simp [Collected.entries, Collected.empty]

def fewEntries : Nat := 8

def insertMany (es : Entries) (pairs : List (Value × Value)) : Except Value Entries :=
  if pairs.length < fewEntries then insertAll es pairs
  else
    match (collected? es).bind fun t => collect? t pairs with
    | some t => .ok t.entries
    | none => insertAll es pairs

@[simp] theorem insertMany_eq_insertAll (es : Entries) (pairs : List (Value × Value)) :
    insertMany es pairs = insertAll es pairs := by
  unfold insertMany
  split
  · rfl
  · split
    · rename_i t h
      obtain ⟨u, hu, ht⟩ := Option.bind_eq_some_iff.1 h
      obtain ⟨rfl, hs⟩ := entries_of_collected? hu
      exact (insertAll_of_collect? hs ht).1.symm
    · rfl

theorem Collected.map_keyCode?_entries {t : Collected} (ht : t.Sound) :
    t.entries.map (·.1.keyCode?) = (t.order.reverse.map (·.1)).map some := by
  simp only [entries, List.map_map]
  exact List.map_congr_left fun j hj => ht.coded j (List.mem_reverse.1 hj)

theorem Collected.nodup_keyCode?_entries {t : Collected} (ht : t.Sound) :
    (t.entries.map (·.1.keyCode?)).Nodup := by
  rw [map_keyCode?_entries ht, List.map_reverse]
  exact List.pairwise_map.2 ((List.pairwise_reverse.2 (ht.nodup.imp Ne.symm)).imp
    fun h hsome => h (Option.some.inj hsome))

theorem Collected.isSome_keyCode?_of_mem_entries {t : Collected} (ht : t.Sound) {e : Value × Value}
    (he : e ∈ t.entries) : e.1.keyCode?.isSome := by
  have hm := List.mem_map_of_mem (f := (·.1.keyCode?)) he
  rw [map_keyCode?_entries ht] at hm
  obtain ⟨c, _, hc⟩ := List.mem_map.1 hm
  exact hc ▸ rfl

theorem erase_eq_filter {es : Entries} {c : KeyCode} {k : Value} (hk : k.keyCode? = some c)
    (hcoded : ∀ e ∈ es, (e.1.keyCode?).isSome) (hnodup : (es.map (·.1.keyCode?)).Nodup) :
    erase k es = es.filter fun e => e.1.keyCode? != some c := by
  induction es with
  | nil => rfl
  | cons e es ih =>
    obtain ⟨d, hd⟩ := Option.isSome_iff_exists.1 (hcoded e List.mem_cons_self)
    have hsame := Value.same_iff_keyCode?_eq hk hd
    rw [List.map_cons, List.nodup_cons] at hnodup
    simp only [erase, Value.equals_eq_same, List.filter_cons, hd, bne_iff_ne, ne_eq,
      Option.some.injEq]
    by_cases hcd : c = d
    · rw [if_pos (hsame.2 hcd), if_neg (by simp [hcd])]
      refine (List.filter_eq_self.2 fun i hi => ?_).symm
      simp only [bne_iff_ne, ne_eq]
      exact fun h => hnodup.1 (hd ▸ hcd ▸ h ▸ List.mem_map_of_mem (f := (·.1.keyCode?)) hi)
    · rw [if_neg (fun h => hcd (hsame.1 h)), if_pos (fun h => hcd h.symm),
        ih (fun i hi => hcoded i (List.mem_cons_of_mem _ hi)) hnodup.2]

theorem erase_eq_self {es : Entries} {k : Value} (hk : k.keyCode? = none)
    (hcoded : ∀ e ∈ es, (e.1.keyCode?).isSome) : erase k es = es := by
  induction es with
  | nil => rfl
  | cons e es ih =>
    obtain ⟨d, hd⟩ := Option.isSome_iff_exists.1 (hcoded e List.mem_cons_self)
    simp only [erase, Value.equals_eq_same, Value.same_eq_false_of_keyCode?_eq_none hk hd]
    rw [if_neg (by simp), ih fun i hi => hcoded i (List.mem_cons_of_mem _ hi)]

theorem eraseAll_eq_filter {keys : List Value} {es : Entries}
    (hcoded : ∀ e ∈ es, (e.1.keyCode?).isSome) (hnodup : (es.map (·.1.keyCode?)).Nodup) :
    eraseAll keys es = es.filter fun e => keys.all fun k => k.keyCode? != e.1.keyCode? := by
  induction keys generalizing es with
  | nil => exact (List.filter_eq_self.2 fun _ _ => rfl).symm
  | cons k ks ih =>
    have hstep : eraseAll (k :: ks) es =
        eraseAll ks (es.filter fun e => k.keyCode? != e.1.keyCode?) := by
      simp only [eraseAll, List.foldl_cons]
      congr 1
      cases hk : k.keyCode? with
      | some c =>
        rw [if_pos (Value.isKey_of_keyCode? hk), erase_eq_filter hk hcoded hnodup]
        exact List.filter_congr fun e _ => bne_comm
      | none =>
        rw [erase_eq_self hk hcoded, ite_self]
        refine (List.filter_eq_self.2 fun e he => ?_).symm
        obtain ⟨d, hd⟩ := Option.isSome_iff_exists.1 (hcoded e he)
        simp [hd]
    have hsub := List.filter_sublist (l := es) (p := fun e => k.keyCode? != e.1.keyCode?)
    rw [hstep, ih (fun e he => hcoded e (hsub.mem he)) (hnodup.sublist (hsub.map _)),
      List.filter_filter]
    exact List.filter_congr fun e _ => by simp [List.all_cons, Bool.and_comm]

def codesOf (codes : Std.HashSet KeyCode) : List Value → Std.HashSet KeyCode
  | [] => codes
  | k :: ks =>
    match k.keyCode? with
    | some c => codesOf (codes.insert c) ks
    | none => codesOf codes ks

theorem contains_codesOf (codes : Std.HashSet KeyCode) (keys : List Value) (c : KeyCode) :
    (codesOf codes keys).contains c =
      (codes.contains c || keys.any fun k => k.keyCode? == some c) := by
  induction keys generalizing codes with
  | nil => simp [codesOf]
  | cons k ks ih =>
    simp only [codesOf, List.any_cons]
    split
    · rename_i d hd
      rw [ih, Std.HashSet.contains_insert, hd]
      cases hcd : d == c <;> cases codes.contains c <;> simp_all
    · rename_i hk
      rw [ih, hk]
      simp

def eraseMany (keys : List Value) (es : Entries) : Entries :=
  if keys.length < fewEntries || (collected? es).isNone then eraseAll keys es
  else
    let codes := codesOf ∅ keys
    es.filter fun e => !e.1.keyCode?.any codes.contains

@[simp] theorem eraseMany_eq_eraseAll (keys : List Value) (es : Entries) :
    eraseMany keys es = eraseAll keys es := by
  unfold eraseMany
  split
  · rfl
  · rename_i h
    simp only [Bool.or_eq_true, not_or, Bool.not_eq_true, Option.isNone_eq_false_iff] at h
    obtain ⟨t, ht⟩ := Option.isSome_iff_exists.1 h.2
    obtain ⟨rfl, hs⟩ := entries_of_collected? ht
    have hcoded := fun e he => Collected.isSome_keyCode?_of_mem_entries hs (e := e) he
    rw [eraseAll_eq_filter hcoded (Collected.nodup_keyCode?_entries hs)]
    refine List.filter_congr fun e he => ?_
    obtain ⟨c, hc⟩ := Option.isSome_iff_exists.1 (hcoded e he)
    simp only [hc, Option.any_some, contains_codesOf, Std.HashSet.contains_empty, Bool.false_or,
      List.not_any_eq_all_not]
    rfl

end SmallLisp.Entries
