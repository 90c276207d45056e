import SmallLisp.Builtin.Collection
import SmallLisp.Builtin.State
import SmallLisp.Proofs.AssociationLists
import SmallLisp.Proofs.PrintableValues

/-! # Histories of tables

A table is made from pairs and then changed, one change after the other, where a change that fails
leaves it as it is. At every moment it is an association list: its keys are pairwise different, each
change does to it what it does to such a list, and all that can be asked of it is answered from the
list.
-/
namespace SmallLisp

structure Table where
  entries : Entries
  metadata : Value

namespace Table

def value (table : Table) : Value := .table table.entries table.metadata

end Table

inductive TableFault where
  | fault (f : Fault)
  | access (f : AccessFault)

inductive TableChange where
  | put (key value : Value)
  | assoc (pairs : List (Value × Value))
  | dissoc (keys : List Value)
  | pop (key : Value) (default : Option Value)
  | withMetadata (metadata : Value)

namespace Table

variable {table : Table} {key value : Value}

def write (table : Table) (pairs : List (Value × Value)) : Except TableFault (Value × Table) :=
  match writeEntries table.entries pairs with
  | .ok entries => .ok (.nil, { table with entries })
  | .error f => .error (.fault f)

def takeOut (table : Table) : Except AccessFault (Value × Entries) →
    Except TableFault (Value × Table)
  | .ok (value, entries) => .ok (value, { table with entries })
  | .error f => .error (.access f)

def apply (table : Table) : TableChange → Except TableFault (Value × Table)
  | .put key value => table.write [(key, value)]
  | .assoc pairs => table.write pairs
  | .dissoc keys => .ok (.nil, { table with entries := Entries.eraseMany keys table.entries })
  | .pop key none => table.takeOut (Entries.take key table.entries)
  | .pop key (some default) => table.takeOut (Entries.takeOr key default table.entries)
  | .withMetadata metadata => .ok (.nil, { table with metadata })

def refuse (key : Value) : Except TableFault (Value × Table) :=
  .error (.fault (.kind (.unusableKey key)))

/-- What comes of a change of an association list. In a list without entries even a value that
cannot be a key is a missing one. -/
def applyToList (table : Table) : TableChange → Except TableFault (Value × Table)
  | .put key value =>
    if key.isKey then .ok (.nil, { table with entries := Entries.set key value table.entries })
    else refuse key
  | .assoc pairs =>
    match Entries.setAll pairs table.entries with
    | .ok entries => .ok (.nil, { table with entries })
    | .error key => refuse key
  | .dissoc keys => .ok (.nil, { table with entries := Entries.without keys table.entries })
  | .pop key default =>
    match Entries.valueAt? key table.entries with
    | some value => .ok (value, { table with entries := Entries.without [key] table.entries })
    | none =>
      if !table.entries.isEmpty && !key.isKey then .error (.access .unusable)
      else
        match default with
        | some value => .ok (value, table)
        | none => .error (.access .missing)
  | .withMetadata metadata => .ok (.nil, { table with metadata })

end Table

def TableChange.keys : TableChange → List Value
  | .put key _ => [key]
  | .assoc pairs => Entries.keys pairs
  | .dissoc keys => keys
  | .pop key _ => [key]
  | .withMetadata _ => []

def TableChange.Built (change : TableChange) : Prop := ∀ key ∈ change.keys, key.Built

namespace Table

variable {table next : Table} {key value result : Value} {pairs : List (Value × Value)}
  {change : TableChange}

theorem write_eq (h : Entries.BuiltKeys table.entries) (hpairs : ∀ pair ∈ pairs, pair.1.Built) :
    table.write pairs = table.applyToList (.assoc pairs) := by
  rw [write, applyToList, writeEntries, Entries.insertMany_eq_insertAll,
    Entries.insertAll_eq_setAll h hpairs]
  cases Entries.setAll pairs table.entries with
  | ok entries => rfl
  | error key => rfl

theorem applyToList_put (table : Table) (key value : Value) :
    table.applyToList (.put key value) = table.applyToList (.assoc [(key, value)]) := by
  cases hkey : key.isKey with
  | true => simp [applyToList, Entries.setAll, hkey]
  | false => simp [applyToList, Entries.setAll, hkey]

theorem pop_eq (h : Entries.BuiltKeys table.entries) (hbuilt : key.Built)
    (default : Option Value) :
    table.apply (.pop key default) = table.applyToList (.pop key default) := by
  cases hvalue : Entries.valueAt? key table.entries with
  | some value =>
    have htake := Entries.take_of_valueAt? h hbuilt hvalue
    cases default with
    | none => simp [Table.apply, applyToList, htake, hvalue, takeOut]
    | some value => simp [Table.apply, applyToList, Entries.takeOr, htake, hvalue, takeOut]
  | none =>
    have htake := Entries.take_of_none hvalue
    cases hunusable : !table.entries.isEmpty && !key.isKey with
    | true =>
      rw [hunusable, if_pos rfl] at htake
      cases default with
      | none => simp [Table.apply, applyToList, htake, hvalue, hunusable, takeOut]
      | some value =>
        simp [Table.apply, applyToList, Entries.takeOr, htake, hvalue, hunusable, takeOut]
    | false =>
      rw [hunusable, if_neg Bool.false_ne_true] at htake
      cases default with
      | none => simp [Table.apply, applyToList, htake, hvalue, hunusable, takeOut]
      | some value =>
        simp [Table.apply, applyToList, Entries.takeOr, htake, hvalue, hunusable, takeOut]

theorem apply_eq_applyToList (h : Entries.BuiltKeys table.entries) (hbuilt : change.Built) :
    table.apply change = table.applyToList change := by
  cases change with
  | put key value =>
    rw [applyToList_put]
    exact write_eq h (List.forall_mem_singleton.mpr (hbuilt key List.mem_cons_self))
  | assoc pairs => exact write_eq h (List.forall_mem_map.mp hbuilt)
  | dissoc keys =>
    have hkeys : ∀ key ∈ keys, key.Built := hbuilt
    rw [Table.apply, Entries.eraseMany_eq_eraseAll, Entries.eraseAll_eq_without h hkeys]
    rfl
  | pop key default => exact pop_eq h (hbuilt key List.mem_cons_self) default
  | withMetadata metadata => rfl

theorem builtKeys_write (h : Entries.BuiltKeys table.entries)
    (hpairs : ∀ pair ∈ pairs, pair.1.Built) (hwrite : table.write pairs = .ok (result, next)) :
    Entries.BuiltKeys next.entries := by
  rw [write, writeEntries, Entries.insertMany_eq_insertAll] at hwrite
  cases hw : Entries.insertAll table.entries pairs with
  | error key =>
    rw [hw] at hwrite
    cases hwrite
  | ok written =>
    rw [hw] at hwrite
    cases hwrite
    exact h.insertAll hpairs hw

theorem builtKeys_apply (h : Entries.BuiltKeys table.entries) (hbuilt : change.Built)
    (hchange : table.apply change = .ok (result, next)) : Entries.BuiltKeys next.entries := by
  cases change with
  | put key value =>
    exact builtKeys_write h (List.forall_mem_singleton.mpr (hbuilt key List.mem_cons_self)) hchange
  | assoc pairs => exact builtKeys_write h (List.forall_mem_map.mp hbuilt) hchange
  | dissoc keys =>
    rw [apply_eq_applyToList h hbuilt] at hchange
    cases hchange
    exact h.sublist List.filter_sublist
  | pop key default =>
    rw [apply_eq_applyToList h hbuilt] at hchange
    simp only [applyToList] at hchange
    split at hchange
    · cases hchange
      exact h.sublist List.filter_sublist
    · split at hchange
      · cases hchange
      · split at hchange
        · cases hchange
          exact h
        · cases hchange
  | withMetadata metadata =>
    cases hchange
    exact h

def after (table : Table) : Except TableFault (Value × Table) → Table
  | .ok (_, next) => next
  | .error _ => table

def run (step : Table → TableChange → Except TableFault (Value × Table)) (table : Table)
    (changes : List TableChange) : Table :=
  changes.foldl (fun table change => table.after (step table change)) table

theorem builtKeys_after (h : Entries.BuiltKeys table.entries) (hbuilt : change.Built) :
    Entries.BuiltKeys (table.after (table.apply change)).entries := by
  cases hchange : table.apply change with
  | ok r => exact builtKeys_apply h hbuilt hchange
  | error f => exact h

theorem run_apply (h : Entries.BuiltKeys table.entries) {changes : List TableChange}
    (hbuilt : ∀ change ∈ changes, change.Built) :
    table.run apply changes = table.run applyToList changes ∧
      Entries.BuiltKeys (table.run apply changes).entries := by
  induction changes generalizing table with
  | nil => exact ⟨rfl, h⟩
  | cons change changes ih =>
    obtain ⟨hfirst, hothers⟩ := List.forall_mem_cons.mp hbuilt
    obtain ⟨hsame, hkeys⟩ := ih (builtKeys_after h hfirst) hothers
    refine ⟨?_, hkeys⟩
    refine hsame.trans ?_
    rw [apply_eq_applyToList h hfirst]
    rfl

def ofPairs (pairs : List (Value × Value)) (metadata : Value) : Except TableFault Table :=
  ((⟨[], metadata⟩ : Table).apply (.assoc pairs)).map (·.2)

theorem builtKeys_ofPairs {metadata : Value} (hpairs : ∀ pair ∈ pairs, pair.1.Built)
    (hstart : ofPairs pairs metadata = .ok table) : Entries.BuiltKeys table.entries := by
  have hempty : Entries.BuiltKeys (⟨[], metadata⟩ : Table).entries := Entries.builtKeys_nil
  have hbuilt : (TableChange.assoc pairs).Built := List.forall_mem_map.mpr hpairs
  cases happly : (⟨[], metadata⟩ : Table).apply (.assoc pairs) with
  | error f =>
    rw [ofPairs, happly] at hstart
    cases hstart
  | ok r =>
    rw [ofPairs, happly] at hstart
    cases hstart
    exact builtKeys_apply hempty hbuilt happly

/-- The table is an association list: its keys can be keys and are pairwise different, changes are
those of such a list, and everything else describes the list. -/
structure IsAssociationList (table : Table) : Prop where
  usable : ∀ e ∈ table.entries, e.1.isKey = true
  different : table.entries.Pairwise fun e f => e.1.same f.1 = false ∧ f.1.same e.1 = false
  changed : ∀ change : TableChange, change.Built → table.apply change = table.applyToList change
  folded : ∀ pairs, (table.apply (.assoc pairs)).map (·.2) =
    pairs.foldlM (fun table pair => (table.apply (.put pair.1 pair.2)).map (·.2)) table
  collected : ∀ flat written, (∀ v ∈ flat, v.Built) → insertFlat [] flat = .ok written →
    writeEntries table.entries written = insertFlat table.entries flat
  assoc : ∀ flat, flat.length % 2 = 0 →
    (CollectionOp.apply .assoc (table.value :: flat)).mapError .fault =
      (table.apply (.assoc (Entries.pairUp flat))).map (·.2.value)
  dissoc : ∀ keys, (CollectionOp.apply .dissoc (table.value :: keys)).mapError .fault =
    (table.apply (.dissoc keys)).map (·.2.value)
  withMetadata : ∀ metadata store, StateOp.withMetadataOf table.value metadata store =
    .ok (Table.value { table with metadata }) store
  keys : CollectionOp.apply .keys [table.value] = .ok (.ofList (table.entries.map (·.1)))
  vals : CollectionOp.apply .vals [table.value] = .ok (.ofList (table.entries.map (·.2)))
  count : CollectionOp.apply .count [table.value] = .ok (.int table.entries.length)
  lookup : ∀ key value, key.Built → (table.entries.lookup? key = some value ↔
    ∃ e ∈ table.entries, key.same e.1 = true ∧ e.2 = value)
  get : ∀ key, CollectionOp.apply .get [table.value, key] =
    .ok ((Entries.valueAt? key table.entries).getD .nil)
  contains : ∀ key, CollectionOp.apply .contains [table.value, key] =
    .ok (.bool (table.entries.any fun e => key.same e.1))
  unusable : ∀ key, key.isKey = false → table.entries.lookup? key = none ∧
    table.apply (.dissoc [key]) = .ok (.nil, table) ∧
    ∀ value, table.apply (.put key value) = refuse key

theorem write_cons (table : Table) (pair : Value × Value) (pairs : List (Value × Value)) :
    table.write (pair :: pairs) = table.write [pair] >>= fun result => result.2.write pairs := by
  simp only [write, writeEntries, Entries.insertMany_eq_insertAll, Entries.insertAll]
  cases pair.1.isKey with
  | true => rfl
  | false => rfl

theorem apply_assoc_eq_foldlM (table : Table) (pairs : List (Value × Value)) :
    (table.apply (.assoc pairs)).map (·.2) =
      pairs.foldlM (fun table pair => (table.apply (.put pair.1 pair.2)).map (·.2)) table := by
  induction pairs generalizing table with
  | nil =>
    simp only [apply, write, writeEntries, Entries.insertMany_eq_insertAll, Entries.insertAll]
    rfl
  | cons pair pairs ih =>
    rw [List.foldlM_cons]
    simp only [apply] at ih ⊢
    rw [write_cons]
    cases table.write [pair] with
    | error f => rfl
    | ok r => exact ih r.2

theorem insertFlat_collected {flat : List Value} {written : Entries}
    (hbuilt : ∀ v ∈ flat, v.Built) (hw : insertFlat [] flat = .ok written) (entries : Entries) :
    writeEntries entries written = insertFlat entries flat := by
  rw [insertFlat] at hw ⊢
  split at hw
  · next heven =>
    have hpairs : ∀ pair ∈ Entries.pairUp flat, pair.1.Built :=
      fun pair hpair => hbuilt _ (mem_pairUp hpair).1
    rw [writeEntries, Entries.insertMany_eq_insertAll] at hw
    cases hall : Entries.insertAll [] (Entries.pairUp flat) with
    | error key =>
      rw [hall] at hw
      cases hw
    | ok entries' =>
      rw [hall] at hw
      cases hw
      rw [if_pos heven, writeEntries, writeEntries, Entries.insertMany_eq_insertAll,
        Entries.insertMany_eq_insertAll, Entries.insertAll_collected hpairs hall]
  · cases hw

theorem apply_assocBuiltin (table : Table) {flat : List Value} (heven : flat.length % 2 = 0) :
    (CollectionOp.apply .assoc (table.value :: flat)).mapError .fault =
      (table.apply (.assoc (Entries.pairUp flat))).map (·.2.value) := by
  have hflat : insertFlat table.entries flat =
      writeEntries table.entries (Entries.pairUp flat) := if_pos heven
  have hassoc : CollectionOp.apply .assoc (table.value :: flat) =
      (insertFlat table.entries flat).map fun entries => .table entries table.metadata := rfl
  rw [hassoc, hflat, apply, write]
  cases writeEntries table.entries (Entries.pairUp flat) with
  | ok entries => rfl
  | error f => rfl

theorem apply_unusable (table : Table) (hkey : key.isKey = false) :
    table.entries.lookup? key = none ∧ table.apply (.dissoc [key]) = .ok (.nil, table) ∧
      ∀ value, table.apply (.put key value) = refuse key := by
  refine ⟨?_, ?_, fun value => ?_⟩
  · rw [Entries.lookup?, hkey]
    rfl
  · rw [apply, Entries.eraseMany_eq_eraseAll]
    simp [Entries.eraseAll, hkey]
  · simp [apply, write, writeEntries, Entries.insertAll, hkey, refuse, Except.mapError]

theorem isAssociationList (h : Entries.BuiltKeys table.entries) : table.IsAssociationList where
  usable := h.keyed.usable
  different := h.different
  changed := fun change hbuilt => apply_eq_applyToList h hbuilt
  folded := table.apply_assoc_eq_foldlM
  collected := fun flat written hbuilt hw => insertFlat_collected hbuilt hw table.entries
  assoc := fun flat heven => table.apply_assocBuiltin heven
  dissoc := fun keys => rfl
  withMetadata := fun metadata store => rfl
  keys := rfl
  vals := rfl
  count := rfl
  lookup := fun key value hbuilt => by
    rw [Entries.lookup?_eq_valueAt? h, Entries.valueAt?_eq_some_iff h hbuilt]
  get := fun key => by
    rw [← Entries.lookup?_eq_valueAt? h]
    rfl
  contains := fun key => by
    rw [← Entries.isSome_valueAt?, ← Entries.lookup?_eq_valueAt? h]
    rfl
  unusable := fun key hkey => table.apply_unusable hkey

theorem value_ofPairs {flat : List Value} (heven : flat.length % 2 = 0) :
    (CollectionOp.apply .table flat).mapError .fault =
      (ofPairs (Entries.pairUp flat) .nil).map Table.value := by
  have hflat : insertFlat [] flat = writeEntries [] (Entries.pairUp flat) := if_pos heven
  have htable : CollectionOp.apply .table flat = (insertFlat [] flat).map .ofEntries := rfl
  rw [htable, hflat, ofPairs, apply, write]
  cases writeEntries [] (Entries.pairUp flat) with
  | ok entries => rfl
  | error f => rfl

end Table

theorem Value.isKey_eq_false_iff (v : Value) : v.isKey = false ↔
    v.isSequential = true ∨ ∃ entries metadata, v = .table entries metadata := by
  cases v <;> simp [Value.isKey, Value.isSequential]

theorem Value.Valid.built {home : FrameId} {tolerant : Bool} {layout : Layout home tolerant}
    {v : Value} (h : v.Valid layout) : v.Built := by
  refine Value.Every.mono (fun u hu => ?_) h
  cases u with
  | table entries metadata => exact hu
  | _ => trivial

/-- How keys are told apart, by the equality of the language, and which values are refused as keys.
The loose comparison tells keys apart as well once truth values are marked. -/
structure KeyRules : Prop where
  equal : ∀ v w : Value, CollectionOp.apply .equal [v, w] = .ok (.bool (v.same w))
  refl : ∀ v : Value, v.same v = true
  symm : ∀ v w : Value, v.Built → v.same w = true → w.same v = true
  built : ∀ home tolerant (layout : Layout home tolerant) (v : Value), v.Valid layout → v.Built
  trans : ∀ v w u : Value, v.same w = true → w.same u = true → v.same u = true
  kinds : ∀ b n text, [Value.bool b, .int n, .symbol text, .keyword text, .str text].Pairwise
    fun v w => v.same w = false ∧ w.same v = false
  marked : ∀ v w : Value, v.isKey = true → w.isKey = true →
    v.same w = (v.isTruthValue == w.isTruthValue && v.loose w)
  unusable : ∀ v : Value, v.isKey = false ↔
    v.isSequential = true ∨ ∃ entries metadata, v = .table entries metadata
  refused : ∀ heap v, Printable heap v → ∃ text, representValue heap v = .ok text ∧
    (Fault.kind (.unusableKey v)).message heap =
      .ok ("Cannot use " ++ text ++ " as a hash-map key")

theorem keyRules : KeyRules where
  equal := fun v w => by simp [CollectionOp.apply, allSame]
  refl := Value.same_self
  symm := fun v w hv => hv.reverses.1 w
  built := fun home tolerant layout v => Value.Valid.built
  trans := fun v w u => Value.same_trans
  kinds := fun b n text => by
    simp only [List.pairwise_cons, List.forall_mem_cons, List.not_mem_nil, false_implies,
      implies_true, List.Pairwise.nil, and_true]
    exact ⟨⟨⟨rfl, rfl⟩, ⟨rfl, rfl⟩, ⟨rfl, rfl⟩, rfl, rfl⟩, ⟨⟨rfl, rfl⟩, ⟨rfl, rfl⟩, rfl, rfl⟩,
      ⟨⟨rfl, rfl⟩, rfl, rfl⟩, rfl, rfl⟩
  marked := fun v w hv hw => Value.same_eq_loose hv hw
  unusable := Value.isKey_eq_false_iff
  refused := fun heap v hprintable => by
    obtain ⟨text, htext⟩ := hprintable.exists_representValue
    refine ⟨text, htext, ?_⟩
    simp only [Fault.message, KindFault.message, htext]
    rfl

/-- A table is an association list after any changes, and they have done to it what they do to such
a list. -/
theorem Table.history_isAssociationList {pairs : List (Value × Value)}
    {changes : List TableChange} (hpairs : ∀ pair ∈ pairs, pair.1.Built)
    (hchanges : ∀ change ∈ changes, change.Built) (metadata : Value) :
    KeyRules ∧
    ofPairs pairs metadata = ((⟨[], metadata⟩ : Table).applyToList (.assoc pairs)).map (·.2) ∧
    (∀ flat, flat.length % 2 = 0 → (CollectionOp.apply .table flat).mapError .fault =
      (ofPairs (Entries.pairUp flat) .nil).map value) ∧
    ∀ table, ofPairs pairs metadata = .ok table →
      table.run apply changes = table.run applyToList changes ∧
      (table.run apply changes).IsAssociationList := by
  have hempty : Entries.BuiltKeys (⟨[], metadata⟩ : Table).entries := Entries.builtKeys_nil
  have hbuilt : (TableChange.assoc pairs).Built := List.forall_mem_map.mpr hpairs
  refine ⟨keyRules, ?_, fun flat heven => value_ofPairs heven, fun table hstart => ?_⟩
  · rw [ofPairs, apply_eq_applyToList hempty hbuilt]
  · obtain ⟨hsame, hlater⟩ := run_apply (builtKeys_ofPairs hpairs hstart) hchanges
    exact ⟨hsame, isAssociationList hlater⟩

/-- A table in which a key is written again, a list is refused as a key, and a key is taken out. -/
theorem Table.history_isAssociationList_kinds :
    let pairs : List (Value × Value) := [(.bool true, .int 1), (.int 1, .int 2)]
    let changes : List TableChange := [.assoc [(.symbol "a", .nil), (.bool true, .int 3),
      (.str "a", .nil)], .put (.ofList []) .nil, .pop (.int 1) none]
    (∀ pair ∈ pairs, pair.1.Built) ∧ (∀ change ∈ changes, change.Built) ∧
      ∃ table, ofPairs pairs .nil = .ok table ∧ (table.run apply changes).entries =
          [(.bool true, .int 3), (.symbol "a", .nil), (.str "a", .nil)] ∧
        (table.run apply changes).IsAssociationList := by
  intro pairs changes
  have hscalar : ∀ v : Value, v.parts = [] → v.KeyedTable → v.Built :=
    fun v hparts hkeyed => Value.every_of_parts_nil hkeyed hparts
  have hpairs : ∀ pair ∈ pairs, pair.1.Built := by
    simp only [pairs, List.forall_mem_cons]
    exact ⟨hscalar _ rfl trivial, hscalar _ rfl trivial, List.forall_mem_nil _⟩
  have hlist : (Value.ofList []).Built :=
    Value.every_list.mpr ⟨trivial, hscalar _ rfl trivial, List.forall_mem_nil _⟩
  have hchanges : ∀ change ∈ changes, change.Built := by
    simp only [changes, List.forall_mem_cons, TableChange.Built, TableChange.keys, Entries.keys,
      List.map_cons, List.map_nil]
    exact ⟨⟨hscalar _ rfl trivial, hscalar _ rfl trivial, hscalar _ rfl trivial,
      List.forall_mem_nil _⟩, ⟨hlist, List.forall_mem_nil _⟩,
      ⟨hscalar _ rfl trivial, List.forall_mem_nil _⟩, List.forall_mem_nil _⟩
  refine ⟨hpairs, hchanges, _, rfl, rfl, ?_⟩
  exact ((history_isAssociationList hpairs hchanges .nil).2.2.2 _ rfl).2

end SmallLisp
