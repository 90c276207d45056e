import SmallLisp.Proofs.TableHistories
import SmallLisp.Value.Slots

/-! # Stored tables are tables

What is done to the dictionary of a table, slot by slot, is what is done to its entries, key by
key: the slots of keys agree where the keys are the same, and the slot of anything else has no hash.
-/
namespace SmallLisp

namespace Value

variable {v w : Value}

theorem key_slot (v : Value) : v.slot.key = v := by cases v <;> rfl

theorem isHashable_slot (v : Value) : v.slot.isHashable = v.isKey := by cases v <;> rfl

/-- Marking truth values makes the comparison of the dictionary the equality of keys. -/
theorem agrees_slot (hv : v.isKey = true) (hw : w.isKey = true) :
    v.slot.agrees w.slot = v.same w := by
  rw [same_eq_loose hv hw]
  cases v <;> cases w <;> simp [slot, Slot.agrees, isTruthValue, loose, looseInt?]
  case bool.bool b c => cases b <;> cases c <;> decide

end Value

def Entries.stored (entries : Entries) : Dictionary := entries.map fun e => (e.1.slot, e.2)

namespace Dictionary

variable {entries : Entries} {key : Value}

theorem stored_cons (e : Value × Value) (entries : Entries) :
    Entries.stored (e :: entries) = (e.1.slot, e.2) :: Entries.stored entries := rfl

/-- The dictionary compares what it holds with the slot it is asked for, and the entries the other
way round. -/
theorem agrees_eq_equals {e : Value × Value} (h : Entries.BuiltKeys entries) (he : e ∈ entries)
    (hkey : key.isKey = true) (hbuilt : key.Built) :
    e.1.slot.agrees key.slot = key.equals e.1 := by
  rw [Value.agrees_slot (h.keyed.usable e he) hkey, Value.equals_eq_same]
  exact (h.built e he).same_comm hbuilt

theorem find?_stored (h : Entries.BuiltKeys entries) (hkey : key.isKey = true)
    (hbuilt : key.Built) : find? key.slot (Entries.stored entries) = Entries.find? key entries := by
  induction entries with
  | nil => rfl
  | cons e entries ih =>
    rw [stored_cons, find?, Entries.find?, agrees_eq_equals h List.mem_cons_self hkey hbuilt,
      ih h.tail]

theorem write_stored (h : Entries.BuiltKeys entries) (hkey : key.isKey = true)
    (hbuilt : key.Built) (value : Value) :
    write key.slot value (Entries.stored entries) =
      Entries.stored (Entries.insert key value entries) := by
  induction entries with
  | nil => rfl
  | cons e entries ih =>
    rw [stored_cons, write, Entries.insert, agrees_eq_equals h List.mem_cons_self hkey hbuilt,
      ih h.tail]
    split
    · rfl
    · rfl

theorem remove_stored (h : Entries.BuiltKeys entries) (hkey : key.isKey = true)
    (hbuilt : key.Built) :
    remove key.slot (Entries.stored entries) = Entries.stored (Entries.erase key entries) := by
  induction entries with
  | nil => rfl
  | cons e entries ih =>
    rw [stored_cons, remove, Entries.erase, agrees_eq_equals h List.mem_cons_self hkey hbuilt,
      ih h.tail]
    split
    · rfl
    · rfl

/-- A dictionary gives a stored value out when the entries do, and a default where the key is
missing. -/
theorem pop_stored (h : Entries.BuiltKeys entries) (hbuilt : key.Built) :
    pop key.slot none (Entries.stored entries) =
        (Entries.take key entries).map (fun r => (r.1, Entries.stored r.2)) ∧
      ∀ default, pop key.slot (some default) (Entries.stored entries) =
        (Entries.takeOr key default entries).map (fun r => (r.1, Entries.stored r.2)) := by
  have hempty : (Entries.stored entries).isEmpty = entries.isEmpty := by
    rw [Entries.stored, List.isEmpty_map]
  simp only [pop, Entries.takeOr, Entries.take, Entries.access, hempty, Value.isHashable_slot]
  cases entries.isEmpty with
  | true => exact ⟨rfl, fun default => rfl⟩
  | false =>
    cases hkey : key.isKey with
    | false => exact ⟨rfl, fun default => rfl⟩
    | true =>
      rw [find?_stored h hkey hbuilt, remove_stored h hkey hbuilt]
      cases Entries.find? key entries with
      | none => exact ⟨rfl, fun default => rfl⟩
      | some value => exact ⟨rfl, fun default => rfl⟩

/-- No two entries have the same key, so only the first with the key can be the one asked for. -/
theorem holds_stored (h : Entries.BuiltKeys entries) (hkey : key.isKey = true)
    (hbuilt : key.Built) (value : Value) :
    holds key.slot value (Entries.stored entries) =
      entries.any fun e => key.same e.1 && value.loose e.2 := by
  rw [holds, find?_stored h hkey hbuilt]
  induction entries with
  | nil => rfl
  | cons e entries ih =>
    rw [Entries.find?, Value.equals_eq_same, List.any_cons]
    cases he : key.same e.1 with
    | true =>
      have hothers : (entries.any fun f => key.same f.1 && value.loose f.2) = false :=
        List.any_eq_false.mpr fun f hf => by rw [h.same_eq_false hbuilt he hf]; simp
      simp [hothers]
    | false => simpa using ih h.tail

theorem looseWithin_eq_all {es fs : Entries} (hes : Entries.BuiltKeys es)
    (hfs : Entries.BuiltKeys fs) :
    Value.looseWithin es fs = (Entries.stored es).all fun stored =>
      (Entries.stored fs).holds stored.1 stored.2 := by
  induction es with
  | nil => rfl
  | cons e es ih =>
    have hkey := hes.keyed.usable e List.mem_cons_self
    have hbuilt := hes.built e List.mem_cons_self
    rw [Value.looseWithin, stored_cons, List.all_cons, ih hes.tail,
      holds_stored hfs hkey hbuilt]

/-- The loose comparison of tables is that of their dictionaries. -/
theorem agrees_stored {es fs : Entries} (hes : Entries.BuiltKeys es)
    (hfs : Entries.BuiltKeys fs) (metadata metadata' : Value) :
    (Entries.stored es).agrees (Entries.stored fs) =
      Value.loose (.table es metadata) (.table fs metadata') := by
  rw [Value.loose, looseWithin_eq_all hes hfs, agrees, Entries.stored, Entries.stored,
    List.length_map, List.length_map]

end Dictionary

namespace Table

def stored (table : Table) : StoredTable := ⟨Entries.stored table.entries, table.metadata⟩

variable {table : Table} {key : Value}

theorem keys_stored (table : Table) : table.stored.keys = Entries.keys table.entries := by
  simp [StoredTable.keys, stored, Entries.stored, Entries.keys, Value.key_slot]

theorem items_stored (table : Table) : table.stored.items = table.entries := by
  simp [StoredTable.items, stored, Entries.stored, Function.comp_def, Value.key_slot]

theorem item_stored (h : Entries.BuiltKeys table.entries) (hbuilt : key.Built) :
    table.stored.item key = Entries.access key table.entries := by
  rw [StoredTable.item, Dictionary.item, Value.isHashable_slot, Entries.access]
  cases hkey : key.isKey with
  | true =>
    have hfind := Dictionary.find?_stored h hkey hbuilt
    cases hvalue : Entries.find? key table.entries with
    | none => simp [stored, hfind, hvalue]
    | some value => simp [stored, hfind, hvalue]
  | false => rfl

theorem contains_stored (h : Entries.BuiltKeys table.entries) (hbuilt : key.Built) :
    table.stored.contains key = (Entries.lookup? key table.entries).isSome := by
  rw [StoredTable.contains, Dictionary.contains, Value.isHashable_slot, Entries.lookup?]
  cases hkey : key.isKey with
  | true => simp [stored, Dictionary.find?_stored h hkey hbuilt]
  | false => rfl

theorem lookup_stored (h : Entries.BuiltKeys table.entries) (hbuilt : key.Built)
    (default : Value) :
    table.stored.lookup key default = (Entries.lookup? key table.entries).getD default := by
  rw [StoredTable.lookup, Dictionary.get, Value.isHashable_slot, Entries.lookup?]
  cases hkey : key.isKey with
  | true => simp [stored, Dictionary.find?_stored h hkey hbuilt]
  | false => rfl

theorem put_stored (h : Entries.BuiltKeys table.entries) (hbuilt : key.Built) (value : Value) :
    table.stored.put key value = if key.isKey then
      .ok (stored { table with entries := Entries.insert key value table.entries })
    else .error key := by
  rw [StoredTable.put, Dictionary.set, Value.isHashable_slot]
  cases hkey : key.isKey with
  | true =>
    have hwrite := Dictionary.write_stored h hkey hbuilt value
    simp [stored, hwrite]
  | false => rfl

theorem putAll_stored {pairs : List (Value × Value)} (h : Entries.BuiltKeys table.entries)
    (hpairs : ∀ pair ∈ pairs, pair.1.Built) :
    table.stored.putAll pairs =
      (Entries.insertAll table.entries pairs).map fun entries =>
        stored { table with entries } := by
  induction pairs generalizing table with
  | nil => rfl
  | cons pair pairs ih =>
    obtain ⟨hbuilt, hothers⟩ := List.forall_mem_cons.mp hpairs
    rw [StoredTable.putAll, List.foldlM_cons, put_stored h hbuilt, Entries.insertAll]
    cases hkey : pair.1.isKey with
    | true => exact ih (h.insert hkey hbuilt pair.2) hothers
    | false => rfl

/-- Copying a table writes its entries to an empty one, which gives the same entries. -/
theorem copy_stored (h : Entries.BuiltKeys table.entries) (metadata : Value) :
    table.stored.copy metadata = .ok (stored { table with metadata }) := by
  have hempty : Entries.BuiltKeys (⟨[], metadata⟩ : Table).entries := Entries.builtKeys_nil
  have hput := putAll_stored hempty h.built
  rw [Entries.insertAll_nil h.keyed] at hput
  rw [StoredTable.copy, items_stored]
  exact hput

theorem pop_stored (h : Entries.BuiltKeys table.entries) (hbuilt : key.Built)
    (default : Option Value) :
    (table.stored.pop key default).mapError .access =
      (table.apply (.pop key default)).map fun r => (r.1, r.2.stored) := by
  obtain ⟨hnone, hsome⟩ := Dictionary.pop_stored h hbuilt
  cases default with
  | none =>
    rw [StoredTable.pop, stored, hnone, apply]
    cases Entries.take key table.entries with
    | ok r => rfl
    | error f => rfl
  | some default =>
    rw [StoredTable.pop, stored, hsome default, apply]
    cases Entries.takeOr key default table.entries with
    | ok r => rfl
    | error f => rfl

/-- Dropping a key erases it, unless it cannot be one. -/
theorem drop_stored (h : Entries.BuiltKeys table.entries) (hbuilt : key.Built) :
    table.stored.drop key = stored { table with
      entries := Entries.eraseAll [key] table.entries } := by
  rw [Entries.eraseAll_eq_without h (List.forall_mem_singleton.mpr hbuilt)]
  have hpop := (Dictionary.pop_stored h hbuilt).2 .nil
  cases hvalue : Entries.valueAt? key table.entries with
  | some value =>
    rw [Entries.takeOr, Entries.take_of_valueAt? h hbuilt hvalue] at hpop
    rw [StoredTable.drop, StoredTable.pop, stored, hpop]
    rfl
  | none =>
    have hsame : Entries.without [key] table.entries = table.entries :=
      Entries.without_of_none hvalue
    rw [Entries.takeOr, Entries.take_of_none hvalue] at hpop
    rw [StoredTable.drop, StoredTable.pop, stored, hpop, hsame]
    cases !table.entries.isEmpty && !key.isKey with
    | true => rfl
    | false => rfl

theorem foldl_drop_stored {keys : List Value} (h : Entries.BuiltKeys table.entries)
    (hbuilt : ∀ key ∈ keys, key.Built) :
    keys.foldl StoredTable.drop table.stored =
      stored { table with entries := Entries.eraseAll keys table.entries } := by
  induction keys generalizing table with
  | nil => rfl
  | cons key keys ih =>
    obtain ⟨hkey, hkeys⟩ := List.forall_mem_cons.mp hbuilt
    rw [List.foldl_cons, drop_stored h hkey]
    exact ih (h.sublist (Entries.eraseAll_sublist [key] _)) hkeys

end Table

namespace StoredTable

def changed : Except Value StoredTable → Except TableFault (Value × StoredTable)
  | .ok table => .ok (.nil, table)
  | .error key => .error (.fault (.kind (.unusableKey key)))

def apply (table : StoredTable) : TableChange → Except TableFault (Value × StoredTable)
  | .put key value => changed (table.put key value)
  | .assoc pairs => changed (table.assoc pairs)
  | .dissoc keys => changed (table.dissoc keys)
  | .pop key default => (table.pop key default).mapError .access
  | .withMetadata metadata => changed (table.copy metadata)

def after (table : StoredTable) : Except TableFault (Value × StoredTable) → StoredTable
  | .ok (_, next) => next
  | .error _ => table

def run (table : StoredTable) (changes : List TableChange) : StoredTable :=
  changes.foldl (fun table change => table.after (table.apply change)) table

end StoredTable

namespace Table

variable {table : Table} {change : TableChange} {pairs : List (Value × Value)}

theorem changed_putAll (h : Entries.BuiltKeys table.entries)
    (hpairs : ∀ pair ∈ pairs, pair.1.Built) :
    StoredTable.changed (table.stored.putAll pairs) =
      (table.apply (.assoc pairs)).map fun r => (r.1, r.2.stored) := by
  rw [putAll_stored h hpairs, apply, write, writeEntries, Entries.insertMany_eq_insertAll]
  cases Entries.insertAll table.entries pairs with
  | ok entries => rfl
  | error key => rfl

theorem apply_stored (h : Entries.BuiltKeys table.entries) (hbuilt : change.Built) :
    table.stored.apply change = (table.apply change).map fun r => (r.1, r.2.stored) := by
  cases change with
  | put key value =>
    have hone : table.stored.putAll [(key, value)] = table.stored.put key value :=
      bind_pure (table.stored.put key value)
    rw [StoredTable.apply, ← hone]
    exact changed_putAll h (List.forall_mem_singleton.mpr (hbuilt key List.mem_cons_self))
  | assoc pairs =>
    rw [StoredTable.apply, StoredTable.assoc, copy_stored h]
    exact changed_putAll h (List.forall_mem_map.mp hbuilt)
  | dissoc keys =>
    have hkeys : ∀ key ∈ keys, key.Built := hbuilt
    rw [StoredTable.apply, StoredTable.dissoc, copy_stored h, apply,
      Entries.eraseMany_eq_eraseAll]
    exact congrArg (fun t => Except.ok (Value.nil, t)) (foldl_drop_stored h hkeys)
  | pop key default => exact pop_stored h (hbuilt key List.mem_cons_self) default
  | withMetadata metadata =>
    rw [StoredTable.apply, copy_stored h]
    rfl

/-- After any changes the dictionary holds the entries that the same changes leave. -/
theorem run_stored (h : Entries.BuiltKeys table.entries) {changes : List TableChange}
    (hbuilt : ∀ change ∈ changes, change.Built) :
    table.stored.run changes = (table.run apply changes).stored := by
  induction changes generalizing table with
  | nil => rfl
  | cons change changes ih =>
    obtain ⟨hfirst, hothers⟩ := List.forall_mem_cons.mp hbuilt
    have hstep : table.stored.after (table.stored.apply change) =
        (table.after (table.apply change)).stored := by
      rw [apply_stored h hfirst]
      cases table.apply change with
      | ok r => rfl
      | error f => rfl
    rw [StoredTable.run, List.foldl_cons, hstep]
    exact ih (builtKeys_after h hfirst) hothers

/-- A table can be read and changed by way of its dictionary. -/
structure IsStored (table : Table) : Prop where
  keys : table.stored.keys = Entries.keys table.entries
  items : table.stored.items = table.entries
  item : ∀ key, key.Built → table.stored.item key = Entries.access key table.entries
  contains : ∀ key, key.Built →
    table.stored.contains key = (Entries.lookup? key table.entries).isSome
  lookup : ∀ key default, key.Built →
    table.stored.lookup key default = (Entries.lookup? key table.entries).getD default
  changed : ∀ change : TableChange, change.Built →
    table.stored.apply change = (table.apply change).map fun r => (r.1, r.2.stored)
  agrees : ∀ other : Table, Entries.BuiltKeys other.entries →
    table.stored.dictionary.agrees other.stored.dictionary = table.value.loose other.value

theorem isStored (h : Entries.BuiltKeys table.entries) : table.IsStored where
  keys := table.keys_stored
  items := table.items_stored
  item := fun _ hbuilt => item_stored h hbuilt
  contains := fun _ hbuilt => contains_stored h hbuilt
  lookup := fun _ default hbuilt => lookup_stored h hbuilt default
  changed := fun _ hbuilt => apply_stored h hbuilt
  agrees := fun other hother => Dictionary.agrees_stored h hother table.metadata other.metadata

/-- What is made of pairs and changed is a table together with its dictionary. -/
theorem history_isStored {changes : List TableChange} (hpairs : ∀ pair ∈ pairs, pair.1.Built)
    (hchanges : ∀ change ∈ changes, change.Built) (metadata : Value) :
    (StoredTable.changed (StoredTable.ofPairs pairs metadata)).map (·.2) =
        (ofPairs pairs metadata).map stored ∧
      ∀ table, ofPairs pairs metadata = .ok table →
        table.stored.run changes = (table.run apply changes).stored ∧
          (table.run apply changes).IsStored := by
  have hempty : Entries.BuiltKeys (⟨[], metadata⟩ : Table).entries := Entries.builtKeys_nil
  have hmade := changed_putAll hempty hpairs
  refine ⟨?_, fun table hstart => ?_⟩
  · rw [ofPairs]
    refine (congrArg (Except.map (·.2)) hmade).trans ?_
    cases (⟨[], metadata⟩ : Table).apply (.assoc pairs) with
    | ok r => rfl
    | error f => rfl
  · have hkeys := builtKeys_ofPairs hpairs hstart
    exact ⟨run_stored hkeys hchanges, isStored (run_apply hkeys hchanges).2⟩

end Table

end SmallLisp
