import SmallLisp.Value.Entries

/-! # What holds of a value at every depth

The parts of a value are the values directly inside it. The content of a cell is no part of the
cell, and the bindings a function can see are no parts of the function: both are in the store.
-/
namespace SmallLisp.Value

def parts : Value → List Value
  | .list items metadata _ => metadata :: items
  | .vector items metadata _ => metadata :: items
  | .table entries metadata => metadata :: (Entries.keys entries ++ Entries.values entries)
  | .native _ _ _ metadata => [metadata]
  | .closure _ _ body _ _ metadata => [body, metadata]
  | .error _ cause => cause.toList
  | _ => []

/-- A property that a value and everything inside it has. -/
inductive Every (p : Value → Prop) : Value → Prop
  | intro {v : Value} (root : p v) (inside : ∀ u ∈ v.parts, Every p u) : Every p v

variable {p q : Value → Prop} {v : Value}

theorem every_iff : Every p v ↔ p v ∧ ∀ u ∈ v.parts, Every p u := by
  constructor
  · intro h
    cases h with
    | intro root inside => exact ⟨root, inside⟩
  · intro h
    exact .intro h.1 h.2

theorem Every.root (h : Every p v) : p v := (every_iff.mp h).1

theorem Every.inside (h : Every p v) : ∀ u ∈ v.parts, Every p u := (every_iff.mp h).2

theorem Every.mono (hpq : ∀ u, p u → q u) (h : Every p v) : Every q v := by
  induction h with
  | intro root _ ih => exact .intro (hpq _ root) ih

theorem every_of_parts_nil (hp : p v) (hparts : v.parts = []) : Every p v := by
  refine .intro hp ?_
  rw [hparts]
  exact List.forall_mem_nil _

theorem every_list {items : List Value} {metadata : Value} {identity : Option Identity} :
    Every p (.list items metadata identity) ↔
      p (.list items metadata identity) ∧ Every p metadata ∧ ∀ u ∈ items, Every p u := by
  rw [every_iff, parts, List.forall_mem_cons]

theorem every_vector {items : List Value} {metadata : Value} {identity : Option Identity} :
    Every p (.vector items metadata identity) ↔
      p (.vector items metadata identity) ∧ Every p metadata ∧ ∀ u ∈ items, Every p u := by
  rw [every_iff, parts, List.forall_mem_cons]

theorem every_table {entries : List (Value × Value)} {metadata : Value} :
    Every p (.table entries metadata) ↔ p (.table entries metadata) ∧ Every p metadata ∧
      ∀ e ∈ entries, Every p e.1 ∧ Every p e.2 := by
  rw [every_iff, parts, List.forall_mem_cons, List.forall_mem_append, Entries.keys,
    Entries.values, List.forall_mem_map, List.forall_mem_map]
  constructor
  · rintro ⟨hroot, hmetadata, hkeys, hvalues⟩
    exact ⟨hroot, hmetadata, fun e he => ⟨hkeys e he, hvalues e he⟩⟩
  · rintro ⟨hroot, hmetadata, hentries⟩
    exact ⟨hroot, hmetadata, fun e he => (hentries e he).1, fun e he => (hentries e he).2⟩

theorem every_native {id : Identity} {op : Builtin} {home : FrameId} {metadata : Value} :
    Every p (.native id op home metadata) ↔
      p (.native id op home metadata) ∧ Every p metadata := by
  rw [every_iff, parts, List.forall_mem_singleton]

theorem every_closure {id : Identity} {parameters : Parameters} {body : Value} {scope : Scope}
    {expands : Bool} {metadata : Value} :
    Every p (.closure id parameters body scope expands metadata) ↔
      p (.closure id parameters body scope expands metadata) ∧ Every p body ∧ Every p metadata := by
  rw [every_iff, parts, List.forall_mem_cons, List.forall_mem_singleton]

/-- The elements of a sequence have what the sequence has at every depth. -/
theorem Every.elements {items : List Value} (h : Every p v) (hitems : v.elements? = some items) :
    ∀ u ∈ items, Every p u := by
  cases v with
  | nil =>
    cases hitems
    exact List.forall_mem_nil _
  | list items metadata identity =>
    cases hitems
    exact (every_list.mp h).2.2
  | vector items metadata identity =>
    cases hitems
    exact (every_vector.mp h).2.2
  | _ => cases hitems

theorem Every.metadata {metadata : Value} (h : Every p v) (hm : v.metadata? = some metadata) :
    Every p metadata := by
  cases v with
  | list => cases hm; exact (every_list.mp h).2.1
  | vector => cases hm; exact (every_vector.mp h).2.1
  | table => cases hm; exact (every_table.mp h).2.1
  | native => cases hm; exact (every_native.mp h).2
  | closure => cases hm; exact (every_closure.mp h).2.2
  | _ => cases hm

end SmallLisp.Value
