import Mathlib.Data.List.Perm.Subperm
import Mathlib.Logic.Relation
import SmallLisp.Proofs.Printing
import SmallLisp.Proofs.Reading

/-! # Values that have a text

A value can be printed just if what is shown of it comes to an end, whatever way is taken into it,
and holds no integer that is too long to be written. So a cell that shows itself cannot be printed,
and everything that the reader makes has a representation.
-/
namespace SmallLisp

def Value.shown (heap : Heap) : Value → List Value
  | .list items _ _ => items
  | .vector items _ _ => items
  | .table entries _ => Entries.keys entries ++ Entries.values entries
  | .atom id => [heap.content id]
  | .error _ cause => cause.toList
  | _ => []

/-- No integer that is shown is too long, and every way into the value comes to an end. -/
inductive Printable (heap : Heap) : Value → Prop where
  | intro {v : Value} (hnumeral : ∀ n, v = .int n → n.natAbs < Text.numeralBound)
      (hshown : ∀ u ∈ v.shown heap, Printable heap u) : Printable heap v

def Shows (heap : Heap) (v u : Value) : Prop := u ∈ v.shown heap

variable {heap : Heap} {readable : Bool} {cell : CellId → Except Abort (List Char)} {v : Value}

theorem Printable.not_inside_itself (h : Printable heap v) :
    ¬ Relation.TransGen (Shows heap) v v := by
  induction h with
  | intro _ _ ih =>
    intro hinside
    obtain ⟨u, hshows, hback⟩ := Relation.TransGen.head'_iff.mp hinside
    exact ih u hshows (Relation.TransGen.tail' hback hshows)

theorem bind_eq_ok_iff {α β : Type} {x : Except Abort α} {f : α → Except Abort β} {b : β} :
    (x >>= f) = .ok b ↔ ∃ a, x = .ok a ∧ f a = .ok b := by
  cases x with
  | error reason => exact ⟨nofun, nofun⟩
  | ok a => exact ⟨fun h => ⟨a, rfl, h⟩, fun ⟨_, ha, h⟩ => by cases ha; exact h⟩

theorem exists_numeralText_iff {n : Int} :
    (∃ text, numeralText n = .ok text) ↔ n.natAbs < Text.numeralBound := by
  unfold numeralText
  by_cases hshort : n.natAbs < Text.numeralBound
  · obtain ⟨text, htext⟩ := Text.exists_numeral hshort
    rw [htext]
    exact iff_of_true ⟨_, rfl⟩ hshort
  · have hnone : Text.numeral? n = none := if_neg hshort
    rw [hnone]
    exact iff_of_false nofun hshort

theorem printable_int {n : Int} (h : n.natAbs < Text.numeralBound) : Printable heap (.int n) := by
  refine .intro (fun m hm => ?_) nofun
  cases hm
  exact h

theorem printable_of_shown (hv : v.isNumber = false)
    (hshown : ∀ u ∈ v.shown heap, Printable heap u) : Printable heap v := by
  refine .intro (fun n hn => ?_) hshown
  subst hn
  cases hv

mutual

theorem printable_of_render
    (hcell : ∀ id text, cell id = .ok text → Printable heap (heap.content id)) :
    ∀ (v : Value) (text : List Char), v.render readable cell = .ok text → Printable heap v
  | .int n => fun text h => by
    rw [Value.render] at h
    exact printable_int (exists_numeralText_iff.mp ⟨text, h⟩)
  | .list items metadata identity => fun text h => by
    obtain ⟨parts, hparts, _⟩ := bind_eq_ok_iff.mp h
    exact printable_of_shown rfl (printable_of_renderAll hcell items parts hparts)
  | .vector items metadata identity => fun text h => by
    obtain ⟨parts, hparts, _⟩ := bind_eq_ok_iff.mp h
    exact printable_of_shown rfl (printable_of_renderAll hcell items parts hparts)
  | .table entries metadata => fun text h => by
    obtain ⟨parts, hparts, _⟩ := bind_eq_ok_iff.mp h
    have hentries := printable_of_renderEntries hcell entries parts hparts
    refine printable_of_shown rfl (List.forall_mem_append.mpr ⟨?_, ?_⟩)
    · exact List.forall_mem_map.mpr fun e he => (hentries e he).1
    · exact List.forall_mem_map.mpr fun e he => (hentries e he).2
  | .atom id => fun text h => by
    obtain ⟨content, hcontent, _⟩ := bind_eq_ok_iff.mp h
    exact printable_of_shown rfl (List.forall_mem_singleton.mpr (hcell id content hcontent))
  | .error message (some cause) => fun text h =>
    printable_of_shown rfl (List.forall_mem_singleton.mpr (printable_of_render hcell cause text h))
  | .error message none => fun _ _ => printable_of_shown rfl nofun
  | .nil | .bool _ | .str _ | .symbol _ | .keyword _ | .native _ _ _ _
  | .closure _ _ _ _ _ _ => fun _ _ => printable_of_shown rfl nofun
termination_by structural x => x

theorem printable_of_renderAll
    (hcell : ∀ id text, cell id = .ok text → Printable heap (heap.content id)) :
    ∀ (vs : List Value) (texts : List (List Char)),
      Value.renderAll readable cell vs = .ok texts → ∀ v ∈ vs, Printable heap v
  | [] => fun _ _ => List.forall_mem_nil _
  | v :: vs => fun texts h => by
    obtain ⟨part, hpart, h⟩ := bind_eq_ok_iff.mp h
    obtain ⟨parts, hparts, _⟩ := bind_eq_ok_iff.mp h
    exact List.forall_mem_cons.mpr
      ⟨printable_of_render hcell v part hpart, printable_of_renderAll hcell vs parts hparts⟩
termination_by structural x => x

theorem printable_of_renderEntries
    (hcell : ∀ id text, cell id = .ok text → Printable heap (heap.content id)) :
    ∀ (entries : List (Value × Value)) (texts : List (List Char)),
      Value.renderEntries readable cell entries = .ok texts →
        ∀ e ∈ entries, Printable heap e.1 ∧ Printable heap e.2
  | [] => fun _ _ => List.forall_mem_nil _
  | (k, v) :: entries => fun texts h => by
    obtain ⟨key, hkey, h⟩ := bind_eq_ok_iff.mp h
    obtain ⟨value, hvalue, h⟩ := bind_eq_ok_iff.mp h
    obtain ⟨parts, hparts, _⟩ := bind_eq_ok_iff.mp h
    exact List.forall_mem_cons.mpr
      ⟨⟨printable_of_render hcell k key hkey, printable_of_render hcell v value hvalue⟩,
        printable_of_renderEntries hcell entries parts hparts⟩
termination_by structural x => x

end

theorem printable_of_renderCell {depth : Nat} {around : List CellId} {id : CellId}
    {text : List Char} (h : renderCell readable heap depth around id = .ok text) :
    Printable heap (heap.content id) := by
  induction depth generalizing around id text with
  | zero => cases h
  | succ depth ih =>
    rw [renderCell] at h
    split at h
    · cases h
    · exact printable_of_render (fun _ _ hcell => ih hcell) _ _ h

theorem exists_renderAll {vs : List Value}
    (h : ∀ v ∈ vs, ∃ text, v.render readable cell = .ok text) :
    ∃ texts, Value.renderAll readable cell vs = .ok texts := by
  induction vs with
  | nil => exact ⟨[], rfl⟩
  | cons v vs ih =>
    obtain ⟨hv, hvs⟩ := List.forall_mem_cons.mp h
    obtain ⟨part, hpart⟩ := hv
    obtain ⟨parts, hparts⟩ := ih hvs
    exact ⟨part :: parts, bind_eq_ok_iff.mpr ⟨_, hpart, bind_eq_ok_iff.mpr ⟨_, hparts, rfl⟩⟩⟩

theorem exists_renderEntries {entries : Entries}
    (hkeys : ∀ k ∈ Entries.keys entries, ∃ text, k.render readable cell = .ok text)
    (hvalues : ∀ v ∈ Entries.values entries, ∃ text, v.render readable cell = .ok text) :
    ∃ texts, Value.renderEntries readable cell entries = .ok texts := by
  induction entries with
  | nil => exact ⟨[], rfl⟩
  | cons e entries ih =>
    obtain ⟨⟨key, hkey⟩, hkeys⟩ := List.forall_mem_cons.mp hkeys
    obtain ⟨⟨value, hvalue⟩, hvalues⟩ := List.forall_mem_cons.mp hvalues
    obtain ⟨parts, hparts⟩ := ih hkeys hvalues
    exact ⟨(key ++ ' ' :: value) :: parts, bind_eq_ok_iff.mpr ⟨_, hkey,
      bind_eq_ok_iff.mpr ⟨_, hvalue, bind_eq_ok_iff.mpr ⟨_, hparts, rfl⟩⟩⟩⟩

/-- A value is being printed inside of different cells, which show it, with enough depth left for
all other cells. -/
structure PrintedInside (heap : Heap) (depth : Nat) (around : List CellId) (v : Value) :
    Prop where
  shown : ∀ c ∈ around, Relation.TransGen (Shows heap) (.atom c) v
  distinct : around.Nodup
  existing : ∀ c ∈ around, c < heap.cells.size
  depth_eq : depth + around.length = heap.cells.size + 1

theorem PrintedInside.depth_pos {depth : Nat} {around : List CellId}
    (h : PrintedInside heap depth around v) : 0 < depth := by
  have hcells : around ⊆ List.range heap.cells.size :=
    fun c hc => List.mem_range.mpr (h.existing c hc)
  have hlength := (h.distinct.subperm hcells).length_le
  rw [List.length_range] at hlength
  have hdepth := h.depth_eq
  omega

theorem PrintedInside.part {depth : Nat} {around : List CellId} {u : Value}
    (h : PrintedInside heap depth around v) (hu : u ∈ v.shown heap) :
    PrintedInside heap depth around u :=
  ⟨fun c hc => (h.shown c hc).tail hu, h.distinct, h.existing, h.depth_eq⟩

theorem PrintedInside.content {depth : Nat} {around : List CellId} {id : CellId}
    (h : PrintedInside heap (depth + 1) around (.atom id)) (hid : id ∉ around)
    (hsize : id < heap.cells.size) :
    PrintedInside heap depth (id :: around) (heap.content id) := by
  have hcontent : Shows heap (.atom id) (heap.content id) := List.mem_singleton_self _
  have hdepth := h.depth_eq
  refine ⟨List.forall_mem_cons.mpr ⟨.single hcontent, fun c hc => (h.shown c hc).tail hcontent⟩,
    List.nodup_cons.mpr ⟨hid, h.distinct⟩, List.forall_mem_cons.mpr ⟨hsize, h.existing⟩, ?_⟩
  rw [List.length_cons]
  omega

theorem Heap.content_of_size_le {id : CellId} (h : heap.cells.size ≤ id) :
    heap.content id = .nil := by
  rw [Heap.content, Array.getD_eq_getD_getElem?, Array.getElem?_eq_none h]
  rfl

/-- The induction is on what is shown of the value. No cell around it can be met again, since that
cell would show itself. -/
theorem Printable.exists_render (h : Printable heap v) {depth : Nat} {around : List CellId}
    (hinside : PrintedInside heap depth around v) :
    ∃ text, v.render readable (renderCell readable heap depth around) = .ok text := by
  induction h generalizing depth around with
  | @intro v hnumeral hshown ih =>
    have hparts : ∀ u ∈ v.shown heap,
        ∃ text, u.render readable (renderCell readable heap depth around) = .ok text :=
      fun u hu => ih u hu (hinside.part hu)
    cases v with
    | int n =>
      rw [Value.render]
      exact exists_numeralText_iff.mpr (hnumeral n rfl)
    | list items metadata identity =>
      obtain ⟨texts, htexts⟩ := exists_renderAll hparts
      exact ⟨_, bind_eq_ok_iff.mpr ⟨texts, htexts, rfl⟩⟩
    | vector items metadata identity =>
      obtain ⟨texts, htexts⟩ := exists_renderAll hparts
      exact ⟨_, bind_eq_ok_iff.mpr ⟨texts, htexts, rfl⟩⟩
    | table entries metadata =>
      obtain ⟨hkeys, hvalues⟩ := List.forall_mem_append.mp hparts
      obtain ⟨texts, htexts⟩ := exists_renderEntries hkeys hvalues
      exact ⟨_, bind_eq_ok_iff.mpr ⟨texts, htexts, rfl⟩⟩
    | atom id =>
      obtain ⟨depth, rfl⟩ := Nat.exists_eq_succ_of_ne_zero (Nat.ne_of_gt hinside.depth_pos)
      have hid : id ∉ around := fun hid =>
        (Printable.intro hnumeral hshown).not_inside_itself (hinside.shown id hid)
      have hcontent : ∃ text, (heap.content id).render readable
          (renderCell readable heap depth (id :: around)) = .ok text := by
        -- a cell that does not exist does not count for the depth, but holds nothing either
        by_cases hsize : id < heap.cells.size
        · exact ih _ (List.mem_singleton_self _) (hinside.content hid hsize)
        · rw [Heap.content_of_size_le (Nat.le_of_not_lt hsize)]
          exact ⟨_, rfl⟩
      obtain ⟨text, htext⟩ := hcontent
      refine ⟨_, bind_eq_ok_iff.mpr ⟨text, ?_, rfl⟩⟩
      rw [renderCell, if_neg hid, htext]
    | error message cause =>
      cases cause with
      | none => exact ⟨_, rfl⟩
      | some cause => exact hparts cause (List.mem_singleton_self _)
    | _ => exact ⟨_, rfl⟩

theorem exists_printValue_iff (heap : Heap) (readable : Bool) (v : Value) :
    (∃ text, printValue heap readable v = .ok text) ↔ Printable heap v := by
  constructor
  · rintro ⟨text, htext⟩
    unfold printValue at htext
    cases hrender : v.render readable (cellPrinter readable heap) with
    | error reason =>
      rw [hrender] at htext
      cases htext
    | ok chars => exact printable_of_render (fun _ _ => printable_of_renderCell) v chars hrender
  · intro h
    have hinside : PrintedInside heap (heap.cells.size + 1) [] v :=
      ⟨List.forall_mem_nil _, .nil, List.forall_mem_nil _, rfl⟩
    obtain ⟨chars, hchars⟩ : ∃ chars, v.render readable
        (renderCell readable heap (heap.cells.size + 1) []) = .ok chars := h.exists_render hinside
    exact ⟨String.ofList chars, by rw [printValue, cellPrinter, hchars]; rfl⟩

section Represent

variable {cell : Surroundings → CellId → Except Abort (List Char)} {around : Surroundings}

theorem exists_representAll {vs : List Value}
    (h : ∀ v ∈ vs, ∃ text, v.represent cell around = .ok text) :
    ∃ texts, Value.representAll cell around vs = .ok texts := by
  induction vs with
  | nil => exact ⟨[], rfl⟩
  | cons v vs ih =>
    obtain ⟨hv, hvs⟩ := List.forall_mem_cons.mp h
    obtain ⟨part, hpart⟩ := hv
    obtain ⟨parts, hparts⟩ := ih hvs
    exact ⟨part :: parts, bind_eq_ok_iff.mpr ⟨_, hpart, bind_eq_ok_iff.mpr ⟨_, hparts, rfl⟩⟩⟩

theorem exists_representEntries {entries : Entries}
    (hkeys : ∀ k ∈ Entries.keys entries, ∃ text, k.represent cell around = .ok text)
    (hvalues : ∀ v ∈ Entries.values entries, ∃ text, v.represent cell around = .ok text) :
    ∃ texts, Value.representEntries cell around entries = .ok texts := by
  induction entries with
  | nil => exact ⟨[], rfl⟩
  | cons e entries ih =>
    obtain ⟨⟨key, hkey⟩, hkeys⟩ := List.forall_mem_cons.mp hkeys
    obtain ⟨⟨value, hvalue⟩, hvalues⟩ := List.forall_mem_cons.mp hvalues
    obtain ⟨parts, hparts⟩ := ih hkeys hvalues
    exact ⟨(key ++ ':' :: ' ' :: value) :: parts, bind_eq_ok_iff.mpr ⟨_, hkey,
      bind_eq_ok_iff.mpr ⟨_, hvalue, bind_eq_ok_iff.mpr ⟨_, hparts, rfl⟩⟩⟩⟩

/-- A sequence that is met again is cut short, and otherwise it is enough that its elements have
representations inside of it. -/
theorem exists_represent_list {items : List Value} {metadata : Value}
    {identity : Option Identity}
    (h : ∀ v ∈ items, ∃ text, v.represent cell (around.within identity) = .ok text) :
    (∃ text, (Value.list items metadata identity).represent cell around = .ok text) ∧
      ∃ text, (Value.vector items metadata identity).represent cell around = .ok text := by
  obtain ⟨texts, htexts⟩ := exists_representAll h
  rw [Value.represent, Value.represent]
  split
  · exact ⟨⟨_, rfl⟩, _, rfl⟩
  · exact ⟨⟨_, bind_eq_ok_iff.mpr ⟨texts, htexts, rfl⟩⟩,
      _, bind_eq_ok_iff.mpr ⟨texts, htexts, rfl⟩⟩

end Represent

theorem Value.Plain.exists_represent (h : v.Plain)
    (cell : Surroundings → CellId → Except Abort (List Char)) (around : Surroundings) :
    ∃ text, v.represent cell around = .ok text := by
  induction h generalizing around with
  | @intro v root _ ih =>
    cases v with
    | int n =>
      rw [represent]
      exact exists_numeralText_iff.mpr root
    | list items metadata identity =>
      exact (exists_represent_list fun u hu => ih u (List.mem_cons_of_mem metadata hu) _).1
    | vector items metadata identity =>
      exact (exists_represent_list fun u hu => ih u (List.mem_cons_of_mem metadata hu) _).2
    | table entries metadata =>
      have hparts := fun u hu => ih u (List.mem_cons_of_mem metadata hu) around
      obtain ⟨hkeys, hvalues⟩ := List.forall_mem_append.mp hparts
      obtain ⟨texts, htexts⟩ := exists_representEntries hkeys hvalues
      exact ⟨_, bind_eq_ok_iff.mpr ⟨texts, htexts, rfl⟩⟩
    | atom => cases root
    | native => cases root
    | closure => cases root
    | error => cases root
    | _ => exact ⟨_, rfl⟩

theorem Surroundings.cells_within (around : Surroundings) (identity : Option Identity) :
    ∀ c ∈ (around.within identity).cells, c ∈ around.cells := by
  intro c hc
  cases identity with
  | none => exact hc
  | some identity => cases hc

/-- The cells on the way into a printable value are different, so that the depth is enough even
where a list or vector forgets the cells around it. -/
theorem Printable.exists_represent (h : Printable heap v) {depth : Nat} {path : List CellId}
    (hinside : PrintedInside heap depth path v) {depth' : Nat} (hdepth : depth ≤ depth')
    {around : Surroundings} (haround : ∀ c ∈ around.cells, c ∈ path) :
    ∃ text, v.represent (representCell heap depth') around = .ok text := by
  induction h generalizing depth depth' path around with
  | @intro v hnumeral hshown ih =>
    have hparts : ∀ (around : Surroundings), (∀ c ∈ around.cells, c ∈ path) →
        ∀ u ∈ v.shown heap, ∃ text, u.represent (representCell heap depth') around = .ok text :=
      fun around haround u hu => ih u hu (hinside.part hu) hdepth haround
    have hwithin : ∀ identity, ∀ c ∈ (around.within identity).cells, c ∈ path :=
      fun identity c hc => haround c (around.cells_within identity c hc)
    cases v with
    | int n =>
      rw [Value.represent]
      exact exists_numeralText_iff.mpr (hnumeral n rfl)
    | list items metadata identity =>
      exact (exists_represent_list (hparts _ (hwithin identity))).1
    | vector items metadata identity =>
      exact (exists_represent_list (hparts _ (hwithin identity))).2
    | table entries metadata =>
      obtain ⟨hkeys, hvalues⟩ := List.forall_mem_append.mp (hparts around haround)
      obtain ⟨texts, htexts⟩ := exists_representEntries hkeys hvalues
      exact ⟨_, bind_eq_ok_iff.mpr ⟨texts, htexts, rfl⟩⟩
    | atom id =>
      obtain ⟨depth, rfl⟩ := Nat.exists_eq_succ_of_ne_zero (Nat.ne_of_gt hinside.depth_pos)
      obtain ⟨depth', rfl⟩ := Nat.exists_eq_add_one_of_ne_zero (Nat.ne_zero_of_lt hdepth)
      have hid : id ∉ path := fun hid =>
        (Printable.intro hnumeral hshown).not_inside_itself (hinside.shown id hid)
      have hcontent : ∃ text, (heap.content id).represent (representCell heap depth')
          (around.entering id) = .ok text := by
        by_cases hsize : id < heap.cells.size
        · refine ih _ (List.mem_singleton_self _) (hinside.content hid hsize)
            (Nat.le_of_succ_le_succ hdepth) ?_
          exact List.forall_mem_cons.mpr ⟨List.mem_cons_self .., fun c hc =>
            List.mem_cons_of_mem id (haround c hc)⟩
        · rw [Heap.content_of_size_le (Nat.le_of_not_lt hsize)]
          exact ⟨_, rfl⟩
      obtain ⟨text, htext⟩ := hcontent
      refine ⟨_, bind_eq_ok_iff.mpr ⟨text, ?_, rfl⟩⟩
      rw [representCell, if_neg fun hmem => hid (haround id hmem), htext]
    | error message cause =>
      cases cause with
      | none => exact ⟨_, rfl⟩
      | some cause =>
        obtain ⟨text, htext⟩ := hparts around haround cause (List.mem_singleton_self _)
        exact ⟨_, bind_eq_ok_iff.mpr ⟨_, bind_eq_ok_iff.mpr ⟨text, htext, rfl⟩, rfl⟩⟩
    | _ => exact ⟨_, rfl⟩

theorem Printable.exists_representValue (h : Printable heap v) :
    ∃ text, representValue heap v = .ok text := by
  have hinside : PrintedInside heap (heap.cells.size + 1) [] v :=
    ⟨List.forall_mem_nil _, .nil, List.forall_mem_nil _, rfl⟩
  have hdepth : heap.cells.size + 1 ≤ representationDepth heap :=
    Nat.le_mul_of_pos_left _ (Nat.succ_pos heap.nextIdentity)
  have houtermost : ∀ c ∈ Surroundings.outermost.cells, c ∈ ([] : List CellId) :=
    List.forall_mem_nil _
  obtain ⟨chars, hchars⟩ := h.exists_represent hinside hdepth houtermost
  exact ⟨String.ofList chars, by rw [representValue, hchars]; rfl⟩

/-- A mistake in reading always has a message. -/
theorem ReadingError.Plain.exists_message {f : Fault} (h : (ReadingError.fault f).Plain)
    (heap : Heap) : ∃ text, f.message heap = .ok text := by
  cases f with
  | kind f =>
    cases f with
    | unusableKey key =>
      have hkey : key.Plain := h
      obtain ⟨chars, hchars⟩ :=
        hkey.exists_represent (representCell heap (representationDepth heap)) .outermost
      have htext : representValue heap key = .ok (String.ofList chars) := by
        rw [representValue, hchars]
        rfl
      exact ⟨_, bind_eq_ok_iff.mpr ⟨_, htext, rfl⟩⟩
    | _ => cases h
  | _ => exact ⟨_, rfl⟩

end SmallLisp
