import SmallLisp.Proofs.TableKeys
import SmallLisp.Proofs.ValueParts
import SmallLisp.Store

/-! # How the frames of a store are linked

The store does not say which frames enclose a frame; the scopes do, wherever they occur. A layout
gives one chain of enclosing frames to every frame. A store fits a layout if all scopes in it
follow the layout, all tables in it have proper keys and, unless the layout is tolerant, no value
in it holds an error value at any depth.
-/
namespace SmallLisp

/-- The chains of enclosing frames by frame. The chain of a frame is its outer frame followed by
the chain of that, and only the global frame `home` has no outer frame. A tolerant layout allows
error values inside data. -/
structure Layout (home : FrameId) (tolerant : Bool) where
  links : List (List FrameId)
  home_global : links[home]? = some []
  nested : ∀ f chain, links[f]? = some chain → (f = home ∧ chain = []) ∨
    ∃ outer : Scope, links[outer.here]? = some outer.enclosing ∧ chain = outer.frames

variable {home : FrameId} {tolerant : Bool} {layout layout' : Layout home tolerant}

def Layout.Within (layout layout' : Layout home tolerant) : Prop :=
  layout.links <+: layout'.links

theorem Layout.Within.refl (layout : Layout home tolerant) : layout.Within layout :=
  List.prefix_refl _

theorem Layout.Within.trans {layout'' : Layout home tolerant} (h : layout.Within layout')
    (h' : layout'.Within layout'') : layout.Within layout'' :=
  List.IsPrefix.trans h h'

def Scope.In (layout : Layout home tolerant) (scope : Scope) : Prop :=
  layout.links[scope.here]? = some scope.enclosing

theorem Scope.in_global (layout : Layout home tolerant) : (Scope.global home).In layout :=
  layout.home_global

theorem Scope.In.mono {scope : Scope} (h : scope.In layout) (hl : layout.Within layout') :
    scope.In layout' := by
  obtain ⟨added, hadded⟩ := hl
  have hlt : scope.here < layout.links.length := (List.getElem?_eq_some_iff.mp h).1
  rw [Scope.In, ← hadded, List.getElem?_append_left hlt]
  exact h

def Layout.Admits (layout : Layout home tolerant) : Value → Prop
  | .table entries _ => Entries.Keyed entries
  | .native _ _ global _ => global = home
  | .closure _ _ _ scope _ _ => scope.In layout
  | .error .. => tolerant = true
  | _ => True

theorem Layout.Admits.mono (hl : layout.Within layout') {v : Value} (h : layout.Admits v) :
    layout'.Admits v := by
  cases v with
  | closure => exact Scope.In.mono h hl
  | _ => exact h

namespace Value

def Valid (layout : Layout home tolerant) (v : Value) : Prop := v.Every layout.Admits

theorem Valid.mono {v : Value} (h : v.Valid layout) (hl : layout.Within layout') :
    v.Valid layout' :=
  Every.mono (fun _ hu => hu.mono hl) h

theorem forall_valid_mono {vs : List Value} (h : ∀ v ∈ vs, v.Valid layout)
    (hl : layout.Within layout') : ∀ v ∈ vs, v.Valid layout' :=
  fun v hv => (h v hv).mono hl

def IsResult (layout : Layout home tolerant) (v : Value) : Prop :=
  v.Valid layout ∨ ∃ message, v = .error message none

theorem IsResult.valid {v : Value} (h : v.IsResult layout) (hv : v.isError = false) :
    v.Valid layout := by
  rcases h with h | ⟨message, rfl⟩
  · exact h
  · cases hv

theorem valid_nil : Value.nil.Valid layout := every_of_parts_nil trivial rfl

theorem valid_bool (b : Bool) : (Value.bool b).Valid layout := every_of_parts_nil trivial rfl

theorem valid_int (n : Int) : (Value.int n).Valid layout := every_of_parts_nil trivial rfl

theorem valid_str (text : String) : (Value.str text).Valid layout :=
  every_of_parts_nil trivial rfl

theorem valid_symbol (name : String) : (Value.symbol name).Valid layout :=
  every_of_parts_nil trivial rfl

theorem valid_keyword (name : String) : (Value.keyword name).Valid layout :=
  every_of_parts_nil trivial rfl

theorem valid_atom (cell : CellId) : (Value.atom cell).Valid layout :=
  every_of_parts_nil trivial rfl

theorem valid_list {items : List Value} {metadata : Value} {identity : Option Identity} :
    (Value.list items metadata identity).Valid layout ↔
      metadata.Valid layout ∧ ∀ v ∈ items, v.Valid layout := by
  rw [Valid, every_list]
  exact and_iff_right trivial

theorem valid_vector {items : List Value} {metadata : Value} {identity : Option Identity} :
    (Value.vector items metadata identity).Valid layout ↔
      metadata.Valid layout ∧ ∀ v ∈ items, v.Valid layout := by
  rw [Valid, every_vector]
  exact and_iff_right trivial

theorem valid_table {entries : List (Value × Value)} {metadata : Value} :
    (Value.table entries metadata).Valid layout ↔ Entries.Keyed entries ∧
      metadata.Valid layout ∧ ∀ e ∈ entries, e.1.Valid layout ∧ e.2.Valid layout :=
  every_table

theorem valid_native {id : Identity} {op : Builtin} {global : FrameId} {metadata : Value} :
    (Value.native id op global metadata).Valid layout ↔
      global = home ∧ metadata.Valid layout :=
  every_native

theorem valid_closure {id : Identity} {parameters : Parameters} {body : Value} {scope : Scope}
    {expands : Bool} {metadata : Value} :
    (Value.closure id parameters body scope expands metadata).Valid layout ↔
      scope.In layout ∧ body.Valid layout ∧ metadata.Valid layout :=
  every_closure

theorem Valid.payload {message : String} {cause : Option Value}
    (h : (Value.error message cause).Valid layout) : (payload message cause).Valid layout := by
  cases cause with
  | none => exact valid_str message
  | some v => exact h.inside v List.mem_cons_self

theorem valid_ofList {items : List Value} (h : ∀ v ∈ items, v.Valid layout) :
    (ofList items).Valid layout :=
  valid_list.mpr ⟨valid_nil, h⟩

theorem valid_ofVector {items : List Value} (h : ∀ v ∈ items, v.Valid layout) :
    (ofVector items).Valid layout :=
  valid_vector.mpr ⟨valid_nil, h⟩

theorem valid_ofEntries {entries : Entries} (hkeyed : Entries.Keyed entries)
    (h : ∀ e ∈ entries, e.1.Valid layout ∧ e.2.Valid layout) :
    (ofEntries entries).Valid layout :=
  valid_table.mpr ⟨hkeyed, valid_nil, h⟩

end Value

namespace Frame

def Valid (layout : Layout home tolerant) (frame : Frame) : Prop := ∀ b ∈ frame, b.2.Valid layout

theorem Valid.mono {frame : Frame} (h : frame.Valid layout) (hl : layout.Within layout') :
    frame.Valid layout' :=
  fun b hb => (h b hb).mono hl

theorem valid_nil : Frame.Valid layout [] := List.forall_mem_nil _

theorem Valid.find? {frame : Frame} (h : frame.Valid layout) {name : String} {v : Value}
    (hv : frame.find? name = some v) : v.Valid layout := by
  induction frame with
  | nil => cases hv
  | cons b frame ih =>
    simp only [Frame.find?] at hv
    split at hv
    · cases hv
      exact h b List.mem_cons_self
    · exact ih (fun c hc => h c (List.mem_cons_of_mem b hc)) hv

theorem Valid.bind {frame : Frame} (h : frame.Valid layout) (name : String) {v : Value}
    (hv : v.Valid layout) : (frame.bind name v).Valid layout := by
  induction frame with
  | nil => exact List.forall_mem_singleton.mpr hv
  | cons b frame ih =>
    obtain ⟨hb, hframe⟩ := List.forall_mem_cons.mp h
    simp only [Frame.bind]
    split
    · exact List.forall_mem_cons.mpr ⟨hv, hframe⟩
    · exact List.forall_mem_cons.mpr ⟨hb, ih hframe⟩

theorem Valid.bindAll {frame : Frame} (h : frame.Valid layout)
    {bindings : List (String × Value)} (hb : ∀ b ∈ bindings, b.2.Valid layout) :
    (frame.bindAll bindings).Valid layout := by
  induction bindings generalizing frame with
  | nil => exact h
  | cons b bindings ih =>
    obtain ⟨hhead, htail⟩ := List.forall_mem_cons.mp hb
    exact ih (h.bind b.1 hhead) htail

theorem names_bind (frame : Frame) (name : String) (v : Value) :
    frame.names <+: (frame.bind name v).names := by
  induction frame with
  | nil => exact List.nil_prefix
  | cons b frame ih =>
    simp only [Frame.bind]
    split
    · exact List.prefix_refl _
    · exact (List.prefix_cons_inj b.1).mpr ih

end Frame

structure Store.Fits (layout : Layout home tolerant) (store : Store) : Prop where
  size_eq : store.frames.size = layout.links.length
  bindings : ∀ f, (store.frame f).Valid layout
  contents : ∀ cell, (store.heap.content cell).Valid layout

theorem Store.Fits.lookup? {store : Store} (h : store.Fits layout) {scope : Scope}
    {name : String} {v : Value} (hv : store.lookup? scope name = some v) : v.Valid layout := by
  obtain ⟨f, _, hf⟩ := List.exists_of_findSome?_eq_some hv
  exact (h.bindings f).find? hf

end SmallLisp
