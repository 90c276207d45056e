import SmallLisp.Evaluation.Basic

/-! # Where printing gives up

Printing and representing a value give up for two reasons only: the value has no end, or it holds
an integer with too many digits.
-/
namespace SmallLisp

def Abort.OfPrinting : Abort → Prop
  | .endless => True
  | .longNumeral => True
  | _ => False

def GivesUpFor {α : Type} (reasons : Abort → Prop) (x : Except Abort α) : Prop :=
  ∀ reason, x = .error reason → reasons reason

abbrev PrintsOrGivesUp {α : Type} (x : Except Abort α) : Prop := GivesUpFor Abort.OfPrinting x

section Rules

variable {α β : Type} {reasons : Abort → Prop}

theorem givesUpFor_ok (a : α) : GivesUpFor reasons (.ok a) := fun _ h => nomatch h

theorem GivesUpFor.bind {x : Except Abort α} {f : α → Except Abort β}
    (hx : GivesUpFor reasons x) (hf : ∀ a, GivesUpFor reasons (f a)) :
    GivesUpFor reasons (x >>= f) := by
  intro reason h
  cases x with
  | error e =>
    cases h
    exact hx _ rfl
  | ok a => exact hf a reason h

theorem GivesUpFor.map {x : Except Abort α} (hx : GivesUpFor reasons x) (f : α → β) :
    GivesUpFor reasons (x.map f) := by
  intro reason h
  cases x with
  | error e =>
    cases h
    exact hx _ rfl
  | ok a => cases h

end Rules

theorem givesUpFor_numeralText {reasons : Abort → Prop} (hlong : reasons .longNumeral) (n : Int) :
    GivesUpFor reasons (numeralText n) := by
  intro reason h
  unfold numeralText at h
  split at h
  · cases h
  · cases h
    exact hlong

theorem numeralText_gives_up (n : Int) : PrintsOrGivesUp (numeralText n) :=
  givesUpFor_numeralText trivial n

namespace Value

mutual

theorem render_gives_up (readable : Bool) {cell : CellId → Except Abort (List Char)}
    (hcell : ∀ id, PrintsOrGivesUp (cell id)) :
    ∀ v : Value, PrintsOrGivesUp (v.render readable cell)
  | .nil => givesUpFor_ok _
  | .bool _ => givesUpFor_ok _
  | .int n => numeralText_gives_up n
  | .str _ => givesUpFor_ok _
  | .symbol _ => givesUpFor_ok _
  | .keyword _ => givesUpFor_ok _
  | .list items _ _ =>
    (renderAll_gives_up readable hcell items).bind fun _ => givesUpFor_ok _
  | .vector items _ _ =>
    (renderAll_gives_up readable hcell items).bind fun _ => givesUpFor_ok _
  | .table entries _ =>
    (renderEntries_gives_up readable hcell entries).bind fun _ => givesUpFor_ok _
  | .atom id => (hcell id).bind fun _ => givesUpFor_ok _
  | .native .. => givesUpFor_ok _
  | .closure .. => givesUpFor_ok _
  | .error _ none => givesUpFor_ok _
  | .error _ (some cause) => render_gives_up readable hcell cause

theorem renderAll_gives_up (readable : Bool) {cell : CellId → Except Abort (List Char)}
    (hcell : ∀ id, PrintsOrGivesUp (cell id)) :
    ∀ vs : List Value, PrintsOrGivesUp (renderAll readable cell vs)
  | [] => givesUpFor_ok _
  | v :: vs =>
    (render_gives_up readable hcell v).bind fun _ =>
      (renderAll_gives_up readable hcell vs).bind fun _ => givesUpFor_ok _

theorem renderEntries_gives_up (readable : Bool) {cell : CellId → Except Abort (List Char)}
    (hcell : ∀ id, PrintsOrGivesUp (cell id)) :
    ∀ entries : List (Value × Value), PrintsOrGivesUp (renderEntries readable cell entries)
  | [] => givesUpFor_ok _
  | (k, v) :: entries =>
    (render_gives_up readable hcell k).bind fun _ =>
      (render_gives_up readable hcell v).bind fun _ =>
        (renderEntries_gives_up readable hcell entries).bind fun _ => givesUpFor_ok _

end

mutual

theorem represent_gives_up {cell : Surroundings → CellId → Except Abort (List Char)}
    (hcell : ∀ around id, PrintsOrGivesUp (cell around id)) :
    ∀ (around : Surroundings) (v : Value), PrintsOrGivesUp (v.represent cell around)
  | _, .nil => givesUpFor_ok _
  | _, .bool _ => givesUpFor_ok _
  | _, .int n => numeralText_gives_up n
  | _, .str _ => givesUpFor_ok _
  | _, .symbol _ => givesUpFor_ok _
  | _, .keyword _ => givesUpFor_ok _
  | around, .list items _ identity => by
    rw [represent]
    split
    · exact givesUpFor_ok _
    · exact (representAll_gives_up hcell _ items).bind fun _ => givesUpFor_ok _
  | around, .vector items _ identity => by
    rw [represent]
    split
    · exact givesUpFor_ok _
    · exact (representAll_gives_up hcell _ items).bind fun _ => givesUpFor_ok _
  | around, .table entries _ =>
    (representEntries_gives_up hcell around entries).bind fun _ => givesUpFor_ok _
  | around, .atom id => (hcell around id).bind fun _ => givesUpFor_ok _
  | _, .native .. => givesUpFor_ok _
  | _, .closure .. => givesUpFor_ok _
  | _, .error _ none => givesUpFor_ok _
  | around, .error _ (some cause) =>
    ((represent_gives_up hcell around cause).bind fun _ => givesUpFor_ok _).bind
      fun _ => givesUpFor_ok _

theorem representAll_gives_up {cell : Surroundings → CellId → Except Abort (List Char)}
    (hcell : ∀ around id, PrintsOrGivesUp (cell around id)) :
    ∀ (around : Surroundings) (vs : List Value), PrintsOrGivesUp (representAll cell around vs)
  | _, [] => givesUpFor_ok _
  | around, v :: vs =>
    (represent_gives_up hcell around v).bind fun _ =>
      (representAll_gives_up hcell around vs).bind fun _ => givesUpFor_ok _

theorem representEntries_gives_up {cell : Surroundings → CellId → Except Abort (List Char)}
    (hcell : ∀ around id, PrintsOrGivesUp (cell around id)) :
    ∀ (around : Surroundings) (entries : List (Value × Value)),
      PrintsOrGivesUp (representEntries cell around entries)
  | _, [] => givesUpFor_ok _
  | around, (k, v) :: entries =>
    (represent_gives_up hcell around k).bind fun _ =>
      (represent_gives_up hcell around v).bind fun _ =>
        (representEntries_gives_up hcell around entries).bind fun _ => givesUpFor_ok _

end

end Value

theorem renderCell_gives_up (readable : Bool) (heap : Heap) (depth : Nat)
    (around : List CellId) (id : CellId) :
    PrintsOrGivesUp (renderCell readable heap depth around id) := by
  induction depth generalizing around id with
  | zero =>
    intro reason h
    cases h
    trivial
  | succ depth ih =>
    rw [renderCell]
    split
    · intro reason h
      cases h
      trivial
    · exact Value.render_gives_up readable (ih _) _

theorem representCell_gives_up (heap : Heap) (depth : Nat) (around : Surroundings)
    (id : CellId) : PrintsOrGivesUp (representCell heap depth around id) := by
  induction depth generalizing around id with
  | zero =>
    intro reason h
    cases h
    trivial
  | succ depth ih =>
    rw [representCell]
    split
    · intro reason h
      cases h
      trivial
    · exact Value.represent_gives_up ih _ _

theorem printValue_gives_up (heap : Heap) (readable : Bool) (v : Value) :
    PrintsOrGivesUp (printValue heap readable v) :=
  (Value.render_gives_up readable (renderCell_gives_up readable heap _ _) v).map _

theorem printJoined_gives_up (heap : Heap) (readable : Bool) (separator : String)
    (vs : List Value) : PrintsOrGivesUp (printJoined heap readable separator vs) :=
  (Value.renderAll_gives_up readable (renderCell_gives_up readable heap _ _) vs).map _

theorem representValue_gives_up (heap : Heap) (v : Value) :
    PrintsOrGivesUp (representValue heap v) :=
  (Value.represent_gives_up (representCell_gives_up heap _) _ v).map _

/-- The message of a fault gives up only if it shows a value that has no representation. -/
theorem Fault.message_gives_up (heap : Heap) (f : Fault) : PrintsOrGivesUp (f.message heap) := by
  have hshow : ∀ v (words : String → String),
      PrintsOrGivesUp (do return words (← representValue heap v)) := fun v words =>
    (representValue_gives_up heap v).bind fun _ => givesUpFor_ok _
  cases f with
  | kind f =>
    cases f with
    | unusableKey key => exact hshow key fun text => "Cannot use " ++ text ++ " as a hash-map key"
    | boundNotSymbol got => exact hshow got fun text => _ ++ text
    | notApplicable got => exact hshow got fun text => _ ++ text
    | unexpected function expected got => exact hshow got fun text => _ ++ text
    | noMetadata function got => exact hshow got fun text => _ ++ text
    | _ => exact givesUpFor_ok _
  | _ => exact givesUpFor_ok _

theorem EvalM.get_bind {α : Type} (f : Store → EvalM α) (store : Store) :
    (get >>= f) store = f store store := rfl

theorem EvalM.print_eq (readable : Bool) (v : Value) (store : Store) :
    EvalM.print readable v store =
      match printValue store.heap readable v with
      | .ok text => .ok text store
      | .error reason => .error (.abort reason) store := by
  rw [EvalM.print, get_bind]
  cases printValue store.heap readable v with
  | ok text => rfl
  | error reason => rfl

theorem EvalM.errorOf_eq (f : Fault) (store : Store) :
    EvalM.errorOf f store =
      match f.message store.heap with
      | .ok message => .ok (.error message none) store
      | .error reason => .error (.abort reason) store := by
  rw [EvalM.errorOf, get_bind]
  cases f.message store.heap with
  | ok message => rfl
  | error reason => rfl

end SmallLisp
