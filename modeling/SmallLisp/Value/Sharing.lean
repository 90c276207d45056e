import SmallLisp.Value.Equality

/-! # Equality of shared values

A value may hold the same part many times over, so that it takes little room but has many more
parts than could be compared one by one. `Value.equals` decides equality and goes no deeper where
both sides are one object in memory. It agrees with `same` because every value is the same as
itself.
-/
namespace SmallLisp.Value

/-- Loose agreement of entries needs only that the second table has them all. -/
theorem looseWithin_of_subset {xs ys : List (Value × Value)} (hsub : ∀ e ∈ xs, e ∈ ys)
    (hself : ∀ e ∈ xs, same e.1 e.1 = true ∧ loose e.2 e.2 = true) :
    looseWithin xs ys = true := by
  induction xs with
  | nil => rfl
  | cons e xs ih =>
    obtain ⟨k, x⟩ := e
    simp only [looseWithin, Bool.and_eq_true, List.any_eq_true]
    have h := hself (k, x) List.mem_cons_self
    exact ⟨⟨(k, x), hsub _ List.mem_cons_self, h.1, h.2⟩,
      ih (fun e he => hsub e (List.mem_cons_of_mem _ he))
        fun e he => hself e (List.mem_cons_of_mem _ he)⟩

mutual

theorem same_loose_self : ∀ v : Value, same v v = true ∧ loose v v = true
  | .nil => ⟨rfl, rfl⟩
  | .bool b => by cases b <;> exact ⟨rfl, rfl⟩
  | .int n => by simp [same, loose, looseInt?]
  | .str s => by simp [same, loose]
  | .symbol s => by simp [same, loose]
  | .keyword s => by simp [same, loose]
  | .list xs _ _ => sameAll_looseAll_self xs
  | .vector xs _ _ => sameAll_looseAll_self xs
  | .table xs _ => by
    have h := entries_self xs
    simp [same, loose, h.1, looseWithin_of_subset (fun _ he => he) h.2]
  | .atom a => by simp [same, loose]
  | .native .. => by simp [same, loose]
  | .closure .. => by simp [same, loose]
  | .error s c => by simpa [same, loose] using looseCause_self c
termination_by structural v => v

theorem sameAll_looseAll_self : ∀ vs : List Value, sameAll vs vs = true ∧ looseAll vs vs = true
  | [] => ⟨rfl, rfl⟩
  | v :: vs => by
    have h := same_loose_self v
    have hs := sameAll_looseAll_self vs
    simp [sameAll, looseAll, h, hs]
termination_by structural vs => vs

theorem entries_self : ∀ es : List (Value × Value), sameEntries es es = true ∧
    ∀ e ∈ es, same e.1 e.1 = true ∧ loose e.2 e.2 = true
  | [] => ⟨rfl, fun _ he => absurd he List.not_mem_nil⟩
  | (k, x) :: es => by
    have hk := same_loose_self k
    have hx := same_loose_self x
    have hs := entries_self es
    refine ⟨by simp [sameEntries, hk, hx, hs], fun e he => ?_⟩
    cases he with
    | head => exact ⟨hk.1, hx.2⟩
    | tail _ he => exact hs.2 e he
termination_by structural es => es

theorem looseCause_self : ∀ c : Option Value, looseCause c c = true
  | none => rfl
  | some v => (same_loose_self v).2
termination_by structural c => c

end

theorem same_self (v : Value) : same v v = true := (same_loose_self v).1

theorem loose_self (v : Value) : loose v v = true := (same_loose_self v).2

theorem length_eq_of_sameAll : ∀ {vs ws : List Value}, sameAll vs ws = true →
    vs.length = ws.length
  | [], [], _ => rfl
  | _ :: _, _ :: _, h => by
    simp only [sameAll, Bool.and_eq_true] at h
    simp [length_eq_of_sameAll h.2]

theorem length_eq_of_looseAll : ∀ {vs ws : List Value}, looseAll vs ws = true →
    vs.length = ws.length
  | [], [], _ => rfl
  | _ :: _, _ :: _, h => by
    simp only [looseAll, Bool.and_eq_true] at h
    simp [length_eq_of_looseAll h.2]

theorem sameEntries_eq_and (es fs : List (Value × Value)) : sameEntries es fs =
    (sameAll (es.map (·.1)) (fs.map (·.1)) && sameAll (es.map (·.2)) (fs.map (·.2))) := by
  induction es generalizing fs with
  | nil => cases fs <;> rfl
  | cons e es ih =>
    cases fs with
    | nil => rfl
    | cons f fs =>
      simp only [sameEntries, List.map_cons, sameAll, ih fs]
      cases same e.1 f.1 <;> cases same e.2 f.2 <;> simp

theorem length_eq_of_sameEntries {es fs : List (Value × Value)} (h : sameEntries es fs = true) :
    es.length = fs.length := by
  rw [sameEntries_eq_and, Bool.and_eq_true] at h
  simpa using length_eq_of_sameAll h.1

/-- A test that follows from another adds nothing to it. -/
theorem and_eq_of_imp {a b : Bool} (h : b = true → a = true) : (a && b) = b := by
  cases b with
  | false => simp
  | true => simp [h]

abbrev Decision (b : Bool) := { r : Bool // r = b }

theorem decision_eq {b : Bool} (d : Decision b) : d.1 = b := d.2

/-- Decides a comparison that every value passes with itself: nothing is compared where both sides
are one object in memory. -/
@[inline] def unlessShared (agree : Value → Value → Bool) (self : ∀ v, agree v v = true)
    (v w : Value) (compare : Unit → Decision (agree v w)) : Decision (agree v w) :=
  ⟨withPtrEq v w (fun _ => (compare ()).1) fun h => (compare ()).2.trans (h ▸ self v),
    (compare ()).2⟩

/-- Decides a comparison of sequences that only sequences of one length can pass: their elements
are not looked at unless the lengths agree. -/
@[inline] def ofEqualLength {agree : List Value → List Value → Bool} {vs ws : List Value}
    (length_eq : agree vs ws = true → vs.length = ws.length)
    (compare : Unit → Decision (agree vs ws)) : Decision (agree vs ws) :=
  ⟨vs.length == ws.length && (compare ()).1,
    (congrArg _ (compare ()).2).trans (and_eq_of_imp fun h => beq_iff_eq.2 (length_eq h))⟩

mutual

/-- Decides `same`, and goes no deeper where elements are one object in memory. Lengths come before
elements, and the keys of tables before their values. -/
def decideSame : (v w : Value) → Decision (same v w)
  | .list xs _ _, .list ys _ _ | .list xs _ _, .vector ys _ _ | .vector xs _ _, .list ys _ _
  | .vector xs _ _, .vector ys _ _ =>
    ofEqualLength length_eq_of_sameAll fun _ => decideSameAll xs ys
  | .table xs _, .table ys _ =>
    ⟨xs.length == ys.length && ((decideSameKeys xs ys).1 && (decideSameValues xs ys).1), by
      simp only [decision_eq, same, ← sameEntries_eq_and]
      exact and_eq_of_imp fun h => beq_iff_eq.2 (length_eq_of_sameEntries h)⟩
  | .error s c, .error t d =>
    ⟨s == t && (decideLooseCause c d).1, by rw [decision_eq, same]⟩
  | v, w => ⟨same v w, rfl⟩
termination_by structural v => v

def decideSameAll : (vs ws : List Value) → Decision (sameAll vs ws)
  | v :: vs, w :: ws =>
    ⟨(unlessShared same same_self v w fun _ => decideSame v w).1 && (decideSameAll vs ws).1,
      by simp only [decision_eq, sameAll]⟩
  | vs, ws => ⟨sameAll vs ws, rfl⟩
termination_by structural vs => vs

def decideSameKeys : (es fs : List (Value × Value)) →
    Decision (sameAll (es.map (·.1)) (fs.map (·.1)))
  | (j, _) :: es, (k, _) :: fs =>
    ⟨(unlessShared same same_self j k fun _ => decideSame j k).1 && (decideSameKeys es fs).1,
      by simp only [decision_eq, List.map_cons, sameAll]⟩
  | [], fs => ⟨sameAll [] (fs.map (·.1)), rfl⟩
  | e :: es, [] => ⟨false, rfl⟩
termination_by structural es => es

def decideSameValues : (es fs : List (Value × Value)) →
    Decision (sameAll (es.map (·.2)) (fs.map (·.2)))
  | (_, v) :: es, (_, w) :: fs =>
    ⟨(unlessShared same same_self v w fun _ => decideSame v w).1 && (decideSameValues es fs).1,
      by simp only [decision_eq, List.map_cons, sameAll]⟩
  | [], fs => ⟨sameAll [] (fs.map (·.2)), rfl⟩
  | e :: es, [] => ⟨false, rfl⟩
termination_by structural es => es

def decideLoose : (v w : Value) → Decision (loose v w)
  | .list xs _ _, .list ys _ _ | .list xs _ _, .vector ys _ _ | .vector xs _ _, .list ys _ _
  | .vector xs _ _, .vector ys _ _ =>
    ofEqualLength length_eq_of_looseAll fun _ => decideLooseAll xs ys
  | .table xs _, .table ys _ =>
    ⟨xs.length == ys.length && (decideLooseWithin xs ys).1,
      by rw [decision_eq, loose]⟩
  | .error s c, .error t d =>
    ⟨s == t && (decideLooseCause c d).1, by rw [decision_eq, loose]⟩
  | v, w => ⟨loose v w, rfl⟩
termination_by structural v => v

def decideLooseAll : (vs ws : List Value) → Decision (looseAll vs ws)
  | v :: vs, w :: ws =>
    ⟨(unlessShared loose loose_self v w fun _ => decideLoose v w).1 && (decideLooseAll vs ws).1,
      by simp only [decision_eq, looseAll]⟩
  | vs, ws => ⟨looseAll vs ws, rfl⟩
termination_by structural vs => vs

def decideLooseWithin : (es fs : List (Value × Value)) → Decision (looseWithin es fs)
  | [], _ => ⟨true, rfl⟩
  | (k, v) :: es, fs =>
    ⟨(fs.any fun f =>
        (unlessShared same same_self k f.1 fun _ => decideSame k f.1).1 &&
        (unlessShared loose loose_self v f.2 fun _ => decideLoose v f.2).1) &&
        (decideLooseWithin es fs).1,
      by simp only [decision_eq, looseWithin]⟩
termination_by structural es => es

def decideLooseCause : (c d : Option Value) → Decision (looseCause c d)
  | some v, some w => unlessShared loose loose_self v w fun _ => decideLoose v w
  | c, d => ⟨looseCause c d, rfl⟩
termination_by structural c => c

end

/-- Equality of the language, decided without comparing one object in memory with itself. -/
def equals (v w : Value) : Bool :=
  (unlessShared same same_self v w fun _ => decideSame v w).1

/-- Sharing makes no difference to what is equal. -/
@[simp] theorem equals_eq_same (v w : Value) : equals v w = same v w :=
  (unlessShared same same_self v w fun _ => decideSame v w).2

end SmallLisp.Value
