import SmallLisp.Proofs.Operations

/-! # Names and their values

A name has the value that the innermost frame of the scope gives it. Each operation on the frames
of a store has its law about what the names have after it.
-/
namespace SmallLisp

variable {store store' : Store} {scope : Scope} {name : String} {v : Value}

theorem Frame.find?_bind_self (name : String) (v : Value) (frame : Frame) :
    (frame.bind name v).find? name = some v := by
  induction frame with
  | nil => exact if_pos rfl
  | cons binding frame ih =>
    by_cases h : name = binding.1
    · simp [Frame.bind, Frame.find?, h]
    · simp [Frame.bind, Frame.find?, h, ih]

theorem Frame.find?_bind_of_ne {other : String} (h : name ≠ other) (v : Value) (frame : Frame) :
    (frame.bind other v).find? name = frame.find? name := by
  induction frame with
  | nil => exact if_neg h
  | cons binding frame ih =>
    by_cases hother : other = binding.1
    · simp [Frame.bind, Frame.find?, ← hother, h]
    · simp [Frame.bind, Frame.find?, hother, ih]

theorem Store.lookup?_global (store : Store) (home : FrameId) (name : String) :
    store.lookup? (.global home) name = (store.frame home).find? name := by
  rw [Store.lookup?, Scope.frames_global, List.findSome?_cons, List.findSome?_nil]
  cases (store.frame home).find? name with
  | none => rfl
  | some v => rfl

def Scope.IsIn (scope : Scope) (store : Store) : Prop := ∀ f ∈ scope.frames, f < store.nextFrame

theorem Store.lookup?_congr
    (h : ∀ f ∈ scope.frames, (store'.frame f).find? name = (store.frame f).find? name) :
    store'.lookup? scope name = store.lookup? scope name := by
  rw [Store.lookup?, Store.lookup?]
  generalize scope.frames = frames at h
  induction frames with
  | nil => rfl
  | cons f frames ih =>
    obtain ⟨hf, hframes⟩ := List.forall_mem_cons.mp h
    rw [List.findSome?_cons, List.findSome?_cons, hf, ih hframes]

/-- Names are looked up in the frames only. -/
theorem Store.lookup?_of_frames (h : store'.frames = store.frames) (scope : Scope)
    (name : String) : store'.lookup? scope name = store.lookup? scope name :=
  Store.lookup?_congr fun f _ => by rw [Store.frame, Store.frame, h]

theorem Store.lookup?_addFrame (h : scope.IsIn store) (frame : Frame) (name : String) :
    (store.addFrame frame).lookup? scope name = store.lookup? scope name := by
  refine Store.lookup?_congr fun f hf => ?_
  have hne : f ≠ store.frames.size := Nat.ne_of_lt (h f hf)
  rw [Store.frame_addFrame, if_neg hne]

theorem Store.frame_addFrame_nil (store : Store) (f : FrameId) :
    (store.addFrame []).frame f = store.frame f := by
  rw [Store.frame_addFrame]
  split
  · next h => exact (Store.frame_of_le (Nat.le_of_eq h.symm)).symm
  · rfl

/-- An empty frame hides nothing, whatever the scope is. -/
theorem Store.lookup?_addFrame_nil (store : Store) (scope : Scope) (name : String) :
    (store.addFrame []).lookup? scope name = store.lookup? scope name :=
  Store.lookup?_congr fun f _ => by rw [Store.frame_addFrame_nil]

theorem Scope.isIn_global {home : FrameId} (h : (store.frame home).find? name = some v) :
    (Scope.global home).IsIn store := by
  intro f hf
  rw [Scope.frames_global, List.mem_singleton] at hf
  subst hf
  refine Nat.lt_of_not_le fun hle => ?_
  rw [Store.frame_of_le hle] at h
  cases h

theorem Scope.IsIn.of_le (h : scope.IsIn store) (hle : store.nextFrame ≤ store'.nextFrame) :
    scope.IsIn store' := fun f hf => Nat.lt_of_lt_of_le (h f hf) hle

theorem Store.nextFrame_addFrame (store : Store) (frame : Frame) :
    (store.addFrame frame).nextFrame = store.nextFrame + 1 := Array.size_push _

theorem Store.nextFrame_define (store : Store) (f : FrameId) (name : String) (v : Value) :
    (store.define f name v).nextFrame = store.nextFrame := Array.size_modify

theorem Scope.IsIn.addFrame (h : scope.IsIn store) (frame : Frame) :
    scope.IsIn (store.addFrame frame) :=
  h.of_le (Nat.le.intro (Store.nextFrame_addFrame store frame).symm)

theorem Scope.IsIn.nest (h : scope.IsIn store) (frame : Frame) :
    (scope.nest store.nextFrame).IsIn (store.addFrame frame) := by
  intro f hf
  rw [Scope.frames_nest, List.mem_cons] at hf
  rw [Store.nextFrame_addFrame]
  rcases hf with rfl | hf
  · exact Nat.lt_succ_self _
  · exact Nat.lt_succ_of_lt (h f hf)

/-- The frame of a call is seen before the frames around it. -/
theorem Store.lookup?_nest (h : scope.IsIn store) (frame : Frame) (name : String) :
    (store.addFrame frame).lookup? (scope.nest store.nextFrame) name =
      (frame.find? name).or (store.lookup? scope name) := by
  have houter := Store.lookup?_addFrame h frame name
  rw [Store.lookup?] at houter
  have hinner : (store.addFrame frame).frame store.nextFrame = frame := by
    rw [Store.frame_addFrame]
    exact if_pos rfl
  rw [Store.lookup?, Scope.frames_nest, List.findSome?_cons, houter, hinner]
  cases frame.find? name with
  | none => rfl
  | some v => rfl

theorem Store.lookup?_define_here (hhere : scope.here < store.nextFrame) (v : Value) :
    (store.define scope.here name v).lookup? scope name = some v := by
  rw [Store.lookup?, Scope.frames, List.findSome?_cons, Store.frame_define, if_pos ⟨rfl, hhere⟩,
    Frame.find?_bind_self]

theorem Store.lookup?_define_self (h : scope.IsIn store) (v : Value) :
    (store.define scope.here name v).lookup? scope name = some v :=
  Store.lookup?_define_here (h scope.here (List.mem_cons_self ..)) v

theorem Store.lookup?_define_of_not_mem {f : FrameId} (h : f ∉ scope.frames) (other : String)
    (v : Value) : (store.define f other v).lookup? scope name = store.lookup? scope name := by
  refine Store.lookup?_congr fun g hg => ?_
  have hne : ¬ (f = g ∧ g < store.frames.size) := fun hfg => h (hfg.1 ▸ hg)
  rw [Store.frame_define, if_neg hne]

theorem Store.lookup?_define_of_ne {other : String} (h : name ≠ other) (f : FrameId) (v : Value) :
    (store.define f other v).lookup? scope name = store.lookup? scope name := by
  refine Store.lookup?_congr fun g _ => ?_
  rw [Store.frame_define]
  split
  · exact Frame.find?_bind_of_ne h v _
  · rfl

end SmallLisp
