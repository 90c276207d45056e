/-! # Scopes

A scope is a nonempty chain of frames, innermost first. Frames live in the store and are named
by number, so many scopes share a frame, and the chain itself never changes.
-/
namespace SmallLisp

abbrev FrameId := Nat

/-- A frame together with the frames that enclose it. -/
structure Scope where
  /-- The innermost frame, the only one that definitions write. -/
  here : FrameId
  enclosing : List FrameId
deriving DecidableEq, Repr

namespace Scope

def global (frame : FrameId) : Scope := ⟨frame, []⟩

def nest (outer : Scope) (frame : FrameId) : Scope := ⟨frame, outer.here :: outer.enclosing⟩

def frames (scope : Scope) : List FrameId := scope.here :: scope.enclosing

def root (scope : Scope) : FrameId := scope.frames.getLast (List.cons_ne_nil _ _)

def isGlobal (scope : Scope) : Bool := scope.enclosing.isEmpty

@[simp] theorem frames_global (frame : FrameId) : (global frame).frames = [frame] := rfl

@[simp] theorem frames_nest (outer : Scope) (frame : FrameId) :
    (outer.nest frame).frames = frame :: outer.frames := rfl

@[simp] theorem root_global (frame : FrameId) : (global frame).root = frame := rfl

@[simp] theorem root_nest (outer : Scope) (frame : FrameId) :
    (outer.nest frame).root = outer.root := rfl

end Scope

end SmallLisp
