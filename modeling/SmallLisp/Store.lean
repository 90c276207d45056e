import SmallLisp.Files

/-! # The store

The store holds everything that evaluation can change: the frames of all scopes, the heap and the
console. Frames are only added and written, never removed, and a scope never changes once it exists.
Files and clock are those of the moment at which a text is given: the world outside changes between
two texts, not while one is evaluated.
-/
namespace SmallLisp

/-- The bindings of one frame, in the order in which the names were first bound. -/
abbrev Frame := List (String × Value)

namespace Frame

def find? (name : String) : Frame → Option Value
  | [] => none
  | (other, value) :: frame => if name = other then some value else find? name frame

/-- The frame with a name bound to a value. A name that is bound keeps its place. -/
def bind (name : String) (value : Value) : Frame → Frame
  | [] => [(name, value)]
  | (other, old) :: frame =>
    if name = other then (other, value) :: frame else (other, old) :: bind name value frame

def bindAll (frame : Frame) (bindings : List (String × Value)) : Frame :=
  bindings.foldl (fun frame binding => frame.bind binding.1 binding.2) frame

def ofParallel (names : List String) (values : List Value) : Except CountFault Frame :=
  if names.length = values.length then .ok (bindAll [] (names.zip values))
  else .error (.bindingCount names.length values.length)

def names (frame : Frame) : List String := frame.map (·.1)

end Frame

/-- A console that takes every text and whose input has these bytes, which are decoded at once. -/
def Console.ofBytes (bytes : List UInt8) : Console :=
  match fileText bytes with
  | .ok text => .ofText text
  | .error reason => .ofFault ⟨.undecodable, reason.message⟩

structure Store where
  frames : Array Frame
  heap : Heap
  console : Console
  files : FileTree
  clock : Int

namespace Store

def initial (files : FileTree) (input : String) (clock : Int) : Store :=
  ⟨#[], .empty, .ofText input, files, clock⟩

def frame (store : Store) (id : FrameId) : Frame := store.frames.getD id []

def lookup? (store : Store) (scope : Scope) (name : String) : Option Value :=
  scope.frames.findSome? fun id => (store.frame id).find? name

def binder? (store : Store) (scope : Scope) (name : String) : Option FrameId :=
  scope.frames.find? fun id => ((store.frame id).find? name).isSome

def nextFrame (store : Store) : FrameId := store.frames.size

def addFrame (store : Store) (frame : Frame) : Store :=
  { store with frames := store.frames.push frame }

def define (store : Store) (id : FrameId) (name : String) (value : Value) : Store :=
  { store with frames := store.frames.modify id fun frame => frame.bind name value }

def addCell (store : Store) (content : Value) : Store :=
  { store with heap := store.heap.addCell content }

def setCell (store : Store) (id : CellId) (content : Value) : Store :=
  { store with heap := store.heap.setCell id content }

def skipIdentity (store : Store) : Store := { store with heap := store.heap.skipIdentity }

def write (store : Store) (text : String) : Store :=
  { store with console := store.console.write text }

def skipReply (store : Store) : Store := { store with console := store.console.skipReply }

end Store

def frameText (heap : Heap) (frame : Frame) : Except Abort String := do
  let parts ← frame.mapM fun (name, value) => do
    return name ++ ": " ++ (← representValue heap value)
  return "\x7b" ++ ", ".intercalate parts ++ "\x7d"

def scopeText (store : Store) (scope : Scope) : Except Abort String := do
  let text ← frameText store.heap (store.frame scope.here)
  return if scope.isGlobal then text else text ++ " -> ..."

/-- A scope in full: the bindings of every frame, except that the outermost of several frames is
only named. -/
def scopeChainText (store : Store) (scope : Scope) : Except Abort String := do
  let here ← frameText store.heap (store.frame scope.here)
  let between ← scope.enclosing.dropLast.mapM fun id => frameText store.heap (store.frame id)
  let outermost := if scope.isGlobal then [] else ["<root>"]
  return "<Environment chain: " ++ " -> ".intercalate (here :: between ++ outermost) ++ ">"

end SmallLisp
