import SmallLisp.Value.Basic

/-! # The heap

The heap holds the contents of all cells and knows which identities have been given out. Cells are
only added and written, never removed, and no identity is given out twice.
-/
namespace SmallLisp

structure Heap where
  cells : Array Value
  /-- The next identity. All smaller ones have been given out. -/
  nextIdentity : Identity

namespace Heap

def empty : Heap := ⟨#[], 0⟩

def content (heap : Heap) (cell : CellId) : Value := heap.cells.getD cell .nil

def nextCell (heap : Heap) : CellId := heap.cells.size

def addCell (heap : Heap) (content : Value) : Heap :=
  { heap with cells := heap.cells.push content }

def setCell (heap : Heap) (cell : CellId) (content : Value) : Heap :=
  { heap with cells := heap.cells.setIfInBounds cell content }

def skipIdentity (heap : Heap) : Heap := { heap with nextIdentity := heap.nextIdentity + 1 }

end Heap

end SmallLisp
