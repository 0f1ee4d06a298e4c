import SysBytes.Store.Heap
import SysBytes.Store.Growth
import SysBytes.Word

/-!
Copy-on-write regions. A `CowStore` is a handle on a heap region whose capacity is a positive
multiple of 8. Clones share the region and raise its owner count; writing through a handle
first gives it a region of its own if others own the same one, and growing always moves to a
fresh region of the grown capacity, the old bytes kept and the new ones zero.
-/
namespace SysBytes.Store

/-- A handle on a shared region. -/
structure CowStore where
  id : Nat
  deriving DecidableEq, Repr, Inhabited

namespace CowStore

def cells (h : Heap) (s : CowStore) : List UInt8 := h.cells s.id

def capacity (h : Heap) (s : CowStore) : Nat := (s.cells h).length

def owners (h : Heap) (s : CowStore) : Nat := h.owners s.id

def isUnique (h : Heap) (s : CowStore) : Bool := s.owners h == 1

def create (minimum : Nat) : HeapM CowStore := do
  if minimum = 0 then fail .zeroCapacity
  let id ← allocate (List.replicate (Word.roundUp8 minimum) 0)
  pure ⟨id⟩

def share (s : CowStore) : HeapM CowStore := do
  modify fun h => h.update s.id fun r => { r with owners := r.owners + 1 }
  pure s

def release (s : CowStore) : HeapM Unit :=
  modify fun h => h.update s.id fun r => { r with owners := r.owners - 1 }

/-- A handle that owns its region alone: the same one if it already does, else a copy. -/
def makeUnique (s : CowStore) : HeapM CowStore := do
  let h ← heap
  if s.owners h ≤ 1 then return s
  note ⟨.trace, "copying shared store", [("capacity", .nat (s.capacity h))]⟩
  s.release
  let id ← allocate (s.cells h)
  pure ⟨id⟩

/-- Room for at least `minimum` bytes in a region owned alone: `makeUnique` within the capacity,
else a fresh region grown by the rule. -/
def reserve (s : CowStore) (minimum : Nat) : HeapM CowStore := do
  let h ← heap
  let current := s.capacity h
  if minimum ≤ current then return (← s.makeUnique)
  match grownCapacity current minimum with
  | .error f => fail f
  | .ok grown =>
    note ⟨.trace, "growing store", [("old", .nat current), ("new", .nat grown)]⟩
    s.release
    let id ← allocate (s.cells h ++ List.replicate (Word.roundUp8 grown - current) 0)
    pure ⟨id⟩

def modifyCells (s : CowStore) (edit : List UInt8 → List UInt8) : HeapM CowStore := do
  let s ← s.makeUnique
  modify fun h => h.update s.id fun r => { r with cells := edit r.cells }
  pure s

end CowStore

end SysBytes.Store
