import SysBytes.Store.Region
import SysBytes.Store.Filler

/-!
Small buffers: byte buffers that keep up to 28 bytes inline and move to a shared region when
they need more. An inline buffer always has capacity 28; a buffer on the heap has the
capacity of its region and never moves back inline. Growing the length exposes whatever the
region held before, so inline bytes survive `clear`.
-/
namespace SysBytes.Store

/-- How many bytes a buffer holds inline. -/
def inlineCapacity : Nat := 28

/-- A byte buffer: inline bytes with a length, or a region handle with a length. -/
inductive SmallBuffer where
  | inline (cells : List UInt8) (len : Nat)
  | large (store : CowStore) (len : Nat)
  deriving DecidableEq, Repr

namespace SmallBuffer

def empty : SmallBuffer := .inline (List.replicate inlineCapacity 0) 0

def len : SmallBuffer → Nat
  | .inline _ n => n
  | .large _ n => n

def isInline : SmallBuffer → Bool
  | .inline _ _ => true
  | .large _ _ => false

def capacity (h : Heap) : SmallBuffer → Nat
  | .inline _ _ => inlineCapacity
  | .large s _ => s.capacity h

def cells (h : Heap) : SmallBuffer → List UInt8
  | .inline c _ => c
  | .large s _ => s.cells h

def bytes (h : Heap) (b : SmallBuffer) : List UInt8 := (b.cells h).take b.len

def withLen (b : SmallBuffer) (n : Nat) : SmallBuffer :=
  match b with
  | .inline c _ => .inline c n
  | .large s _ => .large s n

def withCapacity (minimum : Nat) : HeapM SmallBuffer := do
  if minimum ≤ inlineCapacity then return empty
  let s ← CowStore.create minimum
  pure (.large s 0)

def clone (b : SmallBuffer) : HeapM SmallBuffer :=
  match b with
  | .inline _ _ => pure b
  | .large s n => do
    let s ← s.share
    pure (.large s n)

def release : SmallBuffer → HeapM Unit
  | .inline _ _ => pure ()
  | .large s _ => s.release

def modifyCells (b : SmallBuffer) (edit : List UInt8 → List UInt8) : HeapM SmallBuffer :=
  match b with
  | .inline c n => pure (.inline (edit c) n)
  | .large s n => do
    let s ← s.modifyCells edit
    pure (.large s n)

def setLen (b : SmallBuffer) (n : Nat) : HeapM SmallBuffer := do
  let cap := b.capacity (← heap)
  if cap < n then fail (.lengthExceeds n cap)
  pure (b.withLen n)

/-- Room for at least `minimum` bytes: an inline buffer moves to a region past 28 bytes, a heap
buffer grows by the region rule. -/
def reserve (b : SmallBuffer) (minimum : Nat) : HeapM SmallBuffer :=
  match b with
  | .inline c n => do
    if minimum ≤ inlineCapacity then return b
    let s ← CowStore.create minimum
    let s ← s.modifyCells fun cells => Word.overwrite cells 0 (c.take n)
    let cap := s.capacity (← heap)
    note ⟨.debug, "promoting inline buffer to heap", [("len", .nat n), ("capacity", .nat cap)]⟩
    pure (.large s n)
  | .large s n => do
    let s ← s.reserve minimum
    pure (.large s n)

/-- A buffer of at least `capacity` bytes whose first `capacity` bytes `fill` writes; its length is
the count reported. -/
def tryFilled {ε : Type} (capacity : Nat) (fill : Filler ε) : HeapM (Except ε SmallBuffer) := do
  let b ← withCapacity capacity
  match fill.run ((b.cells (← heap)).take capacity) with
  | .error e =>
    b.release
    pure (.error e)
  | .ok (region, used) =>
    let b ← b.modifyCells fun cells => Word.overwrite cells 0 region
    if capacity < used then fail (.initializerOverrun used capacity)
    pure (.ok (← b.setLen used))

def filled (capacity : Nat) (fill : Filler Empty) : HeapM SmallBuffer := do
  match ← tryFilled capacity fill with
  | .ok b => pure b
  | .error e => nomatch e

def ofBytes (bytes : List UInt8) : HeapM SmallBuffer :=
  filled bytes.length (Filler.writing bytes bytes.length)

def append (b : SmallBuffer) (more : List UInt8) : HeapM SmallBuffer := do
  let stop := b.len + more.length
  let b ← b.reserve stop
  let b ← b.modifyCells fun cells => Word.overwrite cells b.len more
  b.setLen stop

def modifyBytes (b : SmallBuffer) (edit : List UInt8 → List UInt8) : HeapM SmallBuffer :=
  b.modifyCells fun cells =>
    Word.overwrite cells 0 ((edit (cells.take b.len)).take b.len)

def debugText (h : Heap) (b : SmallBuffer) : String :=
  let shown := ", ".intercalate ((b.bytes h).map fun x => toString x.toNat)
  s!"SmallBuffer \x7b inline: {b.isInline}, len: {b.len}, bytes: [{shown}] \x7d"

end SmallBuffer

end SysBytes.Store
