import SysBytes.Control.Record
import SysBytes.Store.Region
import SysBytes.Store.Filler

/-!
Control buffers: committed control-message bytes in a shared region, or no region at all.
Appending aligns the end to 8, writes a record and commits it with its padding; a receiver
fills the whole region and commits what it reports. Clones share the region until one writes.
-/
namespace SysBytes.Control

open Store

/-- Committed control bytes: a region, if any was needed, and the committed length. -/
structure Buffer where
  store : Option CowStore := none
  len : Nat := 0
  deriving DecidableEq, Repr

namespace Buffer

def empty : Buffer := {}

def capacity (h : Heap) (b : Buffer) : Nat :=
  match b.store with
  | some s => s.capacity h
  | none => 0

def cells (h : Heap) (b : Buffer) : List UInt8 :=
  match b.store with
  | some s => s.cells h
  | none => []

def committed (h : Heap) (b : Buffer) : List UInt8 :=
  match b.store with
  | some s => (s.cells h).take b.len
  | none => []

/-- Room for at least `minimum` bytes in a region owned alone, grown by the region rule. -/
def reserve (b : Buffer) (minimum : Nat) : HeapM Buffer := do
  match b.store with
  | some s =>
    let s ← s.reserve minimum
    pure { b with store := some s }
  | none =>
    if minimum = 0 then return b
    let s ← CowStore.create minimum
    pure { b with store := some s }

def withCapacity (minimum : Nat) : HeapM Buffer := empty.reserve minimum

def clear (b : Buffer) : Buffer := { b with len := 0 }

def clone (b : Buffer) : HeapM Buffer := do
  match b.store with
  | some s =>
    let s ← s.share
    pure { b with store := some s }
  | none => pure b

def release (b : Buffer) : HeapM Unit :=
  match b.store with
  | some s => s.release
  | none => pure ()

def modifyCells (b : Buffer) (edit : List UInt8 → List UInt8) : HeapM Buffer := do
  match b.store with
  | some s =>
    let s ← s.modifyCells edit
    pure { b with store := some s }
  | none => pure b

def checkedAdd (a b : Nat) : Option Nat := if a + b ≤ wordMax then some (a + b) else none

/-- The room an append asks for, found by checked sums: none when a sum overflows a word. -/
def appendRoom (len capacity : Nat) : Option Nat := do
  let _ ← checkedAdd len 7
  let _ ← checkedAdd capacity (headerSize + 8)
  checkedAdd (Word.roundUp8 len) (space capacity)

/-- Writes a record whose payload `fill` writes into `capacity` bytes, after aligning the committed
end to 8. -/
def appendRecord (b : Buffer) (level kind : Int32) (capacity : Nat) (fill : Filler Empty) :
    HeapM Buffer := do
  let start := Word.roundUp8 b.len
  let b ← b.reserve (start + space capacity)
  let data := start + headerSize
  let region := Word.slice (b.cells (← heap)) data capacity
  match fill.run region with
  | .error e => nomatch e
  | .ok (written, used) =>
    let b ← b.modifyCells fun cells =>
      Word.overwrite (Word.overwrite cells b.len (List.replicate (start - b.len) 0)) data written
    if capacity < used then fail (.initializerOverrun used capacity)
    let header := Word.encodeLE 8 (messageLen used) ++ Word.encodeInt32 level ++
      Word.encodeInt32 kind
    let b ← b.modifyCells fun cells =>
      Word.overwrite (Word.overwrite cells start header) (data + used)
        (List.replicate (start + space used - (data + used)) 0)
    pure { b with len := start + space used }

/-- Appends a record once the sums of its room fit in a word; otherwise it stops. -/
def appendWith (b : Buffer) (level kind : Int32) (capacity : Nat) (fill : Filler Empty) :
    HeapM Buffer := do
  if appendRoom b.len capacity = none then fail .lengthOverflow
  b.appendRecord level kind capacity fill

def append (b : Buffer) (level kind : Int32) (payload : List UInt8) : HeapM Buffer :=
  b.appendWith level kind payload.length (Filler.writing payload payload.length)

def appendFds (b : Buffer) (fds : List Int32) : HeapM Buffer :=
  b.append socketLevel rightsKind (fds.flatMap Word.encodeInt32)

/-- Empties the buffer and returns the first `capacity` bytes of a region owned alone, for a
receiver to fill. -/
def prepareReceive (b : Buffer) (capacity : Nat) : HeapM (Buffer × List UInt8) := do
  let b ← { b with len := 0 }.reserve capacity
  let b ← b.modifyCells id
  pure (b, (b.cells (← heap)).take capacity)

/-- Commits what a receiver reported, clamped to the region it was offered. -/
def commitReceived (b : Buffer) (reported capacity : Nat) : Buffer :=
  { b with len := min reported capacity }

def overwriteWith (b : Buffer) (capacity : Nat) (fill : Filler Empty) : HeapM Buffer := do
  let (b, region) ← b.prepareReceive capacity
  match fill.run region with
  | .error e => nomatch e
  | .ok (written, reported) =>
    let b ← b.modifyCells fun cells => Word.overwrite cells 0 written
    if capacity < reported then fail (.receiverOverrun reported capacity)
    pure { b with len := reported }

def ofBytes (bytes : List UInt8) : HeapM Buffer :=
  empty.overwriteWith bytes.length (Filler.writing bytes bytes.length)

def ofMessages (ms : List Message) : HeapM Buffer :=
  ms.foldlM (fun b m => b.append m.level m.kind m.payload) empty

def extend (b : Buffer) (ms : List Message) : HeapM Buffer :=
  ms.foldlM (fun b m => b.append m.level m.kind m.payload) b

def noteWalk (b : Buffer) : HeapM Unit := do
  for e in walkNotes (b.committed (← heap)) do note e

def messageAt (b : Buffer) (i : Nat) : HeapM Message := do
  match recordAt (b.committed (← heap)) i with
  | some (_, m) => pure m
  | none => fail (.noRecord i)

def indexAfter (b : Buffer) (i : Nat) : HeapM Nat := do
  let bytes := b.committed (← heap)
  match recordAt bytes i with
  | some (len, _) =>
    for e in (stopNote? bytes i len).toList do note e
    pure (nextOffset bytes i len)
  | none => fail (.noRecord i)

def debugText (h : Heap) (b : Buffer) : String :=
  let shown := ", ".intercalate ((messages (b.committed h)).map Message.debugText)
  s!"AncillaryBuffer \x7b len: {b.len}, capacity: {b.capacity h}, messages: [{shown}] \x7d"

end Buffer

end SysBytes.Control
