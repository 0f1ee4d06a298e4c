import SysBytes.Session.Run
import SysBytes.Store.Region

/-!
Sessions over shared regions. After each command every slot is described: its capacity,
whether it owns its region alone, which other slots share that region, the region's first
bytes, and the count and sum of its bytes.
-/
namespace SysBytes.Session

open Store

/-- A command on a region handle. -/
inductive SharedCommand where
  | create (capacity : Nat)
  | clone (source : String)
  | reserve (capacity : Nat)
  | makeUnique
  | write (offset : Nat) (bytes : List UInt8)
  | read (offset len : Nat)
  | drop

def sharedSlotReport (h : Heap) (slots : Slots CowStore) (name : String) (s : CowStore) : Report :=
  let cells := s.cells h
  let sharing := (slots.filter fun e => e.1 ≠ name && e.2 == s).map Prod.fst
  .fields [("capacity", .nat cells.length), ("unique", .bool (s.isUnique h)),
    ("shares", .list ((sharing.mergeSort fun a b => decide (a ≤ b)).map Report.text)),
    ("head", Report.hex (cells.take 256)),
    ("nonzero", .nat (cells.countP fun b => b != 0)),
    ("sum", .nat (cells.foldl (fun acc b => acc + b.toNat) 0)),
    ("debug", .text s!"CowStore \x7b capacity: {cells.length}, owners: {s.owners h} \x7d")]

def sharedReport (h : Heap) (slots : Slots CowStore) : Report :=
  .fields [("slots", .fields ((slots.names.filterMap fun n =>
    (slots.get? n).map fun s => (n, sharedSlotReport h slots n s))))]

/-- Runs one command on a slot of region handles. -/
def sharedStep (slots : Slots CowStore) (c : Slotted SharedCommand) :
    HeapM (Slots CowStore × Answer) := do
  let answer (slots : Slots CowStore) (extra : List (String × Report)) :
      HeapM (Slots CowStore × Answer) := do
    pure (slots, Answer.ok ((sharedReport (← heap) slots).extend extra))
  let placed (s : CowStore) : HeapM (Slots CowStore × Answer) := do
    let (slots', old) := slots.put c.slot s
    if let some o := old then o.release
    answer slots' []
  let current (k : CowStore → HeapM (Slots CowStore × Answer)) : HeapM (Slots CowStore × Answer) :=
    match slots.get? c.slot with
    | some s => k s
    | none => pure (slots, missingSlot c.slot)
  match c.command with
  | .create n =>
    if capacityLimit < n then pure (slots, overLimit n)
    else placed (← CowStore.create n)
  | .clone source =>
    match slots.get? source with
    | some s => placed (← s.share)
    | none => pure (slots, missingSlot source)
  | .reserve n =>
    if capacityLimit < n then pure (slots, overLimit n)
    else current fun s => do answer (slots.put c.slot (← s.reserve n)).1 []
  | .makeUnique => current fun s => do answer (slots.put c.slot (← s.makeUnique)).1 []
  | .write offset bytes => current fun s => do
    if s.capacity (← heap) < offset + bytes.length then
      pure (slots, Answer.error "out_of_range" "write past capacity")
    else
      let s ← s.modifyCells fun cells => Word.overwrite cells offset bytes
      answer (slots.put c.slot s).1 []
  | .read offset len => current fun s => do
    let cells := s.cells (← heap)
    if cells.length < offset + len then
      pure (slots, Answer.error "out_of_range" "read past capacity")
    else answer slots [("read", Report.hex (Word.slice cells offset len))]
  | .drop => current fun s => do
    s.release
    answer (slots.remove c.slot) []

def runShared (cs : List (Slotted SharedCommand)) : Report × List Log.Event :=
  runSession sharedStep [] cs

end SysBytes.Session
