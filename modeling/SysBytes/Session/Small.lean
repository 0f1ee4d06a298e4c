import SysBytes.Session.Run
import SysBytes.Store.Small

/-!
Sessions over small buffers. After each command the slot's buffer is described: its length,
capacity, whether it is inline, its bytes in use and its diagnostic text.
-/
namespace SysBytes.Session

open Store

inductive Fill where
  | writes (bytes : List UInt8) (used : Nat)
  | refuses (message : String)

def Fill.filler : Fill → Filler String
  | .writes bytes used => Filler.writing bytes used
  | .refuses message => Filler.refusing message

/-- A command on a small buffer. -/
inductive SmallCommand where
  | create
  | withCapacity (capacity : Nat)
  | ofBytes (bytes : List UInt8)
  | filled (capacity : Nat) (fill : Fill)
  | clone (source : String)
  | reserve (capacity : Nat)
  | setLen (len : Nat)
  | clear
  | append (bytes : List UInt8)
  | fill (value : UInt8)
  | write (offset : Nat) (bytes : List UInt8)
  | writeCapacity (offset : Nat) (bytes : List UInt8)
  | equals (other : String)
  | read
  | drop

def smallReport (h : Heap) (b : SmallBuffer) : Report :=
  .fields [("len", .nat b.len), ("empty", .bool (b.len == 0)), ("capacity", .nat (b.capacity h)),
    ("inline", .bool b.isInline), ("hex", Report.hex (b.bytes h)), ("debug", .text (b.debugText h))]

/-- Runs one command on a slot of small buffers. -/
def smallStep (slots : Slots SmallBuffer) (c : Slotted SmallCommand) :
    HeapM (Slots SmallBuffer × Answer) := do
  let described (slots : Slots SmallBuffer) (b : SmallBuffer) (extra : List (String × Report)) :
      HeapM (Slots SmallBuffer × Answer) := do
    pure ((slots.put c.slot b).1, Answer.ok ((smallReport (← heap) b).extend extra))
  let created (b : SmallBuffer) : HeapM (Slots SmallBuffer × Answer) := do
    let (slots', old) := slots.put c.slot b
    if let some o := old then o.release
    pure (slots', Answer.ok (smallReport (← heap) b))
  let current (k : SmallBuffer → HeapM (Slots SmallBuffer × Answer)) :
      HeapM (Slots SmallBuffer × Answer) :=
    match slots.get? c.slot with
    | some b => k b
    | none => pure (slots, missingSlot c.slot)
  match c.command with
  | .create => created SmallBuffer.empty
  | .withCapacity n =>
    if capacityLimit < n then pure (slots, overLimit n) else created (← SmallBuffer.withCapacity n)
  | .ofBytes bytes => created (← SmallBuffer.ofBytes bytes)
  | .filled n fill =>
    if capacityLimit < n then pure (slots, overLimit n)
    else
      match ← SmallBuffer.tryFilled n fill.filler with
      | .ok b => created b
      | .error message => pure (slots, Answer.error "init_error" message)
  | .clone source =>
    match slots.get? source with
    | some b => created (← b.clone)
    | none => pure (slots, missingSlot source)
  | .reserve n =>
    if capacityLimit < n then pure (slots, overLimit n)
    else current fun b => do described slots (← b.reserve n) []
  | .setLen n => current fun b => do described slots (← b.setLen n) []
  | .clear => current fun b => do described slots (← b.setLen 0) []
  | .append bytes => current fun b => do described slots (← b.append bytes) []
  | .fill value => current fun b => do
    described slots (← b.modifyBytes fun bs => bs.map fun _ => value) []
  | .write offset bytes => current fun b => do
    -- the writable bytes are taken first, which copies a shared region, then the range checked
    let b ← b.modifyCells id
    if b.len < offset + bytes.length then
      pure ((slots.put c.slot b).1, Answer.error "out_of_range" "write past region")
    else described slots (← b.modifyBytes fun bs => Word.overwrite bs offset bytes) []
  | .writeCapacity offset bytes => current fun b => do
    let b ← b.modifyCells id
    if b.capacity (← heap) < offset + bytes.length then
      pure ((slots.put c.slot b).1, Answer.error "out_of_range" "write past region")
    else described slots (← b.modifyCells fun cells => Word.overwrite cells offset bytes) []
  | .equals name => current fun b => do
    match slots.get? name with
    | some o =>
      let h ← heap
      described slots b [("equal", .bool (b.bytes h == o.bytes h))]
    | none => pure (slots, missingSlot name)
  | .read => current fun b => do described slots b [("read", Report.hex (b.bytes (← heap)))]
  | .drop => current fun b => do
    b.release
    pure (slots.remove c.slot, Answer.ok (.fields [("dropped", .text c.slot)]))

def runSmall (cs : List (Slotted SmallCommand)) : Report × List Log.Event :=
  runSession smallStep [] cs

end SysBytes.Session
