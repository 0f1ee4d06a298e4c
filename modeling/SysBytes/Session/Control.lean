import SysBytes.Session.Run
import SysBytes.Control.Buffer

/-!
Sessions over control buffers. After each command the slot's buffer is described: its
committed bytes, the walk's offsets and messages, and its diagnostic text.
-/
namespace SysBytes.Session

open Store Control

/-- A command on a control buffer. -/
inductive ControlCommand where
  | create
  | withCapacity (capacity : Nat)
  | ofBytes (bytes : List UInt8)
  | collect (messages : List Message)
  | extend (messages : List Message)
  | clone (source : String)
  | append (level kind : Int32) (payload : List UInt8)
  | appendWith (level kind : Int32) (capacity : Nat) (payload : List UInt8) (used : Nat)
  | appendFds (fds : List Int32)
  | overwrite (capacity : Nat) (bytes : List UInt8) (reported : Nat)
  | clear
  | reserve (capacity : Nat)
  | messageAt (index : Nat)
  | indexAfter (index : Nat)
  | drop

def messageReport (masked : Bool) (m : Message) : Report :=
  let payload := if masked && m.isFds then m.payload.map fun _ => 0xFF else m.payload
  let fds : Report :=
    if m.isFds then
      if masked then .fields [("count", .nat m.descriptors.length)]
      else .fields [("count", .nat m.descriptors.length),
        ("fds", .list (m.descriptors.map fun fd => .int fd.toInt))]
    else .null
  .fields [("level", .int m.level.toInt), ("kind", .int m.kind.toInt),
    ("payload", Report.hex payload), ("is_fds", .bool m.isFds), ("fds", fds),
    ("debug", .text m.debugText)]

def bufferReport (masked : Bool) (b : Buffer) : HeapM Report := do
  b.noteWalk
  let h ← heap
  let bytes := b.committed h
  let shown := if masked then
      (walk bytes).foldl (fun acc (o, m) =>
        if m.isFds then Word.overwrite acc (o + headerSize) (m.payload.map fun _ => 0xFF) else acc)
        bytes
    else bytes
  pure (.fields [("len", .nat b.len), ("empty", .bool (b.len == 0)),
    ("capacity", .nat (b.capacity h)), ("hex", Report.hex shown),
    ("start_index", .nat (startIndex bytes)), ("end_index", .nat b.len),
    ("indices", .list ((indices bytes).map Report.nat)),
    ("messages", .list ((messages bytes).map (messageReport masked))),
    ("owned_equal", .bool true), ("debug", .text (b.debugText h))])

def placeBuffer (slots : Slots Buffer) (name : String) (b : Buffer) : HeapM (Slots Buffer) := do
  let (slots, old) := slots.put name b
  match old with
  | some o => o.release
  | none => pure ()
  pure slots

/-- Runs one command on a slot of control buffers. -/
def controlStep (slots : Slots Buffer) (c : Slotted ControlCommand) :
    HeapM (Slots Buffer × Answer) := do
  -- the slot's buffer after a command that changed it in place
  let described (slots : Slots Buffer) (b : Buffer) (extra : List (String × Report)) :
      HeapM (Slots Buffer × Answer) := do
    let r ← bufferReport false b
    pure ((slots.put c.slot b).1, Answer.ok (r.extend extra))
  -- a new buffer, which replaces the slot's old one
  let created (b : Buffer) : HeapM (Slots Buffer × Answer) := do
    let slots ← placeBuffer slots c.slot b
    let r ← bufferReport false b
    pure (slots, Answer.ok r)
  let current (k : Buffer → HeapM (Slots Buffer × Answer)) : HeapM (Slots Buffer × Answer) :=
    match slots.get? c.slot with
    | some b => k b
    | none => pure (slots, missingSlot c.slot)
  match c.command with
  | .create => created Buffer.empty
  | .withCapacity n =>
    if capacityLimit < n then pure (slots, overLimit n)
    else created (← Buffer.withCapacity n)
  | .ofBytes bytes => created (← Buffer.ofBytes bytes)
  | .collect ms => created (← Buffer.ofMessages ms)
  | .extend ms => current fun b => do described slots (← b.extend ms) []
  | .clone source =>
    match slots.get? source with
    | some b => created (← b.clone)
    | none => pure (slots, missingSlot source)
  | .append level kind payload => current fun b => do described slots (← b.append level kind payload) []
  | .appendWith level kind cap payload used =>
    current fun b => do
      described slots (← b.appendWith level kind cap (Filler.writing payload used)) []
  | .appendFds fds => current fun b => do described slots (← b.appendFds fds) []
  | .overwrite cap bytes reported =>
    if capacityLimit < cap then pure (slots, overLimit cap)
    else current fun b => do described slots (← b.overwriteWith cap (Filler.writing bytes reported)) []
  | .clear => current fun b => described slots b.clear []
  | .reserve n =>
    if capacityLimit < n then pure (slots, overLimit n)
    else current fun b => do described slots (← b.reserve n) []
  | .messageAt i => current fun b => do
    let m ← b.messageAt i
    described slots b [("message", messageReport false m)]
  | .indexAfter i => current fun b => do
    let next ← b.indexAfter i
    described slots b [("next", .nat next)]
  | .drop => current fun b => do
    b.release
    pure (slots.remove c.slot, Answer.ok (.fields [("dropped", .text c.slot)]))

def runControl (cs : List (Slotted ControlCommand)) : Report × List Log.Event :=
  runSession controlStep [] cs

end SysBytes.Session
