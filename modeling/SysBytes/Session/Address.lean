import SysBytes.Session.Small
import SysBytes.Net.Address

/-!
Sessions over socket address records. After each command the slot's record is described: its
buffer, its family, its text, and what it reads as, an IP socket address and a local path.
-/
namespace SysBytes.Session

open Store Net

/-- A command on a socket address record. -/
inductive AddressCommand where
  | create
  | forReceiving
  | ofSocketAddr (a : SocketAddr)
  | unix (path : List UInt8)
  | unnamedUnix
  | raw (bytes : List UInt8)
  | filled (capacity : Nat) (fill : Fill)
  | clone (source : String)
  | write (offset : Nat) (bytes : List UInt8)
  | writeMutable (offset : Nat) (bytes : List UInt8)
  | equals (other : String)
  | read
  | drop

def socketAddrReport : SocketAddr → Report
  | .v4 ip portNumber =>
    .fields [("kind", .text "v4"), ("ip", .list (ip.octets.toList.map fun b => .nat b.toNat)),
      ("port", .nat portNumber.toNat)]
  | .v6 ip portNumber flowinfo scope =>
    .fields [("kind", .text "v6"), ("ip", .list (ip.octets.toList.map fun b => .nat b.toNat)),
      ("port", .nat portNumber.toNat), ("flowinfo", .nat flowinfo.toNat), ("scope_id", .nat scope.toNat)]

def addressFailure (e : AddressError) : Report := Report.failure e.kind e.message

def addressReport (h : Heap) (a : SocketAddress) : Report :=
  let bytes := a.bytes h
  let f := familyOf bytes
  .fields [("len", .nat bytes.length), ("empty", .bool bytes.isEmpty),
    ("capacity", .nat (a.buffer.capacity h)), ("inline", .bool a.buffer.isInline),
    ("hex", Report.hex bytes), ("family", .nat f.raw.toNat), ("family_name", .text f.name),
    ("family_debug", .text f.name), ("display", .text (displayOf bytes)),
    ("debug", .text (debugOf bytes)),
    ("socket_addr", match socketAddrOf bytes with
      | .ok s => .fields [("ok", socketAddrReport s), ("try_from_agrees", .bool true)]
      | .error e => addressFailure e),
    ("unix_path", match unixPathOf bytes with
      | .ok p => .fields [("ok", Report.bytes? p)]
      | .error e => addressFailure e)]

/-- Runs one command on a slot of socket address records. -/
def addressStep (slots : Slots SocketAddress) (c : Slotted AddressCommand) :
    HeapM (Slots SocketAddress × Answer) := do
  let described (slots : Slots SocketAddress) (a : SocketAddress) (extra : List (String × Report)) :
      HeapM (Slots SocketAddress × Answer) := do
    pure ((slots.put c.slot a).1, Answer.ok ((addressReport (← heap) a).extend extra))
  let created (a : SocketAddress) : HeapM (Slots SocketAddress × Answer) := do
    let (slots', old) := slots.put c.slot a
    if let some o := old then o.buffer.release
    pure (slots', Answer.ok (addressReport (← heap) a))
  let current (k : SocketAddress → HeapM (Slots SocketAddress × Answer)) :
      HeapM (Slots SocketAddress × Answer) :=
    match slots.get? c.slot with
    | some a => k a
    | none => pure (slots, missingSlot c.slot)
  match c.command with
  | .create => created SocketAddress.empty
  | .forReceiving => created (← SocketAddress.forReceiving)
  | .ofSocketAddr s => created (← SocketAddress.ofSocketAddr s)
  | .unix path =>
    match ← SocketAddress.unix path with
    | .ok a => created a
    | .error e => pure (slots, Answer.error e.kind e.message)
  | .unnamedUnix => created (← SocketAddress.unnamedUnix)
  | .raw bytes => created (← SocketAddress.ofBytes bytes)
  | .filled n fill =>
    if capacityLimit < n then pure (slots, overLimit n)
    else
      match ← SmallBuffer.tryFilled n fill.filler with
      | .ok b => created ⟨b⟩
      | .error message => pure (slots, Answer.error "init_error" message)
  | .clone source =>
    match slots.get? source with
    | some a => created ⟨← a.buffer.clone⟩
    | none => pure (slots, missingSlot source)
  | .write offset bytes => current fun a => do
    if a.buffer.len < offset + bytes.length then pure (slots, Answer.error "out_of_range" "write past length")
    else described slots ⟨← a.buffer.modifyBytes fun bs => Word.overwrite bs offset bytes⟩ []
  | .writeMutable offset bytes => current fun a => do
    -- the writable bytes are taken first, which copies a shared region, then the range checked
    let a : SocketAddress := ⟨← a.buffer.modifyCells id⟩
    if a.buffer.len < offset + bytes.length then
      pure ((slots.put c.slot a).1, Answer.error "out_of_range" "write past length")
    else described slots ⟨← a.buffer.modifyBytes fun bs => Word.overwrite bs offset bytes⟩ []
  | .equals name => current fun a => do
    match slots.get? name with
    | some o =>
      let h ← heap
      described slots a [("equal", .bool (a.bytes h == o.bytes h))]
    | none => pure (slots, missingSlot name)
  | .read => current fun a => do described slots a [("read", Report.hex (a.bytes (← heap)))]
  | .drop => current fun a => do
    a.buffer.release
    pure (slots.remove c.slot, Answer.ok (.fields [("dropped", .text c.slot)]))

def runAddresses (cs : List (Slotted AddressCommand)) : Report × List Log.Event :=
  runSession addressStep [] cs

end SysBytes.Session
