/-!
Packets queued at a local socket, the send-buffer bytes each one holds, and how a stream
receive reads a queue. A read stops early at a part-read packet, at one that passed
descriptors, and before an urgent byte or a spent packet once something was read.
-/
namespace SysBytes.Net.Local

/-- The bytes of one send waiting at a receiver, with the descriptors it passes and the send-buffer
room it holds. -/
structure Packet where
  sender : Nat
  payload : List UInt8
  rights : List (Option Nat) := []
  charge : Nat
  urgent : Bool := false
  deriving DecidableEq, Repr

def Packet.spent (p : Packet) : Bool := p.payload.isEmpty

def heldSockets (ps : List Packet) : List Nat :=
  ps.flatMap fun p => p.rights.filterMap id

/-! ## Send-buffer accounting -/

def pageSize : Nat := 4096

def sendBuffer : Nat := 212992

def sharedInfoSize : Nat := 320

def packetRecordSize : Nat := 256

def roundUp (n k : Nat) : Nat := (n + k - 1) / k * k

/-- The allocation that holds `n` bytes: a size class up to two pages, above that a power of two of
pages. -/
def allocationSize (n : Nat) : Nat :=
  match [8, 16, 32, 64, 96, 128, 192, 256, 512, 1024, 2048, 4096, 8192].find? (n ≤ ·) with
  | some s => s
  | none => pageSize * ((n + pageSize - 1) / pageSize).nextPowerOfTwo

def packetCharge (head pages : Nat) : Nat :=
  allocationSize (roundUp head 64 + sharedInfoSize) + packetRecordSize + pages

def datagramHeadLimit : Nat := 4 * pageSize - sharedInfoSize

def maxPageBytes : Nat := 17 * pageSize

def datagramCharge (len : Nat) : Nat :=
  let pages := if len ≤ datagramHeadLimit then 0
    else roundUp (min (len - datagramHeadLimit) maxPageBytes) pageSize
  packetCharge (len - pages) pages

def streamHeadLimit : Nat := pageSize - sharedInfoSize

/-- The most bytes one stream packet carries. -/
def streamChunk (remaining : Nat) : Nat :=
  min remaining (min (sendBuffer / 2 - 64) (streamHeadLimit + 8 * pageSize))

def streamCharge (size : Nat) : Nat :=
  let pages := min size (roundUp (size - streamHeadLimit) pageSize)
  packetCharge (size - pages) (roundUp pages pageSize)

/-! ## Reading a stream queue -/

inductive Reach where
  | read (before : List Packet) (p : Packet) (after : List Packet)
  | stop
  | empty

/-- Where a stream read stands while it looks for bytes; the queue is `before` then `here`. -/
structure Cursor where
  before : List Packet
  here : List Packet
  pending : Bool
  dropped : List Packet := []

def Cursor.start (queue : List Packet) (pending : Bool) : Cursor := ⟨[], queue, pending, []⟩

def Cursor.halt (c : Cursor) : Cursor := { c with before := c.before ++ c.here, here := [] }

def Cursor.pass (peek : Bool) (c : Cursor) : Cursor :=
  match c.here with
  | [] => c
  | p :: rest =>
    if peek then { c with before := c.before ++ [p], here := rest }
    else { c with here := rest, dropped := c.dropped ++ [p], pending := c.pending && !p.urgent }

def Cursor.urgentRule (peek : Bool) (copied : Nat) (c : Cursor) : Cursor :=
  match c.here with
  | [] => c
  | h :: _ =>
    if !h.payload.isEmpty && !h.urgent then c
    else
      let c := if !h.payload.isEmpty then c
        else if copied > 0 && !c.pending then c.halt
        else c.pass peek
      match c.here with
      | [] => c
      | u :: _ =>
        if !u.urgent then c
        else if copied > 0 then c.halt
        else c.pass peek

/-- Where a stream read goes on, `copied` bytes read so far; `fuel` bounds the packets. -/
def Cursor.seek (peek : Bool) (copied : Nat) : Nat → Cursor → Reach × Cursor
  | 0, c => (.empty, c.halt)
  | fuel + 1, c =>
    match c.here with
    | [] => (.empty, c)
    | _ :: _ =>
      let c := c.urgentRule peek copied
      match c.here with
      | [] => (if copied > 0 then .stop else .empty, c)
      | p :: after =>
        if !p.payload.isEmpty then (.read c.before p after, c)
        else
          let spent := c.here.takeWhile Packet.spent
          seek peek copied fuel { c with before := c.before ++ spent, here := c.here.dropWhile Packet.spent }

structure Taken where
  data : List UInt8
  rights : List (Option Nat)
  sender : Option Nat
  rest : List Packet
  dropped : List Packet
  drained : Bool

/-- A consuming read of up to `room` more bytes; `fuel` bounds the packets it reads. -/
def takeStream : Nat → List Packet → Nat → Nat → Taken
  | 0, queue, _, _ => ⟨[], [], none, queue, [], false⟩
  | fuel + 1, queue, room, copied =>
    let (r, c) := Cursor.seek false copied (queue.length + 1) (.start queue (queue.any (·.urgent)))
    match r with
    | .stop => ⟨[], [], none, c.before ++ c.here, c.dropped, false⟩
    | .empty => ⟨[], [], none, c.before ++ c.here, c.dropped, true⟩
    | .read before p after =>
      let chunk := p.payload.take room
      let left := p.payload.drop room
      if !left.isEmpty then
        ⟨chunk, p.rights, some p.sender, before ++ { p with payload := left, rights := [] } :: after,
          c.dropped, false⟩
      else if !p.rights.isEmpty || room - chunk.length = 0 then
        ⟨chunk, p.rights, some p.sender, before ++ after, c.dropped, false⟩
      else
        let t := takeStream fuel (before ++ after) (room - chunk.length) (copied + chunk.length)
        ⟨chunk ++ t.data, t.rights, some p.sender, t.rest, c.dropped ++ t.dropped, t.drained⟩

/-- A peeking read: it goes on past a full room, to the end of the queue or to a packet passing
descriptors. -/
def peekStream : Nat → List Packet → Bool → Nat → Nat → Taken
  | 0, _, _, _, _ => ⟨[], [], none, [], [], false⟩
  | fuel + 1, here, pending, room, copied =>
    match (Cursor.seek true copied (here.length + 1) (.start here pending)).1 with
    | .stop => ⟨[], [], none, [], [], false⟩
    | .empty => ⟨[], [], none, [], [], true⟩
    | .read _ p after =>
      let chunk := p.payload.take room
      if !p.rights.isEmpty || after.isEmpty then ⟨chunk, p.rights, some p.sender, [], [], false⟩
      else
        let t := peekStream fuel after pending (room - chunk.length) (copied + chunk.length)
        ⟨chunk ++ t.data, t.rights, some p.sender, [], [], t.drained⟩

end SysBytes.Net.Local
