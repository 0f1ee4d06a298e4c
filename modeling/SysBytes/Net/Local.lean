import SysBytes.Net.Message
import SysBytes.Net.Names
import SysBytes.Net.Queue

/-!
Local sockets inside one machine, as explicit state; every system call is a function from the
state to the new state and its result. Bound names outlast their sockets, and a socket lives
while the program holds its descriptor or a queued packet passes it. Streams carry bytes and one
urgent byte; datagrams keep their bounds; descriptors travel with the first packet of a send.
-/
namespace SysBytes.Net.Local

inductive Style where
  | stream
  | datagram
  deriving DecidableEq, Repr

/-- A socket: its kind, descriptor, name, peer, listening state, queue, shutdown flags, pending
error and in-flight count. -/
structure Socket where
  style : Style
  fd : Option Nat := none
  name : Option (List UInt8) := none
  peer : Option Nat := none
  listening : Bool := false
  backlog : List Nat := []
  queue : List Packet := []
  sendShut : Bool := false
  recvShut : Bool := false
  pending : Option Errno := none
  carried : Nat := 0
  alive : Bool := true
  deriving Repr

def Socket.record (s : Socket) : List UInt8 :=
  match s.name with
  | some n => Word.encodeLE 2 1 ++ n ++ [0]
  | none => Word.encodeLE 2 1

def Socket.holdsUnread (s : Socket) : Bool :=
  match s.queue with
  | [] => false
  | p :: rest => !p.payload.isEmpty || !rest.isEmpty

def urgentFlag : Nat := 1

def peekFlag : Nat := 2

def waitAllFlag : Nat := 256

def truncFlag : Nat := 32

def closeOnExecFlag : Nat := 0x40000000

def compatFlag : Nat := 0x80000000

def maxRights : Nat := 253

def maxPieces : Nat := 1024

def credentialsKind : Int32 := 2

def noId : Nat := 0xFFFFFFFF

def datagramBacklog : Nat := 10

def datagramLimit : Nat := sendBuffer - 32

/-- The local sockets and the table of bound names. -/
structure Network where
  sockets : List Socket := []
  files : List (List UInt8 × Nat) := []
  deriving Repr

namespace Network

def socket? (net : Network) (n : Nat) : Option Socket := net.sockets[n]?

def modify (net : Network) (n : Nat) (f : Socket → Socket) : Network :=
  { net with sockets := net.sockets.modify n f }

def openDescriptors (net : Network) : List Nat :=
  net.sockets.filterMap fun s => if s.alive then s.fd else none

def firstFree (used : List Nat) : Nat → Nat → Nat
  | 0, k => k
  | fuel + 1, k => if used.contains k then firstFree used fuel (k + 1) else k

def freeDescriptor (net : Network) : Nat :=
  firstFree net.openDescriptors (net.openDescriptors.length + 1) 3

def receivedDescriptors (net : Network) : Nat → List Nat → List Nat
  | 0, _ => []
  | count + 1, taken =>
    let used := net.openDescriptors ++ taken
    let fd := firstFree used (used.length + 1) 3
    fd :: receivedDescriptors net count (taken ++ [fd])

def holder (net : Network) (fd : Int) : Option Nat :=
  net.sockets.findIdx? fun s => s.alive && s.fd.any fun k => (k : Int) == fd

def isOpen (net : Network) (fd : Int) : Bool :=
  decide (0 ≤ fd ∧ fd < 3) || (net.holder fd).isSome

def charged (net : Network) (n : Nat) : Nat :=
  net.sockets.foldl (fun acc t => t.queue.foldl (fun acc p => if p.sender = n then acc + p.charge else acc) acc) 0

def inFlight (net : Network) : Nat :=
  net.sockets.foldl (fun acc t => acc + (heldSockets t.queue).length) 0

def create (net : Network) (style : Style) : Network × Nat :=
  ({ net with sockets := net.sockets ++ [{ style, fd := some net.freeDescriptor }] },
    net.sockets.length)

def pair (net : Network) (style : Style) : Network × Nat × Nat :=
  let (net, a) := net.create style
  let (net, b) := net.create style
  ((net.modify a fun s => { s with peer := some b }).modify b fun s => { s with peer := some a },
    a, b)

def validRecord (record : List UInt8) : Bool :=
  decide (pathOffset < record.length) && decide (record.length ≤ pathOffset + pathRoom) &&
    Word.decodeLE (record.take 2) == 1

def host (net : Network) : Host := ⟨net.files, [0, 1, 2] ++ net.openDescriptors⟩

/-- The open socket of a kind that a destination record names, or the error a connection to it gets.
-/
def resolve (net : Network) (record : List UInt8) (style : Style) : Except Errno Nat :=
  let path := (record.drop pathOffset).takeWhile (· != 0)
  if path.isEmpty then .error .connectionRefused
  else match locate net.host path with
    | .error e => .error e
    | .ok (.socket n) =>
      match net.socket? n with
      | some s =>
        if !s.alive then .error .connectionRefused
        else if s.style ≠ style then .error .wrongProtocol
        else .ok n
      | none => .error .connectionRefused
    | .ok spot => .error spot.refusal

def bind (net : Network) (n : Nat) (name : List UInt8) : Network :=
  let named := net.modify n fun s => { s with name := some name }
  { named with files := (net.files.filter fun f => f.1 != name) ++ [(name, n)] }

def listen (net : Network) (n : Nat) : Network :=
  net.modify n fun s => { s with listening := true }

/-- Connects a stream socket to the listener a record names; the new connection waits for an accept.
-/
def connect (net : Network) (n : Nat) (record : List UInt8) : Except Errno Network :=
  if !validRecord record then .error .invalid
  else match net.resolve record .stream with
  | .error e => .error e
  | .ok l =>
    match net.socket? l, net.socket? n with
    | none, _ | _, none => .error .connectionRefused
    | some t, some s =>
      if !t.listening || t.recvShut then .error .connectionRefused
      else if s.peer.isSome then .error .alreadyConnected
      else if s.listening then .error .invalid
      else
        let e := net.sockets.length
        let waiting : Socket := { style := .stream, name := t.name, peer := some n }
        let net := { net with sockets := net.sockets ++ [waiting] }
        .ok ((net.modify n fun s => { s with peer := some e }).modify l fun t =>
          { t with backlog := t.backlog ++ [e] })

def accept (net : Network) (l : Nat) : Except Errno (Network × Nat) :=
  match net.socket? l with
  | none => .error .badDescriptor
  | some t =>
    if t.style = .datagram then .error .notSupported
    else if !t.listening then .error .invalid
    else match t.backlog with
      | [] => .error .wouldBlock
      | e :: rest =>
        let fd := net.freeDescriptor
        .ok ((net.modify l fun t => { t with backlog := rest }).modify e fun s => { s with fd := some fd }, e)

/-! ## Ending sockets -/

/-- Ends one socket and drops its queue; returns the sockets the dropped packets passed. -/
def endOne (net : Network) (n : Nat) (unaccepted : Bool) : Network × List Nat :=
  match net.socket? n with
  | none => (net, [])
  | some s =>
    let net := net.modify n fun s =>
      { s with alive := false, fd := none, peer := none, queue := [], backlog := [] }
    let net := match s.style, s.peer with
      | .stream, some p =>
        let reset := s.holdsUnread || unaccepted
        net.modify p fun t =>
          { t with sendShut := true, recvShut := true, pending := if reset then some Errno.connectionReset else t.pending }
      | _, _ => net
    (net, heldSockets s.queue)

def release (net : Network) (n : Nat) : Network × List Nat :=
  let waiting := ((net.socket? n).map Socket.backlog).getD []
  waiting.foldl (fun (net, held) e => let (net, more) := net.endOne e true; (net, held ++ more))
    (net.endOne n false)

/-- Drops one reference to each socket listed; a socket left without descriptor and references ends.
-/
def unref : Nat → Network → List Nat → Network
  | 0, net, _ => net
  | _ + 1, net, [] => net
  | fuel + 1, net, r :: rest =>
    match net.socket? r with
    | none => unref fuel net rest
    | some s =>
      let net := net.modify r fun s => { s with carried := s.carried - 1 }
      if s.carried = 1 && s.fd.isNone && s.alive then
        let (net, held) := net.release r
        unref fuel net (rest ++ held)
      else unref fuel net rest

def letGo (net : Network) (refs : List Nat) : Network :=
  net.unref (refs.length + net.inFlight + 1) refs

/-- Closes the program's descriptor of a socket; a socket still in flight keeps working. -/
def close (net : Network) (n : Nat) : Network :=
  match net.socket? n with
  | none => net
  | some s =>
    if s.carried > 0 then net.modify n fun s => { s with fd := none }
    else
      let (net, held) := net.release n
      net.letGo held

/-! ## Connecting datagram sockets and shutting down -/

def disconnect (net : Network) (n o : Nat) : Network :=
  match net.socket? n with
  | none => net
  | some s =>
    let net := net.modify n fun s => { s with peer := none, queue := [] }
    if s.queue.isEmpty then net
    else
      let net := match net.socket? o with
        | some t => if t.alive && t.peer == some n then net.modify o fun t => { t with pending := some .connectionReset } else net
        | none => net
      net.letGo (heldSockets s.queue)

def connectDatagram (net : Network) (n : Nat) (record : List UInt8) : Except Errno Network :=
  if !validRecord record then .error .invalid
  else match net.resolve record .datagram with
  | .error e => .error e
  | .ok o =>
    match net.socket? o, net.socket? n with
    | some t, some s =>
      if !(t.peer.isNone || t.peer == some n) then .error .notPermitted
      else
        let net := match s.peer with
          | some old => if old = o then net else net.disconnect n old
          | none => net
        .ok (net.modify n fun s => { s with peer := some o })
    | _, _ => .error .connectionRefused

def shutdownWrite (net : Network) (n : Nat) : Network :=
  match net.socket? n with
  | none => net
  | some s =>
    let net := net.modify n fun s => { s with sendShut := true }
    match s.style, s.peer with
    | .stream, some p => net.modify p fun t => { t with recvShut := true }
    | _, _ => net

/-! ## Sending -/

/-- The descriptors the control messages pass, or why the system refuses them. -/
def rightsOf (net : Network) : List Control.Message → List (Option Nat) → Except Errno (List (Option Nat))
  | [], passed => .ok passed
  | m :: rest, passed =>
    if m.level ≠ Control.socketLevel then net.rightsOf rest passed
    else if m.kind = Control.rightsKind then
      let count := m.payload.length / 4
      let fds := (List.range count).map fun i => (Word.decodeInt32 (Word.slice m.payload (4 * i) 4)).toInt
      if passed.length + count > maxRights then .error .invalid
      else if fds.all net.isOpen then net.rightsOf rest (passed ++ fds.map net.holder)
      else .error .badDescriptor
    else if m.kind = credentialsKind then
      if m.payload.length ≠ 12 then .error .invalid
      else if Word.decodeLE (Word.slice m.payload 4 4) = noId || Word.decodeLE (Word.slice m.payload 8 4) = noId then
        .error .invalid
      else .error .notPermitted
    else .error .invalid

def deliver (net : Network) (o : Nat) (p : Packet) : Network :=
  let net := p.rights.foldl (fun net r => match r with
    | some k => net.modify k fun s => { s with carried := s.carried + 1 }
    | none => net) net
  net.modify o fun t => { t with queue := t.queue ++ [p] }

/-- Takes send-buffer room for one packet, after reporting a pending error or a shut-down writer. -/
def allocate (net : Network) (n : Nat) : Network × Except Errno Unit :=
  match net.socket? n with
  | none => (net, .error .badDescriptor)
  | some s =>
    match s.pending with
    | some e => (net.modify n fun s => { s with pending := none }, .error e)
    | none =>
      if s.sendShut then (net, .error .brokenPipe)
      else if net.charged n ≥ sendBuffer then (net, .error .wouldBlock)
      else (net, .ok ())

def takesBytes (net : Network) (p : Nat) : Bool :=
  match net.socket? p with
  | some t => t.alive && !t.recvShut
  | none => false

def sentOr (sent : Nat) (e : Errno) : Except Errno Nat := if sent > 0 then .ok sent else .error e

def pushStream : Nat → Network → Nat → Nat → List UInt8 → List (Option Nat) → Nat → Network × Except Errno Nat
  | 0, net, _, _, _, _, sent => (net, .ok sent)
  | fuel + 1, net, n, p, bytes, rights, sent =>
    if bytes.isEmpty then (net, .ok sent)
    else match net.allocate n with
    | (net, .error e) => (net, sentOr sent e)
    | (net, .ok ()) =>
      if !net.takesBytes p then (net, sentOr sent .brokenPipe)
      else
        let size := streamChunk bytes.length
        let net := net.deliver p ⟨n, bytes.take size, rights, streamCharge size, false⟩
        pushStream fuel net n p (bytes.drop size) [] (sent + size)

def pushUrgent (net : Network) (n p : Nat) (byte : List UInt8) (rights : List (Option Nat)) (sent : Nat) :
    Network × Except Errno Nat :=
  match net.allocate n with
  | (net, .error e) => (net, sentOr sent e)
  | (net, .ok ()) =>
    if !net.takesBytes p then (net, sentOr sent .brokenPipe)
    else
      let net := net.modify p fun t => { t with queue := t.queue.map fun q => { q with urgent := false } }
      let net := net.deliver p ⟨n, byte, if sent > 0 then [] else rights, streamCharge 1, true⟩
      (net, .ok (sent + 1))

def sendStream (net : Network) (n : Nat) (s : Socket) (payload dest : List UInt8)
    (rights : List (Option Nat)) (flags : Nat) : Network × Except Errno Nat :=
  let urgent := flags &&& urgentFlag != 0
  if urgent && payload.isEmpty then (net, .error .notSupported)
  else if !dest.isEmpty then (net, .error (if s.peer.isSome then .alreadyConnected else .notSupported))
  else match s.peer with
  | none => (net, .error .notConnected)
  | some p =>
    if s.sendShut then (net, .error .brokenPipe)
    else
      let inBand := if urgent then payload.dropLast else payload
      match net.pushStream (inBand.length + 1) n p inBand rights 0 with
      | (net, .error e) => (net, .error e)
      | (net, .ok sent) =>
        if urgent && sent = inBand.length then net.pushUrgent n p (payload.drop inBand.length) rights sent
        else (net, .ok sent)

/-- Sends one datagram, to the named socket or else to the peer. -/
def sendDatagram (net : Network) (n : Nat) (s : Socket) (payload dest : List UInt8)
    (rights : List (Option Nat)) (flags : Nat) : Network × Except Errno Nat :=
  if flags &&& urgentFlag != 0 then (net, .error .notSupported)
  else if !dest.isEmpty && !validRecord dest then (net, .error .invalid)
  else if payload.length > datagramLimit then (net, .error .tooLong)
  else match net.allocate n with
  | (net, .error e) => (net, .error e)
  | (net, .ok ()) =>
    let target : Except Errno Nat :=
      if dest.isEmpty then (match s.peer with
        | some p => .ok p
        | none => .error .notConnected)
      else net.resolve dest .datagram
    match target with
    | .error e => (net, .error e)
    | .ok o =>
      match net.socket? o with
      | none => (net, .error .connectionRefused)
      | some t =>
        if !(t.peer.isNone || t.peer == some n) then (net, .error .notPermitted)
        else if !t.alive then
          if s.peer == some o then (net.disconnect n o, .error .connectionRefused)
          else (net, .error .connectionRefused)
        else if t.recvShut then (net, .error .brokenPipe)
        else if o ≠ n && t.peer != some n && t.queue.length > datagramBacklog then (net, .error .wouldBlock)
        else (net.deliver o ⟨n, payload, rights, datagramCharge payload.length, false⟩, .ok payload.length)

/-- Sends on a socket: the call's own checks first, then the control messages. -/
def send (net : Network) (n : Nat) (payload : List UInt8) (pieces : Nat) (dest : List UInt8)
    (control : List Control.Message) (flags : Nat) : Network × Except Errno Nat :=
  if flags &&& compatFlag != 0 then (net, .error .invalid)
  else match net.socket? n with
  | none => (net, .error .badDescriptor)
  | some s =>
    if pieces > maxPieces then (net, .error .tooLong)
    else match net.rightsOf control [] with
    | .error e => (net, .error e)
    | .ok rights =>
      match s.style with
      | .stream => net.sendStream n s payload dest rights flags
      | .datagram => net.sendDatagram n s payload dest rights flags

/-! ## Receiving -/

def senderRecord (net : Network) (sender : Option Nat) (nameRoom : Nat) : List UInt8 :=
  if nameRoom = 0 then []
  else match sender.bind net.socket? with
    | some s => if s.name.isSome then s.record else []
    | none => []

/-- Writes received descriptors into `room` control bytes as one rights message, as many as fit. -/
def rightsMessage (net : Network) (rights room : Nat) : List UInt8 × Nat × Nat :=
  if rights = 0 then ([], 0, 0)
  else if room = 0 then ([], 0, controlTruncatedFlag)
  else
    let fit := if room ≤ Control.headerSize then 0 else (room - Control.headerSize) / 4
    let count := min fit rights
    let cut := if count < rights then controlTruncatedFlag else 0
    if count = 0 then ([], 0, cut)
    else
      let fds := net.receivedDescriptors count []
      let header := Word.encodeLE 8 (Control.messageLen (4 * count)) ++
        Word.encodeInt32 Control.socketLevel ++ Word.encodeInt32 Control.rightsKind
      (header ++ fds.flatMap (fun fd => Word.encodeLE 4 fd), min (Control.space (4 * count)) room, cut)

def reply (net : Network) (data : List UInt8) (count rights : Nat) (sender : Option Nat)
    (nameRoom controlRoom flags : Nat) : Reply :=
  let (control, controlLen, cut) := net.rightsMessage rights controlRoom
  { count, data, name := net.senderRecord sender nameRoom, control, controlLen,
    flags := (flags &&& closeOnExecFlag) ||| cut }

/-- Receives a stream's urgent byte; unless peeking, its packet stays queued with no bytes left. -/
def receiveUrgent (net : Network) (n : Nat) (s : Socket) (room flags : Nat) :
    Network × Except Errno Reply :=
  let ahead := s.queue.takeWhile (!·.urgent)
  match s.queue.dropWhile (!·.urgent) with
  | [] => (net, .error .invalid)
  | p :: behind =>
    let r := net.reply (p.payload.take (min room 1)) 1 0 none 0 0 flags
    let r := { r with flags := r.flags ||| urgentFlag }
    if flags &&& peekFlag != 0 then (net, .ok r)
    else
      let spent := ahead.getLast?.filter (·.payload.isEmpty)
      let ahead := if spent.isSome then ahead.dropLast else ahead
      let net := net.modify n fun s =>
        { s with queue := ahead ++ { p with payload := [], urgent := false } :: behind }
      (net.letGo (heldSockets spent.toList), .ok r)

/-- Receives on a stream into `room` bytes; an empty read reports a pending error, then the end of a
shut stream. -/
def receiveStream (net : Network) (n : Nat) (s : Socket) (room nameRoom controlRoom flags : Nat) :
    Network × Except Errno Reply :=
  if s.listening || s.peer.isNone then (net, .error .invalid)
  else if flags &&& urgentFlag != 0 then net.receiveUrgent n s room flags
  else
    let peek := flags &&& peekFlag != 0
    let target := if flags &&& waitAllFlag != 0 then max room 1 else 1
    let fuel := s.queue.length + 1
    let t := if peek then peekStream fuel s.queue (s.queue.any (·.urgent)) room 0
      else takeStream fuel s.queue room 0
    let net' := if peek then net else net.modify n fun s => { s with queue := t.rest }
    let copied := t.data.length
    let done (net : Network) : Network × Except Errno Reply :=
      let r := net.reply t.data copied t.rights.length t.sender nameRoom controlRoom flags
      let net := if peek then net else net.letGo (heldSockets t.dropped ++ t.rights.filterMap id)
      (net, .ok r)
    let failed (net : Network) (e : Errno) : Network × Except Errno Reply :=
      (net.letGo (heldSockets t.dropped), .error e)
    if t.drained && copied < target then
      match s.pending with
      | some e =>
        let net' := net'.modify n fun s => { s with pending := none }
        if copied > 0 then done net' else failed net' e
      | none => if s.recvShut || copied > 0 then done net' else failed net' .wouldBlock
    else done net'

def receiveDatagram (net : Network) (n : Nat) (s : Socket) (room nameRoom controlRoom flags : Nat) :
    Network × Except Errno Reply :=
  if flags &&& urgentFlag != 0 then (net, .error .notSupported)
  else match s.pending with
  | some e => (net.modify n fun s => { s with pending := none }, .error e)
  | none =>
    match s.queue with
    | [] => (net, .error .wouldBlock)
    | p :: rest =>
      let peek := flags &&& peekFlag != 0
      let data := p.payload.take room
      let cut := if room < p.payload.length then truncFlag else 0
      let count := if flags &&& truncFlag != 0 then p.payload.length else data.length
      let net' := if peek then net else net.modify n fun s => { s with queue := rest }
      let r := net'.reply data count p.rights.length (some p.sender) nameRoom controlRoom flags
      let net' := if peek then net' else net'.letGo (heldSockets [p])
      (net', .ok { r with flags := r.flags ||| cut })

/-- Receives on a socket; the call's own checks come first, the name room read as a signed 32-bit
length. -/
def receive (net : Network) (n room pieces nameRoom controlRoom flags : Nat) : Network × Except Errno Reply :=
  if flags &&& compatFlag != 0 then (net, .error .invalid)
  else match net.socket? n with
  | none => (net, .error .badDescriptor)
  | some s =>
    if nameRoom ≠ 0 ∧ Nat.pow 2 31 ≤ nameRoom % Nat.pow 2 32 then (net, .error .invalid)
    else if pieces > maxPieces then (net, .error .tooLong)
    else match s.style with
    | .stream => net.receiveStream n s room nameRoom controlRoom flags
    | .datagram => net.receiveDatagram n s room nameRoom controlRoom flags

def localRecord (net : Network) (n : Nat) : Except Errno (List UInt8) :=
  match net.socket? n with
  | some s => .ok s.record
  | none => .error .badDescriptor

def peerRecord (net : Network) (n : Nat) : Except Errno (List UInt8) :=
  match (net.socket? n).bind Socket.peer with
  | some p =>
    match net.socket? p with
    | some t => .ok t.record
    | none => .error .notConnected
  | none => .error .notConnected

end Network

end SysBytes.Net.Local
