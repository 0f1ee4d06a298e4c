import SysBytes.Session.Address
import SysBytes.Session.Control
import SysBytes.Net.Local

/-!
Sessions over local sockets. Sockets live in named slots over one network; sends and receives go
through the message layer, so their buffers are the library's own. A failing receive or address
query is part of its answer and the session goes on; a failing send, a refused setup call or a
bad destination address ends it.
-/
namespace SysBytes.Session

open Store Net

inductive Destination where
  | unix (name : List UInt8)
  | unnamed
  | raw (bytes : List UInt8)
  | v4 (ip : Ipv4) (portNumber : UInt16)

inductive Descriptor where
  | slot (name : String)
  | raw (fd : Int32)

inductive ControlItem where
  | message (m : Control.Message)
  | fds (items : List Descriptor)

inductive AddressStart where
  | fresh
  | forReceiving
  | named

structure ReceiveArgs where
  buffers : List Nat := [64]
  addressCapacity : Option Nat := none
  controlCapacity : Option Nat := none
  flags : Option Int32 := none
  rejectTruncated : Option Bool := none
  addressStart : AddressStart := .fresh
  controlStart : List ControlItem := []

/-- A command of a socket session. -/
inductive SocketCommand where
  | pair (style : Local.Style) (left right : String)
  | bindDatagram (name : List UInt8)
  | unboundDatagram
  | connectDatagram (name : List UInt8)
  | listen (name : List UInt8)
  | connect (name : List UInt8)
  | accept (into : String)
  | shutdown
  | close
  | send (payload : List (List UInt8)) (target : Option Destination) (control : List ControlItem) (flags : Int32)
  | receive (args : ReceiveArgs)
  | localAddress
  | peerAddress
  | localSocketAddr
  | peerSocketAddr

/-- The sockets of a session: the network and the socket in each slot. -/
structure Sockets where
  net : Local.Network := {}
  slots : Slots Nat := []

def netErrorReport (e : NetError) : Report :=
  let extra := match e with
    | .address a => [("address_error", Report.text a.kind)]
    | _ => []
  .fields ([("error", .text e.kind), ("message", .text e.message)] ++ extra)

def configReport (c : MessageConfig) : Report :=
  .fields [("address_capacity", .nat c.addressCapacity), ("control_capacity", .nat c.controlCapacity),
    ("flags", .int c.flags.toInt), ("reject_truncated_control", .bool c.rejectTruncatedControl),
    ("debug", .text c.debugText)]

def defaultConfigReport : Report :=
  let c : MessageConfig := {}
  (configReport c).extend [("default_control_capacity", .nat c.controlCapacity)]

/-- Why a name cannot be a local address: a zero byte, or no room for the terminating zero. -/
def nameRefusal (name : List UInt8) : Option String :=
  if name.contains 0 then some "paths must not contain interior null bytes"
  else if pathRoom ≤ name.length then some "path must be shorter than SUN_LEN"
  else none

def nameRecord (name : List UInt8) : List UInt8 :=
  Word.encodeLE 2 1 ++ (if name.isEmpty then [] else name ++ [0])

def setupFailure (e : Errno) : Answer := Answer.error "std_io" e.display

def scatter (data : List UInt8) : List Nat → List (List UInt8)
  | [] => []
  | size :: rest =>
    let part := data.take size
    (part ++ List.replicate (size - part.length) 0) :: scatter (data.drop size) rest

def descriptorsOf (w : Sockets) : List Descriptor → Except String (List Int32)
  | [] => .ok []
  | .raw fd :: rest => do pure (fd :: (← descriptorsOf w rest))
  | .slot name :: rest => do
    let fd := (w.slots.get? name).bind fun n => (w.net.socket? n).bind Local.Socket.fd
    match fd with
    | some fd => pure (Word.int32OfBits fd :: (← descriptorsOf w rest))
    | none => .error name

def appendItems (w : Sockets) (b : Control.Buffer) : List ControlItem → HeapM (Except String Control.Buffer)
  | [] => pure (.ok b)
  | .message m :: rest => do appendItems w (← b.append m.level m.kind m.payload) rest
  | .fds items :: rest => do
    match descriptorsOf w items with
    | .ok fds => appendItems w (← b.appendFds fds) rest
    | .error name => pure (.error name)

def Destination.build : Destination → HeapM (Except AddressError SocketAddress)
  | .unix name => SocketAddress.unix name
  | .unnamed => do pure (.ok (← SocketAddress.unnamedUnix))
  | .raw bytes => do pure (.ok (← SocketAddress.ofBytes bytes))
  | .v4 ip portNumber => do pure (.ok (← SocketAddress.ofSocketAddr (.v4 ip portNumber)))

def AddressStart.build : AddressStart → HeapM SocketAddress
  | .fresh => pure SocketAddress.empty
  | .forReceiving => SocketAddress.forReceiving
  | .named => do
    match ← SocketAddress.unix "previous".toUTF8.toList with
    | .ok a => pure a
    | .error _ => pure SocketAddress.empty

def ReceiveArgs.config (a : ReceiveArgs) : MessageConfig :=
  let d : MessageConfig := {}
  { addressCapacity := a.addressCapacity.getD d.addressCapacity,
    controlCapacity := a.controlCapacity.getD d.controlCapacity,
    flags := a.flags.getD d.flags,
    rejectTruncatedControl := a.rejectTruncated.getD d.rejectTruncatedControl }

def Sockets.place (w : Sockets) (name : String) (n : Nat) : Sockets :=
  let (slots, old) := w.slots.put name n
  match old with
  | some o => { net := w.net.close o, slots }
  | none => { w with slots }

/-- Opens a socket bound to a name, checking the name first as the system library does. -/
def Sockets.bound (w : Sockets) (slot : String) (style : Local.Style) (name : List UInt8)
    (listening : Bool) : Sockets × Answer :=
  match nameRefusal name with
  | some text => (w, Answer.error "std_io" text)
  | none =>
    let (net, n) := w.net.create style
    let net := net.bind n name
    let net := if listening then net.listen n else net
    ({ w with net } |>.place slot n, Answer.ok (.fields []))

def Sockets.connectTo (w : Sockets) (slot : String) (name : List UInt8) (fresh : Bool) :
    Sockets × Answer :=
  match nameRefusal name with
  | some text => (w, Answer.error "std_io" text)
  | none =>
    if fresh then
      let (net, n) := w.net.create .stream
      match net.connect n (nameRecord name) with
      | .error e => ({ w with net := net.close n }, setupFailure e)
      | .ok net => ({ w with net } |>.place slot n, Answer.ok (.fields []))
    else
      match w.slots.get? slot with
      | none => (w, missingSlot slot)
      | some n =>
        let styled := match (w.net.socket? n).map Local.Socket.style with
          | some .stream => w.net.connect n (nameRecord name)
          | _ => w.net.connectDatagram n (nameRecord name)
        match styled with
        | .error e => (w, setupFailure e)
        | .ok net => ({ w with net }, Answer.ok (.fields []))

def Sockets.receive (w : Sockets) (n : Nat) (a : ReceiveArgs) : HeapM (Sockets × Answer) := do
  let config := a.config
  let address ← a.addressStart.build
  match ← appendItems w Control.Buffer.empty a.controlStart with
  | .error name => pure (w, missingSlot name)
  | .ok control =>
    let room := a.buffers.foldl (· + ·) 0
    let (net, reply) := w.net.receive n room a.buffers.length config.addressCapacity
      config.controlCapacity (Word.bitsOfInt32 config.flags)
    let (address, control, result) ← receiveMessage reply address control config
    let h ← heap
    let controlReport ← bufferReport true control
    let common := [("address", addressReport h address), ("control", controlReport),
      ("config", configReport config)]
    let outcome := match result, reply with
      | .ok r, .ok rep =>
        [("bytes", Report.nat r.bytes), ("flags", .nat r.flags),
          ("control_truncated", .bool r.controlTruncated), ("payload_truncated", .bool r.payloadTruncated),
          ("debug", .text r.debugText),
          ("payload", .list ((scatter rep.data a.buffers).map Report.hex))]
      | .error e, _ => [("result", netErrorReport e)]
      | .ok _, .error e => [("result", netErrorReport (.io e))]
    pure ({ w with net }, Answer.ok (.fields (common ++ outcome)))

def Sockets.send (w : Sockets) (n : Nat) (payload : List (List UInt8)) (target : Option Destination)
    (items : List ControlItem) (flags : Int32) : HeapM (Sockets × Answer) := do
  let dest ← match target with
    | some d => (do
      match ← d.build with
      | .ok a => pure (Except.ok (some a))
      | .error e => pure (.error e))
    | none => pure (.ok none)
  match dest with
  | .error e => pure (w, Answer.error e.kind e.message)
  | .ok dest =>
    match ← appendItems w Control.Buffer.empty items with
    | .error name => pure (w, missingSlot name)
    | .ok control =>
      let h ← heap
      let record := match dest with
        | some a => a.bytes h
        | none => []
      let (net, reply) := w.net.send n payload.flatten payload.length record
        (Control.messages (control.committed h)) (Word.bitsOfInt32 flags)
      match ← sendMessage reply dest control with
      | .ok sent =>
        pure ({ w with net }, Answer.ok (.fields [("sent", .nat sent),
          ("control_len", .nat (control.committed h).length)]))
      | .error e => pure ({ w with net }, ⟨netErrorReport e, true⟩)

def Sockets.address (w : Sockets) (reply : Except Errno (List UInt8)) : HeapM (Sockets × Answer) := do
  match ← queryAddress reply with
  | .ok a => pure (w, Answer.ok (.fields [("address", addressReport (← heap) a)]))
  | .error e => pure (w, Answer.ok (.fields [("result", netErrorReport e)]))

def Sockets.socketAddr (w : Sockets) (reply : Except Errno (List UInt8)) : HeapM (Sockets × Answer) := do
  match ← querySocketAddr reply with
  | .ok s => pure (w, Answer.ok (.fields [("socket_addr", .text s.text)]))
  | .error e => pure (w, Answer.ok (.fields [("result", netErrorReport e)]))

/-- Runs one command of a socket session. -/
def socketStep (w : Sockets) (c : Slotted SocketCommand) : HeapM (Sockets × Answer) :=
  let done : Answer := Answer.ok (.fields [])
  let current (k : Nat → HeapM (Sockets × Answer)) : HeapM (Sockets × Answer) :=
    match w.slots.get? c.slot with
    | some n => k n
    | none => pure (w, missingSlot c.slot)
  match c.command with
  | .pair style left right =>
    let (net, a, b) := w.net.pair style
    pure (({ w with net }.place left a).place right b, done)
  | .bindDatagram name => pure (w.bound c.slot .datagram name false)
  | .unboundDatagram =>
    let (net, n) := w.net.create .datagram
    pure ({ w with net }.place c.slot n, done)
  | .connectDatagram name => pure (w.connectTo c.slot name false)
  | .listen name => pure (w.bound c.slot .stream name true)
  | .connect name => pure (w.connectTo c.slot name true)
  | .accept into => current fun l =>
    match w.net.accept l with
    | .ok (net, n) => pure ({ w with net }.place into n, done)
    | .error e => pure (w, setupFailure e)
  | .shutdown => current fun n => pure ({ w with net := w.net.shutdownWrite n }, done)
  | .close => current fun n => pure ({ net := w.net.close n, slots := w.slots.remove c.slot }, done)
  | .send payload target items flags => current fun n => w.send n payload target items flags
  | .receive a => current fun n => w.receive n a
  | .localAddress => current fun n => w.address (w.net.localRecord n)
  | .peerAddress => current fun n => w.address (w.net.peerRecord n)
  | .localSocketAddr => current fun n => w.socketAddr (w.net.localRecord n)
  | .peerSocketAddr => current fun n => w.socketAddr (w.net.peerRecord n)

def runSockets (cs : List (Slotted SocketCommand)) : Report × List Log.Event :=
  runSession socketStep {} cs

end SysBytes.Session
