import SysBytes.Net.Address
import SysBytes.Net.Errno
import SysBytes.Control.Buffer

/-!
Passing messages through a socket: the buffers on this side of the system's send and receive
calls. A receive offers an address region and a control region of the configured capacities,
then commits what the system reports, clamped to them; a failed receive commits nothing.
-/
namespace SysBytes.Net

open Store

/-- How messages are received. -/
structure MessageConfig where
  addressCapacity : Nat := storageSize
  controlCapacity : Nat := Control.space 64
  flags : Int32 := 0
  rejectTruncatedControl : Bool := false
  deriving DecidableEq, Repr

def controlTruncatedFlag : Nat := 8

def payloadTruncatedFlag : Nat := 32

def MessageConfig.debugText (c : MessageConfig) : String :=
  let reject := if c.rejectTruncatedControl then "true" else "false"
  s!"MessageConfig \x7b address_capacity: {c.addressCapacity}, control_capacity: {c.controlCapacity}, flags: {c.flags.toInt}, reject_truncated_control: {reject} \x7d"

/-- Why passing a message failed. -/
inductive NetError where
  | io (e : Errno)
  | address (e : AddressError)
  | controlTruncated (capacity : Nat)
  deriving DecidableEq, Repr

namespace NetError

def kind : NetError → String
  | .io _ => "Io"
  | .address _ => "Address"
  | .controlTruncated _ => "ControlTruncated"

def message : NetError → String
  | .io e => "socket I/O error: " ++ e.display
  | .address e => "invalid socket address: " ++ e.message
  | .controlTruncated capacity => s!"control data truncated (capacity {capacity} bytes)"

end NetError

/-- What the system reports for a receive: count, payload, sender record, control bytes and length,
flags. -/
structure Reply where
  count : Nat
  data : List UInt8
  name : List UInt8
  control : List UInt8
  controlLen : Nat
  flags : Nat
  deriving DecidableEq, Repr

structure Received where
  bytes : Nat
  flags : Nat
  deriving DecidableEq, Repr

namespace Received

def controlTruncated (r : Received) : Bool := r.flags &&& controlTruncatedFlag != 0

def payloadTruncated (r : Received) : Bool := r.flags &&& payloadTruncatedFlag != 0

def debugText (r : Received) : String :=
  s!"ReceivedMessage \x7b bytes: {r.bytes}, flags: {r.flags} \x7d"

end Received

/-- Sends through the system, whose answer is `reply`. -/
def sendMessage (reply : Except Errno Nat) (address : Option SocketAddress)
    (control : Control.Buffer) : HeapM (Except NetError Nat) := do
  match reply with
  | .error e => pure (.error (.io e))
  | .ok sent =>
    let h ← heap
    let nameLen := match address with
      | some a => (a.bytes h).length
      | none => 0
    note ⟨.debug, "sendmsg", [("bytes", .nat sent), ("address_len", .nat nameLen),
      ("control_len", .nat (control.committed h).length)]⟩
    pure (.ok sent)

/-- Commits the system's answer into prepared buffers: nothing after a failure, else each reported
length clamped to its capacity. -/
def commitReply (reply : Except Errno Reply) (address : SocketAddress)
    (control : Control.Buffer) (config : MessageConfig) :
    HeapM (SocketAddress × Control.Buffer × Except NetError Received) := do
  match reply with
  | .error e =>
    let address ← address.commitReceived 0 config.addressCapacity
    let control := control.commitReceived 0 config.controlCapacity
    pure (address, control, .error (.io e))
  | .ok r =>
    -- the system is offered the capacity as a 32-bit length, and copies no more than that
    let nameShown := r.name.take (config.addressCapacity % Nat.pow 2 32)
    let buffer ← address.buffer.modifyCells fun cells => Word.overwrite cells 0 nameShown
    let address ← SocketAddress.commitReceived ⟨buffer⟩ r.name.length config.addressCapacity
    let control ← control.modifyCells fun cells =>
      Word.overwrite cells 0 (r.control.take config.controlCapacity)
    let control := control.commitReceived r.controlLen config.controlCapacity
    let received : Received := ⟨r.count, r.flags⟩
    note ⟨.debug, "recvmsg", [("bytes", .nat r.count), ("address_len", .nat r.name.length),
      ("control_len", .nat r.controlLen), ("control_truncated", .flag received.controlTruncated)]⟩
    if received.controlTruncated && config.rejectTruncatedControl then
      pure (address, control, .error (.controlTruncated config.controlCapacity))
    else pure (address, control, .ok received)

/-- Receives through the system: both buffers are prepared, then the answer `reply` is committed. -/
def receiveMessage (reply : Except Errno Reply) (address : SocketAddress)
    (control : Control.Buffer) (config : MessageConfig) :
    HeapM (SocketAddress × Control.Buffer × Except NetError Received) := do
  let (address, _) ← address.prepareReceive config.addressCapacity
  let (control, _) ← control.prepareReceive config.controlCapacity
  commitReply reply address control config

def queryAddress (reply : Except Errno (List UInt8)) : HeapM (Except NetError SocketAddress) := do
  match reply with
  | .error e => pure (.error (.io e))
  | .ok record =>
    let a ← SocketAddress.ofBytes (record.take storageSize)
    let bytes := a.bytes (← heap)
    note ⟨.debug, "queried socket address", [("family", .word (familyOf bytes).name),
      ("len", .nat bytes.length)]⟩
    pure (.ok a)

def querySocketAddr (reply : Except Errno (List UInt8)) : HeapM (Except NetError SocketAddr) := do
  match ← queryAddress reply with
  | .error e => pure (.error e)
  | .ok a =>
    match socketAddrOf (a.bytes (← heap)) with
    | .ok s => pure (.ok s)
    | .error e => pure (.error (.address e))

end SysBytes.Net
