import SysBytes.Session.Control
import SysBytes.Session.Path
import SysBytes.Session.Shared
import SysBytes.Session.Small
import SysBytes.Session.Address
import SysBytes.Session.Logged
import SysBytes.Session.Socket
import SysBytes.Store.Growth
import SysBytes.Net.Family
import SysBytes.Log.Level

/-!
Requests: the questions the library answers, each about one capability, and runs of commands
over named slots. A request may also be run with a log, which adds the events it reported.
-/
namespace SysBytes.Session

open Log

/-- A question to the library. -/
inductive Request where
  | grownCapacity (current requested : Nat)
  | controlLayout (payloadLen : Nat)
  | family (raw : UInt16)
  | logLevel (text : String)
  | logFormat (text : String)
  | control (steps : List (Slotted ControlCommand))
  | component (bytes : List UInt8)
  | componentText (text : String)
  | sortComponents (names : List (List UInt8))
  | sortPaths (paths : List (List UInt8))
  | path (steps : List (Slotted PathCommand))
  | shared (steps : List (Slotted SharedCommand))
  | small (steps : List (Slotted SmallCommand))
  | address (steps : List (Slotted AddressCommand))
  | messageConfig
  | sockets (steps : List (Slotted SocketCommand))
  | logged (choice : LogChoice) (again : Option LogChoice) (request : Request)

def failed (f : Fault) : Report := Report.failure "panic" f.message

/-- The answer to a request and the events it reported. -/
def Request.run : Request → Report × List Event
  | .grownCapacity current requested =>
    match Store.grownCapacity current requested with
    | .ok n => (.fields [("capacity", .nat n)], [])
    | .error f => (failed f, [])
  | .controlLayout n =>
    (.fields [("space", .nat (Control.space n)), ("message_len", .nat (Control.messageLen n)),
      ("header_size", .nat Control.headerSize)], [])
  | .family raw =>
    let f : Net.Family := ⟨raw⟩
    (.fields [("display", .text f.name), ("debug", .text f.name), ("raw", .nat raw.toNat),
      ("is_unspec", .bool (f = .unspec)), ("is_unix", .bool (f = .unix)),
      ("is_inet", .bool (f = .inet)), ("is_inet6", .bool (f = .inet6))], [])
  | .logLevel text =>
    match Level.parse text with
    | .ok l => (.fields [("level", .text l.name)], [])
    | .error e => (Report.failure "ParseLogError" e.message, [])
  | .logFormat text =>
    match Format.parse text with
    | .ok f => (.fields [("format", .text f.name)], [])
    | .error e => (Report.failure "ParseLogError" e.message, [])
  | .control steps => runControl steps
  | .component bytes =>
    match Path.checkName bytes with
    | .ok c =>
      let kind := (Path.Kind.of c).name
      ((componentReport c).extend [("buf_kind", .text kind),
        ("buf_display", .text (Text.Utf8.lossy c)), ("buf_debug", .text (Path.componentDebug c))], [])
    | .error e => (Report.failure e.kind e.message, [])
  | .componentText text =>
    match Path.checkName (Text.Utf8.encode text) with
    | .ok c => (.fields [("kind", .text (Path.Kind.of c).name), ("bytes", Report.bytes c)], [])
    | .error e => (Report.failure e.kind e.message, [])
  | .sortComponents names =>
    match names.mapM Path.checkName with
    | .ok cs =>
      let sorted := cs.mergeSort fun a b => Path.FilePath.compareBytes a b != .gt
      (.fields [("sorted", .list (sorted.map Report.bytes))], [])
    | .error e => (Report.failure e.kind e.message, [])
  | .sortPaths paths =>
    match paths.mapM Path.FilePath.ofBytes with
    | .ok ps =>
      let sorted := ps.mergeSort fun a b => a.order b != .gt
      (.fields [("sorted", .list (sorted.map fun p => Report.bytes p.bytes))], [])
    | .error e => (Report.failure e.kind e.message, [])
  | .path steps => runPaths steps
  | .shared steps => runShared steps
  | .small steps => runSmall steps
  | .address steps => runAddresses steps
  | .messageConfig => (defaultConfigReport, [])
  | .sockets steps => runSockets steps
  | .logged choice again request => (loggedAnswer choice again request.run, [])

def Request.answer (r : Request) : Report := r.run.1

end SysBytes.Session
