/-!
System error numbers that local sockets can give, with the C library's text for each. An error
is written as its text followed by its number: `Broken pipe (os error 32)`.
-/
namespace SysBytes.Net

/-- A system error. -/
inductive Errno where
  | notPermitted
  | noEntry
  | badDescriptor
  | wouldBlock
  | accessDenied
  | notDirectory
  | invalid
  | brokenPipe
  | tooLong
  | wrongProtocol
  | notSupported
  | addressInUse
  | connectionReset
  | alreadyConnected
  | notConnected
  | connectionRefused
  deriving DecidableEq, Repr

namespace Errno

def code : Errno → Nat
  | .notPermitted => 1
  | .noEntry => 2
  | .badDescriptor => 9
  | .wouldBlock => 11
  | .accessDenied => 13
  | .notDirectory => 20
  | .invalid => 22
  | .brokenPipe => 32
  | .tooLong => 90
  | .wrongProtocol => 91
  | .notSupported => 95
  | .addressInUse => 98
  | .connectionReset => 104
  | .alreadyConnected => 106
  | .notConnected => 107
  | .connectionRefused => 111

def text : Errno → String
  | .notPermitted => "Operation not permitted"
  | .noEntry => "No such file or directory"
  | .badDescriptor => "Bad file descriptor"
  | .wouldBlock => "Resource temporarily unavailable"
  | .accessDenied => "Permission denied"
  | .notDirectory => "Not a directory"
  | .invalid => "Invalid argument"
  | .brokenPipe => "Broken pipe"
  | .tooLong => "Message too long"
  | .wrongProtocol => "Protocol wrong type for socket"
  | .notSupported => "Operation not supported"
  | .addressInUse => "Address already in use"
  | .connectionReset => "Connection reset by peer"
  | .alreadyConnected => "Transport endpoint is already connected"
  | .notConnected => "Transport endpoint is not connected"
  | .connectionRefused => "Connection refused"

def display (e : Errno) : String := s!"{e.text} (os error {e.code})"

end Errno

end SysBytes.Net
