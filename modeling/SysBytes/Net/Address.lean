import SysBytes.Net.Family
import SysBytes.Net.Ip
import SysBytes.Store.Small
import SysBytes.Word

/-!
Socket address records: raw bytes whose first two hold the family, little-endian. IPv4 records
are 16 bytes and IPv6 records 28; a local record is the family, a path of at most 107 bytes and
a NUL. Records live in small buffers, inline up to 28 bytes.
-/
namespace SysBytes.Net

open Store

/-- Why a record cannot be built or read. -/
inductive AddressError where
  | unsupportedFamily (raw : UInt16)
  | truncated (len needed : Nat)
  | pathTooLong (len max : Nat)
  | interiorNul
  deriving DecidableEq, Repr

namespace AddressError

def kind : AddressError → String
  | .unsupportedFamily _ => "UnsupportedFamily"
  | .truncated _ _ => "Truncated"
  | .pathTooLong _ _ => "PathTooLong"
  | .interiorNul => "InteriorNul"

def message : AddressError → String
  | .unsupportedFamily raw => s!"unsupported address family {raw.toNat}"
  | .truncated len needed => s!"address record truncated ({len} bytes, need {needed})"
  | .pathTooLong len max => s!"socket path too long ({len} bytes, max {max})"
  | .interiorNul => "socket path contains an interior NUL byte"

end AddressError

def pathOffset : Nat := 2

def pathRoom : Nat := 108

def inetRecordSize : Nat := 16

def inet6RecordSize : Nat := 28

def storageSize : Nat := 128

/-- The family of record bytes; shorter than two bytes means none. -/
def familyOf (bytes : List UInt8) : Family :=
  if bytes.length < 2 then Family.unspec else ⟨(Word.decodeLE (bytes.take 2)).toUInt16⟩

def SocketAddr.record : SocketAddr → List UInt8
  | .v4 ip portNumber =>
    Word.encodeLE 2 Family.inet.raw.toNat ++ Word.encodeBE 2 portNumber.toNat ++ ip.octets.toList ++
      List.replicate 8 0
  | .v6 ip portNumber flowinfo scope =>
    Word.encodeLE 2 Family.inet6.raw.toNat ++ Word.encodeBE 2 portNumber.toNat ++
      Word.encodeLE 4 flowinfo.toNat ++ ip.octets.toList ++ Word.encodeLE 4 scope.toNat

def socketAddrOf (bytes : List UInt8) : Except AddressError SocketAddr :=
  let f := familyOf bytes
  let portNumber := (Word.decodeBE (Word.slice bytes 2 2)).toUInt16
  if f = Family.inet then
    if bytes.length < inetRecordSize then .error (.truncated bytes.length inetRecordSize)
    else .ok (.v4 (Ipv4.read bytes 4) portNumber)
  else if f = Family.inet6 then
    if bytes.length < inet6RecordSize then .error (.truncated bytes.length inet6RecordSize)
    else .ok (.v6 (Ipv6.read bytes 8) portNumber (Word.decodeLE (Word.slice bytes 4 4)).toUInt32
      (Word.decodeLE (Word.slice bytes 24 4)).toUInt32)
  else .error (.unsupportedFamily f.raw)

def unixPathOf (bytes : List UInt8) : Except AddressError (Option (List UInt8)) :=
  let f := familyOf bytes
  if f ≠ Family.unix then .error (.unsupportedFamily f.raw)
  else
    let path := (bytes.drop pathOffset).takeWhile (· != 0)
    .ok (if path.isEmpty then none else some path)

/-- The text of a record: the IP socket address, the local path, or the family and length. -/
def displayOf (bytes : List UInt8) : String :=
  let f := familyOf bytes
  if f = Family.inet ∨ f = Family.inet6 then
    match socketAddrOf bytes with
    | .ok a => a.text
    | .error e => "<" ++ e.message ++ ">"
  else if f = Family.unix then
    match unixPathOf bytes with
    | .ok (some p) => "unix:" ++ Text.Utf8.lossy p
    | _ => "unix:(unnamed)"
  else s!"<{f.name}, {bytes.length} bytes>"

def debugOf (bytes : List UInt8) : String :=
  s!"SocketAddress \x7b family: {(familyOf bytes).name}, len: {bytes.length}, display: {displayOf bytes} \x7d"

/-- A socket address record held in a small buffer. -/
structure SocketAddress where
  buffer : SmallBuffer
  deriving DecidableEq, Repr

namespace SocketAddress

def empty : SocketAddress := ⟨SmallBuffer.empty⟩

def bytes (h : Heap) (a : SocketAddress) : List UInt8 := a.buffer.bytes h

def forReceiving : HeapM SocketAddress := do pure ⟨← SmallBuffer.withCapacity storageSize⟩

def ofBytes (bytes : List UInt8) : HeapM SocketAddress := do pure ⟨← SmallBuffer.ofBytes bytes⟩

def ofSocketAddr (a : SocketAddr) : HeapM SocketAddress := ofBytes a.record

/-- The local record of a path: refused when the path holds NUL or leaves no room for the final NUL.
-/
def unix (path : List UInt8) : HeapM (Except AddressError SocketAddress) := do
  if path.contains 0 then return .error .interiorNul
  if pathRoom ≤ path.length then return .error (.pathTooLong path.length (pathRoom - 1))
  let len := pathOffset + path.length + 1
  let record := Word.encodeLE 2 Family.unix.raw.toNat ++ path ++ [0]
  let b ← SmallBuffer.filled len fun region =>
    .ok (Word.overwrite (region.map fun _ => 0) 0 record, len)
  pure (.ok ⟨b⟩)

def unnamedUnix : HeapM SocketAddress := do
  let b ← SmallBuffer.filled pathOffset fun region =>
    .ok (Word.overwrite (region.map fun _ => 0) 0 (Word.encodeLE 2 Family.unix.raw.toNat), pathOffset)
  pure ⟨b⟩

def prepareReceive (a : SocketAddress) (capacity : Nat) : HeapM (SocketAddress × List UInt8) := do
  let b ← a.buffer.reserve capacity
  let b ← b.modifyCells id
  pure (⟨b⟩, (b.cells (← heap)).take capacity)

/-- Commits what a receiver reported, clamped to the region it was offered. -/
def commitReceived (a : SocketAddress) (reported capacity : Nat) : HeapM SocketAddress := do
  pure ⟨← a.buffer.setLen (min reported capacity)⟩

end SocketAddress

end SysBytes.Net
