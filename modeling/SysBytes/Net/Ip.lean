import SysBytes.Text.Hex

/-!
IP addresses and socket addresses, and their text: dotted decimal for IPv4; for IPv6 eight
hex groups with the longest run of zero groups written `::`, and `::ffff:` before a mapped IPv4
address. A socket address adds the port, and for IPv6 a scope written after `%`.
-/
namespace SysBytes.Net

structure Ipv4 where
  octets : Vector UInt8 4
  deriving DecidableEq, Repr

structure Ipv6 where
  octets : Vector UInt8 16
  deriving DecidableEq, Repr

namespace Ipv4

def read (bytes : List UInt8) (offset : Nat) : Ipv4 :=
  ⟨Vector.ofFn fun i => bytes.getD (offset + i.val) 0⟩

def ofList? (bytes : List UInt8) : Option Ipv4 :=
  if bytes.length = 4 then some (read bytes 0) else none

def text (a : Ipv4) : String := ".".intercalate (a.octets.toList.map fun b => toString b.toNat)

end Ipv4

namespace Ipv6

def read (bytes : List UInt8) (offset : Nat) : Ipv6 :=
  ⟨Vector.ofFn fun i => bytes.getD (offset + i.val) 0⟩

def ofList? (bytes : List UInt8) : Option Ipv6 :=
  if bytes.length = 16 then some (read bytes 0) else none

def groups (a : Ipv6) : List Nat :=
  (List.range 8).map fun i => (a.octets.toList.getD (2 * i) 0).toNat * 256 +
    (a.octets.toList.getD (2 * i + 1) 0).toNat

def mappedV4? (a : Ipv6) : Option Ipv4 :=
  if a.groups.take 6 = [0, 0, 0, 0, 0, 0xFFFF] then some (Ipv4.read a.octets.toList 12) else none

/-- The start and length of the longest run of zeros, the first of equal ones. -/
def longestZeroRun (gs : List Nat) : Nat × Nat :=
  let step (acc : (Nat × Nat) × (Nat × Nat) × Nat) (g : Nat) :=
    let (best, (curStart, curLen), i) := acc
    if g = 0 then
      let cur := (if curLen = 0 then i else curStart, curLen + 1)
      (if best.2 < cur.2 then cur else best, cur, i + 1)
    else (best, (0, 0), i + 1)
  (gs.foldl step ((0, 0), (0, 0), 0)).1

def groupsText (gs : List Nat) : String := ":".intercalate (gs.map Text.Hex.ofNat)

def text (a : Ipv6) : String :=
  match a.mappedV4? with
  | some v4 => "::ffff:" ++ v4.text
  | none =>
    let gs := a.groups
    let (start, len) := longestZeroRun gs
    if 1 < len then groupsText (gs.take start) ++ "::" ++ groupsText (gs.drop (start + len))
    else groupsText gs

end Ipv6

/-- An IP socket address. -/
inductive SocketAddr where
  | v4 (ip : Ipv4) (portNumber : UInt16)
  | v6 (ip : Ipv6) (portNumber : UInt16) (flowinfo scopeId : UInt32)
  deriving DecidableEq, Repr

/-- The text of a socket address: the address, a colon and the port; an IPv6 address in brackets,
with its scope. -/
def SocketAddr.text : SocketAddr → String
  | .v4 ip portNumber => ip.text ++ ":" ++ toString portNumber.toNat
  | .v6 ip portNumber _ scope =>
    let zone := if scope = 0 then "" else "%" ++ toString scope.toNat
    "[" ++ ip.text ++ zone ++ "]:" ++ toString portNumber.toNat

end SysBytes.Net
