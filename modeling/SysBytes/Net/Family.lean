/-!
Address families: the 16-bit tag at the head of every socket address record. Four families
have names; any other value is written by its number.
-/
namespace SysBytes.Net

/-- An address family, by its raw 16-bit value. -/
structure Family where
  raw : UInt16
  deriving DecidableEq, Repr, Inhabited

namespace Family

def unspec : Family := ⟨0⟩
def unix : Family := ⟨1⟩
def inet : Family := ⟨2⟩
def inet6 : Family := ⟨10⟩

def name (f : Family) : String :=
  if f = unspec then "AF_UNSPEC"
  else if f = unix then "AF_UNIX"
  else if f = inet then "AF_INET"
  else if f = inet6 then "AF_INET6"
  else s!"family {f.raw.toNat}"

end Family

end SysBytes.Net
