import SysBytes.Word

/-!
Fillers: the callers' initializers that write into a region handed to them and report how many
of its leading bytes they used, or refuse with an error of their own. A filler sees the
region's current bytes; what it returns is fitted back to the region's length, since it can
only write within the region.
-/
namespace SysBytes.Store

/-- An initializer over a region: the bytes written over it and the count used, or an error. -/
def Filler (ε : Type) := List UInt8 → Except ε (List UInt8 × Nat)

namespace Filler

def writing {ε : Type} (bytes : List UInt8) (used : Nat) : Filler ε :=
  fun region => .ok (Word.overwrite region 0 bytes, used)

def refusing {ε : Type} (e : ε) : Filler ε := fun _ => .error e

def run {ε : Type} (fill : Filler ε) (region : List UInt8) : Except ε (List UInt8 × Nat) :=
  match fill region with
  | .ok (written, used) =>
    .ok (Word.overwrite region 0 (written.take region.length), used)
  | .error e => .error e

end Filler

end SysBytes.Store
