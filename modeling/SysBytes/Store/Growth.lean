import SysBytes.Fault

/-!
The growth rule of shared regions: a region that must grow takes seven quarters of its
capacity, rounded to the nearest whole byte, or the requested size if that is larger. The
scaled value must fit in a 64-bit word.
-/
namespace SysBytes.Store

def wordMax : Nat := Nat.pow 2 64 - 1

/-- The capacity a region of `current` bytes grows to when `requested` bytes are needed. -/
def grownCapacity (current requested : Nat) : Except Fault Nat :=
  if current * 7 + 2 ≤ wordMax then .ok (max ((current * 7 + 2) / 4) requested)
  else .error .capacityOverflow

end SysBytes.Store
