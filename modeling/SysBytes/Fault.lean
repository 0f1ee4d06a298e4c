import SysBytes.Text.Utf8
import SysBytes.Text.Quoted

/-!
Faults: the broken preconditions at which the library stops instead of returning. Each has
one message; the first fault ends a sequence of operations.
-/
namespace SysBytes

/-- A broken precondition. -/
inductive Fault where
  | capacityOverflow
  | zeroCapacity
  | lengthExceeds (len capacity : Nat)
  | lengthOverflow
  | initializerOverrun (used capacity : Nat)
  | receiverOverrun (reported capacity : Nat)
  | noRecord (offset : Nat)
  | invalidComponent (name : List UInt8)
  | outsideView (index start len : Nat)
  | pastEnd
  | beforeStart
  | noComponentAtEnd
  | reversedRange
  deriving DecidableEq, Repr

def Fault.message : Fault → String
  | .capacityOverflow => "capacity overflow while growing buffer"
  | .zeroCapacity => "CowStore requires a positive minimum capacity"
  | .lengthExceeds len cap => s!"length {len} exceeds buffer capacity {cap}"
  | .lengthOverflow => "control buffer length overflow"
  | .initializerOverrun used cap => s!"initializer reported {used} bytes for a region of {cap}"
  | .receiverOverrun r cap => s!"receiver reported {r} bytes for a region of {cap}"
  | .noRecord i => s!"index {i} does not refer to a well-formed control message"
  | .invalidComponent name =>
    "invalid path component " ++ Text.Quoted.quote (Text.Utf8.lossy name)
  | .outsideView i s l => s!"component index {i} outside view {s}..{l}"
  | .pastEnd => "cannot advance past the end index"
  | .beforeStart => "cannot step back from the start index"
  | .noComponentAtEnd => "no component at the end index"
  | .reversedRange => "component range is reversed"

end SysBytes
