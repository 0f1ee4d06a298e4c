import SysBytes.Text.Utf8
import SysBytes.Text.Quoted

/-!
Errors of path construction: a NUL byte, an invalid component name, or bytes that are not
UTF-8 where text is asked for.
-/
namespace SysBytes.Path

/-- Why a path or component cannot be built or read. -/
inductive PathError where
  | interiorNul
  | invalidComponent (name : List UInt8)
  | notUnicode
  deriving DecidableEq, Repr

namespace PathError

def kind : PathError → String
  | .interiorNul => "InteriorNul"
  | .invalidComponent _ => "InvalidComponent"
  | .notUnicode => "NotUnicode"

def message : PathError → String
  | .interiorNul => "path contains an interior NUL byte"
  | .invalidComponent name => "invalid path component " ++ Text.Quoted.quote (Text.Utf8.lossy name)
  | .notUnicode => "path is not valid UTF-8"

end PathError

end SysBytes.Path
