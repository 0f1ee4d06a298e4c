import SysBytes.Text.Utf8
import SysBytes.Text.Hex

/-!
Reports: the structured answers the library gives about its values. A report is null, a
boolean, an integer, a text, a list of reports, or named fields. Byte strings appear either as
hex text or as a byte value, which is the text itself when the bytes are well-formed UTF-8 and
a single `hex` field otherwise.
-/
namespace SysBytes

/-- A structured answer. -/
inductive Report where
  | null
  | bool (b : Bool)
  | int (n : Int)
  | text (s : String)
  | list (items : List Report)
  | fields (entries : List (String × Report))
  deriving Inhabited, BEq

namespace Report

def nat (n : Nat) : Report := .int n

def hex (bytes : List UInt8) : Report := .text (Text.Hex.encode bytes)

/-- A byte value: the text when the bytes are well-formed UTF-8, else their hex. -/
def bytes (b : List UInt8) : Report :=
  match Text.Utf8.decode? b with
  | some s => .text s
  | none => .fields [("hex", hex b)]

def bytes? : Option (List UInt8) → Report
  | some b => bytes b
  | none => .null

def failure (kind message : String) : Report :=
  .fields [("error", .text kind), ("message", .text message)]

def entries : Report → List (String × Report)
  | .fields es => es
  | _ => []

def extend (r : Report) (more : List (String × Report)) : Report :=
  .fields (r.entries ++ more)

end Report

end SysBytes
