import SysBytes.Path.Error

/-!
Path components: the byte strings between separators. A component is the root `/`, the current
directory `.`, the parent directory `..`, or a normal name. A valid name is non-empty and holds
neither a separator nor NUL. A normal name's extension is what follows its last dot, unless
that dot is its first byte; the stem is what precedes that dot, or the whole name.
-/
namespace SysBytes.Path

/-- The separator byte `/`. -/
def separator : UInt8 := 47

/-- What a component denotes. -/
inductive Kind where
  | root
  | currentDir
  | parentDir
  | normal
  deriving DecidableEq, Repr

namespace Kind

def name : Kind → String
  | .root => "Root"
  | .currentDir => "CurrentDir"
  | .parentDir => "ParentDir"
  | .normal => "Normal"

def ofName? : String → Option Kind
  | "Root" => some .root
  | "CurrentDir" => some .currentDir
  | "ParentDir" => some .parentDir
  | "Normal" => some .normal
  | _ => none

def of (bytes : List UInt8) : Kind :=
  if bytes = [separator] then .root
  else if bytes = [46] then .currentDir
  else if bytes = [46, 46] then .parentDir
  else .normal

end Kind

/-- Whether bytes can be a component name: non-empty, without separator or NUL. -/
def isValidName (bytes : List UInt8) : Bool :=
  !bytes.isEmpty && !bytes.any fun b => b == separator || b == 0

def checkName (bytes : List UInt8) : Except PathError (List UInt8) :=
  if isValidName bytes then .ok bytes else .error (.invalidComponent bytes)

def lastDot (bytes : List UInt8) : Option Nat :=
  (List.range bytes.length).reverse.find? fun i => bytes[i]? == some 46

/-- A component split at the dot that starts its extension, when it is normal and has a dot after
its first byte. -/
def splitExtension (bytes : List UInt8) : List UInt8 × Option (List UInt8) :=
  if Kind.of bytes ≠ .normal then (bytes, none)
  else
    match lastDot bytes with
    | some (dot + 1) => (bytes.take (dot + 1), some (bytes.drop (dot + 2)))
    | _ => (bytes, none)

def stem (bytes : List UInt8) : List UInt8 := (splitExtension bytes).1

def extension (bytes : List UInt8) : Option (List UInt8) := (splitExtension bytes).2

def componentDebug (bytes : List UInt8) : String :=
  (Kind.of bytes).name ++ "(" ++ Text.Quoted.quote (Text.Utf8.lossy bytes) ++ ")"

end SysBytes.Path
