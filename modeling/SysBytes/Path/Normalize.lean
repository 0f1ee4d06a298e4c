import SysBytes.Path.FilePath

/-!
Lexical normalization: without looking at any file system, a path loses its `.` components,
each `..` removes the normal component before it, and a `..` with nothing to remove stays in a
relative path and goes at the root of an absolute one.
-/
namespace SysBytes.Path

namespace FilePath

def keepStep (absolute : Bool) (kept : List (List UInt8)) (c : List UInt8) : List (List UInt8) :=
  match Kind.of c with
  | .root | .currentDir => kept
  | .parentDir =>
    if (kept.getLast?.map Kind.of) == some .normal then kept.dropLast
    else if absolute then kept
    else kept ++ [c]
  | .normal => kept ++ [c]

/-- The path with `.` dropped and `name/..` pairs folded; the root stays. -/
def lexicallyNormalize (p : FilePath) : FilePath :=
  let kept := p.components.foldl (keepStep p.isAbsolute) []
  ⟨(if p.isAbsolute then [separator] else []) ++ joinNames kept⟩

end FilePath

end SysBytes.Path
