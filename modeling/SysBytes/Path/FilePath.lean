import SysBytes.Path.View
import SysBytes.Log.Event

/-!
File paths: byte strings of `/`-separated components, absolute when they begin with the root.
Building a path from bytes refuses NUL, keeps a leading root and joins the non-empty parts by
single separators; reading accepts irregular storage too. Paths compare component by component.
-/
namespace SysBytes.Path

/-- A path, by its stored bytes. -/
structure FilePath where
  bytes : List UInt8 := []
  deriving DecidableEq, Repr, Inhabited

def splitParts (bytes : List UInt8) : List (List UInt8) := bytes.splitOn separator

def nonEmptyParts (bytes : List UInt8) : List (List UInt8) :=
  (splitParts bytes).filter fun p => !p.isEmpty

namespace FilePath

def empty : FilePath := {}

def isAbsolute (p : FilePath) : Bool := p.bytes.head? == some separator

def rootLen (p : FilePath) : Nat := if p.isAbsolute then 1 else 0

def isEmpty (p : FilePath) : Bool := p.bytes.isEmpty

/-- The path of bytes: NUL is refused, a leading root kept, the non-empty parts joined by single
separators. -/
def ofBytes (bytes : List UInt8) : Except PathError FilePath :=
  if bytes.contains 0 then .error .interiorNul
  else
    let root := if bytes.head? == some separator then [separator] else []
    .ok ⟨root ++ joinNames (nonEmptyParts bytes)⟩

def toText (p : FilePath) : Except PathError String :=
  match Text.Utf8.decode? p.bytes with
  | some s => .ok s
  | none => .error .notUnicode

/-- The components: the root first if there is one, then the non-empty parts after it. -/
def components (p : FilePath) : List (List UInt8) :=
  (if p.isAbsolute then [[separator]] else []) ++ nonEmptyParts (p.bytes.drop p.rootLen)

def lastComponent? (p : FilePath) : Option (List UInt8) := p.components.getLast?

def startsWith (p base : FilePath) : Bool := base.components.isPrefixOf p.components

def view (p : FilePath) : View := ⟨p.bytes, p.rootLen⟩

def ofView (root : Bool) (v : View) : FilePath :=
  if !v.hasRoot && root then ⟨separator :: v.bytes⟩ else ⟨v.bytes⟩

def setComponents (p : FilePath) (v : View) : FilePath :=
  ofView (!v.hasRoot && p.isAbsolute) v

def writeBack (root : Bool) (v : View) : FilePath × Log.Event :=
  let reattach := !v.hasRoot && root
  (ofView reattach v, ⟨.trace, "writing back components",
    [("len", .nat v.bytes.length), ("reattach_root", .flag reattach)]⟩)

/-- Appends a path: an absolute one replaces this path, an empty one changes nothing. -/
def push (p other : FilePath) : FilePath :=
  if other.isAbsolute then other
  else if other.isEmpty then p
  else if p.rootLen < p.bytes.length then ⟨p.bytes ++ separator :: other.bytes⟩
  else ⟨p.bytes ++ other.bytes⟩

/-- Removes the last component through the view and writes the view back. -/
def pop (p : FilePath) : Except Fault (FilePath × Bool) × Log.Event :=
  match p.view.pop with
  | .ok (v, removed) =>
    let (q, e) := writeBack p.isAbsolute v
    (.ok (q, removed.isSome), e)
  | .error f => (.error f, (writeBack p.isAbsolute p.view).2)

def compareBytes : List UInt8 → List UInt8 → Ordering
  | [], [] => .eq
  | [], _ :: _ => .lt
  | _ :: _, [] => .gt
  | a :: as, b :: bs => match compare a b with
    | .eq => compareBytes as bs
    | o => o

def compareParts : List (List UInt8) → List (List UInt8) → Ordering
  | [], [] => .eq
  | [], _ :: _ => .lt
  | _ :: _, [] => .gt
  | a :: as, b :: bs => match compareBytes a b with
    | .eq => compareParts as bs
    | o => o

/-- The order of paths: component by component. -/
def order (p q : FilePath) : Ordering := compareParts p.components q.components

def display (p : FilePath) : String := Text.Utf8.lossy p.bytes

def debugText (p : FilePath) : String := "FilePath(" ++ Text.Quoted.quote p.display ++ ")"

end FilePath

end SysBytes.Path
