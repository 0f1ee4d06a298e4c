import SysBytes.Path.Component
import SysBytes.Fault

/-!
Component views: a path's storage with the offset where its components begin. The view reads
its storage afresh at every step, so a run of separators counts as one boundary; an index is a
byte offset. Edits go through `replaceRange`, which writes one separator at each new boundary.
-/
namespace SysBytes.Path

/-- A path's bytes and the offset where its components begin. -/
structure View where
  bytes : List UInt8 := []
  start : Nat := 0
  deriving DecidableEq, Repr, Inhabited

def isSep (b : UInt8) : Bool := b == separator

def skipSeparators (bytes : List UInt8) (i : Nat) : Nat :=
  i + ((bytes.drop i).takeWhile isSep).length

def componentEnd (bytes : List UInt8) (i : Nat) : Nat :=
  i + ((bytes.drop i).takeWhile fun b => !isSep b).length

/-- The start of the component after the one at `i`. -/
def nextStart (bytes : List UInt8) (i : Nat) : Nat := skipSeparators bytes (componentEnd bytes i)

def prevStart (bytes : List UInt8) (start i : Nat) : Nat :=
  let before := ((bytes.take i).drop start).reverse
  let seps := (before.takeWhile isSep).length
  let name := ((before.drop seps).takeWhile fun b => !isSep b).length
  i - seps - name

theorem lt_nextStart {bytes : List UInt8} {i : Nat} (inside : i < bytes.length) :
    i < nextStart bytes i := by
  unfold nextStart skipSeparators componentEnd
  cases hd : bytes.drop i with
  | nil =>
    have : (bytes.drop i).length = 0 := by rw [hd]; rfl
    simp only [List.length_drop] at this
    omega
  | cons b rest =>
    by_cases hb : isSep b = true
    · have empty : (List.takeWhile (fun b => !isSep b) (b :: rest)) = [] := by
        simp [List.takeWhile, hb]
      rw [empty, List.length_nil, Nat.add_zero, hd]
      simp [List.takeWhile, hb]
    · have first : (List.takeWhile (fun b => !isSep b) (b :: rest)).length ≥ 1 := by
        simp [List.takeWhile, hb]
      omega

theorem prevStart_lt {bytes : List UInt8} {start i : Nat} (above : start < i)
    (inside : i ≤ bytes.length) : prevStart bytes start i < i := by
  unfold prevStart
  simp only
  generalize hb : ((bytes.take i).drop start).reverse = before
  have len : before.length = i - start := by
    rw [← hb]; simp only [List.length_reverse, List.length_drop, List.length_take]; omega
  cases before with
  | nil => simp at len; omega
  | cons x rest =>
    by_cases hx : isSep x = true
    · have : (List.takeWhile isSep (x :: rest)).length ≥ 1 := by simp [List.takeWhile, hx]
      omega
    · have none : List.takeWhile isSep (x :: rest) = [] := by simp [List.takeWhile, hx]
      rw [none, List.length_nil, List.drop_zero]
      have : (List.takeWhile (fun b => !isSep b) (x :: rest)).length ≥ 1 := by
        simp [List.takeWhile, hx]
      omega

/-- The byte strings joined by single separators. -/
def joinNames (names : List (List UInt8)) : List UInt8 := List.intercalate [separator] names

namespace View

def hasRoot (v : View) : Bool := decide (0 < v.start)

def relative (v : View) : List UInt8 := v.bytes.drop v.start

def startIndex (v : View) : Nat := skipSeparators v.bytes v.start

def endIndex (v : View) : Nat := v.bytes.length

def isEmpty (v : View) : Bool := v.startIndex == v.endIndex

/-- Refuses an index outside `[start, end]`. -/
def checkIndex (v : View) (i : Nat) : Except Fault Unit :=
  if v.start ≤ i ∧ i ≤ v.bytes.length then .ok () else .error (.outsideView i v.start v.bytes.length)

def indexAfter (v : View) (i : Nat) : Except Fault Nat := do
  v.checkIndex i
  if i = v.endIndex then throw .pastEnd
  pure (nextStart v.bytes i)

def indexBefore (v : View) (i : Nat) : Except Fault Nat := do
  v.checkIndex i
  if i ≤ v.startIndex then throw .beforeStart
  pure (prevStart v.bytes v.start i)

def get (v : View) (i : Nat) : Except Fault (List UInt8) := do
  v.checkIndex i
  if i = v.endIndex then throw .noComponentAtEnd
  pure ((v.bytes.drop i).take (componentEnd v.bytes i - i))

set_option linter.unusedVariables false in
def forwardFrom (bytes : List UInt8) (i : Nat) : List Nat :=
  if inside : i < bytes.length then i :: forwardFrom bytes (nextStart bytes i) else []
termination_by bytes.length - i
decreasing_by have := lt_nextStart inside; omega

set_option linter.unusedVariables false in
def backwardFrom (bytes : List UInt8) (start front i : Nat) : List Nat :=
  if above : front < i ∧ start < i ∧ i ≤ bytes.length then
    let p := prevStart bytes start i
    p :: backwardFrom bytes start front p
  else []
termination_by i
decreasing_by exact prevStart_lt above.2.1 above.2.2

def indices (v : View) : List Nat := forwardFrom v.bytes v.startIndex

def indicesRev (v : View) : List Nat := backwardFrom v.bytes v.start v.startIndex v.endIndex

def nameAt (v : View) (i : Nat) : List UInt8 := (v.bytes.drop i).take (componentEnd v.bytes i - i)

/-- The components, front to back. -/
def names (v : View) : List (List UInt8) := v.indices.map v.nameAt

def namesRev (v : View) : List (List UInt8) := v.indicesRev.map v.nameAt

def count (v : View) : Nat := v.indices.length

def first? (v : View) : Option (List UInt8) := v.names.head?

def last? (v : View) : Option (List UInt8) := v.namesRev.head?

def firstInvalid (names : List (List UInt8)) : Option (List UInt8) :=
  names.find? fun n => !isValidName n

/-- Drops separators at the end of the storage, not below `start`. -/
def trimEnd (bytes : List UInt8) (start : Nat) : List UInt8 :=
  bytes.take (bytes.length - (((bytes.drop start).reverse.takeWhile isSep).length))

/-- Replaces the components in `[lo, hi)` by `names`, after checking the names, the two indices and
their order. -/
def replaceRange (v : View) (lo hi : Nat) (names : List (List UInt8)) : Except Fault View := do
  if let some bad := firstInvalid names then throw (.invalidComponent bad)
  v.checkIndex lo
  v.checkIndex hi
  if hi < lo then throw .reversedRange
  if v.isEmpty then
    pure { v with bytes := v.bytes.take v.start ++ joinNames names }
  else if names.isEmpty then
    let cut := v.bytes.take lo ++ v.bytes.drop hi
    pure { v with bytes := if hi = v.endIndex then trimEnd cut v.start else cut }
  else
    let span := (if lo = v.endIndex then [separator] else []) ++ joinNames names ++
      (if hi ≠ v.endIndex then [separator] else [])
    pure { v with bytes := v.bytes.take lo ++ span ++ v.bytes.drop hi }

def push (v : View) (name : List UInt8) : Except Fault View :=
  v.replaceRange v.endIndex v.endIndex [name]

def extend (v : View) (names : List (List UInt8)) : Except Fault View :=
  v.replaceRange v.endIndex v.endIndex names

def insert (v : View) (i : Nat) (name : List UInt8) : Except Fault View :=
  v.replaceRange i i [name]

def removeRange (v : View) (lo hi : Nat) : Except Fault View :=
  v.replaceRange lo hi []

def remove (v : View) (i : Nat) : Except Fault (View × List UInt8) := do
  let removed ← v.get i
  let next ← v.indexAfter i
  let v ← v.removeRange i next
  pure (v, removed)

def pop (v : View) : Except Fault (View × Option (List UInt8)) := do
  if v.isEmpty then return (v, none)
  let last ← v.indexBefore v.endIndex
  let (v, removed) ← v.remove last
  pure (v, some removed)

def clear (v : View) : Except Fault View := v.removeRange v.startIndex v.endIndex

def retain (v : View) (keep : List UInt8 → Bool) : Except Fault View :=
  v.replaceRange v.startIndex v.endIndex ((v.names.filter keep).filter fun n => Kind.of n ≠ .root)

def ofNames (names : List (List UInt8)) : Except Fault View := ({} : View).extend names

def debugText (v : View) : String :=
  let root := if v.hasRoot then "Some(Root)" else "None"
  let shown := ", ".intercalate (v.names.map componentDebug)
  s!"ComponentView \x7b root: {root}, components: [{shown}] \x7d"

end View

/-- A walk over a view's component indices from both ends; it is done when the two ends meet. -/
structure Indices where
  view : View
  front : Nat
  back : Nat
  deriving DecidableEq, Repr

namespace Indices

def ofView (v : View) : Indices := ⟨v, v.startIndex, v.endIndex⟩

def next (it : Indices) : Except Fault (Option Nat × Indices) :=
  if it.front = it.back then pure (none, it)
  else do
    let after ← it.view.indexAfter it.front
    pure (some it.front, { it with front := after })

def nextBack (it : Indices) : Except Fault (Option Nat × Indices) :=
  if it.front = it.back then pure (none, it)
  else do
    let before ← it.view.indexBefore it.back
    pure (some before, { it with back := before })

end Indices

structure Iter where
  indices : Indices
  deriving DecidableEq, Repr

namespace Iter

def ofView (v : View) : Iter := ⟨Indices.ofView v⟩

def read (v : View) : Option Nat × Indices → Except Fault (Option (List UInt8) × Iter)
  | (some i, rest) => do pure (some (← v.get i), ⟨rest⟩)
  | (none, rest) => pure (none, ⟨rest⟩)

def next (it : Iter) : Except Fault (Option (List UInt8) × Iter) := do
  read it.indices.view (← it.indices.next)

def nextBack (it : Iter) : Except Fault (Option (List UInt8) × Iter) := do
  read it.indices.view (← it.indices.nextBack)

end Iter

end SysBytes.Path
